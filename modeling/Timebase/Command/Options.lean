import Timebase.Machine.Config
/-!
# Command line options

Options have a long or a short name. A value stands behind the name, in the same word or in the
next one, and no option may be given twice.
-/

namespace Timebase.Command

structure Options where
  config : Option String
  runMsec : Option Nat
  cpuFreq : Option Nat
  baud : Option Nat
  sampleRate : Option Nat
  video : Option VideoStandard
  hotplug : Option Nat
  instances : Nat
  /-- How many machines may run at once; what they do does not depend on it. Zero stands for one. -/
  parallel : Nat
  json : Bool
  deriving DecidableEq, Repr

def Options.default : Options := ⟨none, none, none, none, none, none, none, 1, 1, false⟩

/-- The most machines that may run at once: those that run are counted in 32 bits. -/
def Options.parallelLimit : Nat := UInt32.size - 1

/-- What a command line asks for. -/
inductive Request where
  | run (options : Options)
  | help
  deriving DecidableEq, Repr

/-- Why a command line is not understood. -/
inductive Misuse where
  | unknown (word : String)
  | repeated (name : String)
  | missingValue (name : String)
  | needlessValue (name : String)
  | badValue (name value : String)
  deriving DecidableEq, Repr

def Misuse.message : Misuse → String
  | .unknown word => "unexpected argument '" ++ word ++ "' found"
  | .repeated name => "the argument '" ++ name ++ "' cannot be used multiple times"
  | .missingValue name => "a value is required for '" ++ name ++ "' but none was supplied"
  | .needlessValue name => "unexpected value for '" ++ name ++ "' found; no more were expected"
  | .badValue name value => "invalid value '" ++ value ++ "' for '" ++ name ++ "'"

/-- What the presence of an option does. -/
inductive Effect where
  /-- Stores a value, unless it cannot be read. -/
  | store (placeholder : String) (put : String → Options → Option Options)
  | mark (put : Options → Options)
  | showHelp

structure Spec where
  long : Option String
  short : Option Char
  about : String
  effect : Effect

/-- An option as it is written. -/
def Spec.name (s : Spec) : String :=
  match s.long, s.short with
  | some long, _ => "--" ++ long
  | none, some short => "-" ++ short.toString
  | none, none => ""

/-- A number without a sign, or with a plus sign in front. -/
def natural? (text : String) : Option Nat :=
  let digits := match text.toList with
    | '+' :: rest => rest
    | cs => cs
  if digits.isEmpty || !digits.all Char.isDigit then none
  else some (digits.foldl (fun n c => 10 * n + (c.toNat - '0'.toNat)) 0)

/-- A number of 64 bits. -/
def wide? (text : String) : Option Nat := (natural? text).filter (· < UInt64.size)

/-- A number of 32 bits; zero may have a minus sign. -/
def events? (text : String) : Option Nat :=
  match text.toList with
  | '-' :: rest =>
    if rest.head? = some '+' then none
    else (natural? (String.ofList rest)).filter (· = 0)
  | _ => (natural? text).filter (· < UInt32.size)

private def valued {α : Type} (read : String → Option α) (put : α → Options → Options)
    (placeholder : String) : Effect :=
  .store placeholder fun text o => (put · o) <$> read text

private def path? (text : String) : Option String := if text.isEmpty then none else some text

private def video? (text : String) : Option VideoStandard := (VideoStandard.ofText text).toOption

def specs : List Spec := [
  ⟨some "config", none, "Machine configuration (JSON)",
    valued path? (fun v o => { o with config := some v }) "CONFIG"⟩,
  ⟨some "run-msec", none, "Emulated run time per machine",
    valued wide? (fun v o => { o with runMsec := some v }) "RUN_MSEC"⟩,
  ⟨some "cpu-freq", none, "", valued wide? (fun v o => { o with cpuFreq := some v }) "CPU_FREQ"⟩,
  ⟨some "baud", none, "", valued wide? (fun v o => { o with baud := some v }) "BAUD"⟩,
  ⟨some "sample-rate", none, "",
    valued wide? (fun v o => { o with sampleRate := some v }) "SAMPLE_RATE"⟩,
  ⟨some "video", none, "", valued video? (fun v o => { o with video := some v }) "VIDEO"⟩,
  ⟨some "hotplug", none, "Input events injected from a separate thread",
    valued events? (fun v o => { o with hotplug := some v }) "HOTPLUG"⟩,
  ⟨none, some 'n', "Number of machine instances [default: 1]",
    valued wide? (fun v o => { o with instances := v }) "INSTANCES"⟩,
  ⟨none, some 'j', "[default: 1]",
    valued wide? (fun v o => { o with parallel := v }) "PARALLEL"⟩,
  ⟨some "json", none, "Print the report as JSON", .mark fun o => { o with json := true }⟩,
  ⟨some "help", some 'h', "Print help", .showHelp⟩]

/-- How a word of the command line begins. -/
inductive Word where
  | dashes
  | long (name : String) (value : Option String)
  | short (letter : Char) (rest : String)
  | plain

/-- The text up to the first equals sign and what stands behind it. -/
def splitValue (cs : List Char) : String × Option String :=
  let name := cs.takeWhile (· != '=')
  match cs.drop name.length with
  | _ :: value => (String.ofList name, some (String.ofList value))
  | [] => (String.ofList name, none)

def Word.ofText (text : String) : Word :=
  match text.toList with
  | ['-', '-'] => .dashes
  | '-' :: '-' :: rest => let (name, value) := splitValue rest; .long name value
  | '-' :: c :: rest => .short c (String.ofList rest)
  | _ => .plain

/-- Whether a word can be the value of the option in front of it. -/
def Word.isValue : Word → Bool
  | .plain => true
  | _ => false

/-- A value in the same word as a short name; an equals sign before it does not count. -/
def attached (rest : String) : Option String :=
  match rest.toList with
  | [] => none
  | '=' :: value => some (String.ofList value)
  | _ => some rest

/-- The option that a word names, and the value behind an equals sign or a short name. -/
def Word.spec? : Word → Option (Spec × Option String)
  | .long name value =>
    (specs.find? fun s => s.long == some name).map fun s => (s, value)
  | .short letter rest =>
    (specs.find? fun s => s.short == some letter).map fun s => (s, attached rest)
  | _ => none

/-- What one word amounts to. -/
inductive Reading where
  | done
  | help
  | taken (name : String) (options : Options)
  /-- The next word has to be a value. -/
  | awaiting (name : String) (put : String → Options → Option Options)

/-- Stores the value of an option. -/
def storeValue (name value : String) (put : String → Options → Option Options)
    (options : Options) : Except Misuse Options :=
  match put value options with
  | some options => .ok options
  | none => .error (.badValue name value)

/-- Reads one word, given the names used so far. A short option without a value may be followed by
others in its word, but only the page of help has such a name. -/
def readWord (seen : List String) (options : Options) (text : String) : Except Misuse Reading :=
  let word := Word.ofText text
  match word, word.spec? with
  | .dashes, _ => .ok .done
  | _, none => .error (.unknown text)
  | _, some (spec, value) =>
    if seen.contains spec.name then .error (.repeated spec.name)
    else
      match spec.effect, value with
      | .store _ put, some value => do
        return .taken spec.name (← storeValue spec.name value put options)
      | .store _ put, none => .ok (.awaiting spec.name put)
      | .mark put, none => .ok (.taken spec.name (put options))
      | .mark _, some _ => .error (.needlessValue spec.name)
      | .showHelp, value =>
        match word, value with
        | .long _ _, some _ => .error (.needlessValue spec.name)
        | _, _ => .ok .help

/-- Reads a command line from the front, given the names used so far. -/
def parseFrom (seen : List String) (options : Options) : List String → Except Misuse Request
  | [] => .ok (.run options)
  | text :: rest =>
    match readWord seen options text with
    | .error cause => .error cause
    | .ok .help => .ok .help
    | .ok .done =>
      match rest with
      | [] => .ok (.run options)
      | word :: _ => .error (.unknown word)
    | .ok (.taken name options) => parseFrom (name :: seen) options rest
    | .ok (.awaiting name put) =>
      match rest with
      | [] => .error (.missingValue name)
      | value :: rest =>
        if (Word.ofText value).isValue then
          match storeValue name value put options with
          | .ok options => parseFrom (name :: seen) options rest
          | .error cause => .error cause
        else .error (.missingValue name)

def parse (args : List String) : Except Misuse Request := parseFrom [] .default args

/-- How an option and its value are shown. -/
def Spec.usage (s : Spec) : String :=
  let names := match s.long, s.short with
    | some long, some short => "-" ++ short.toString ++ ", --" ++ long
    | some long, none => "    --" ++ long
    | none, some short => "-" ++ short.toString
    | none, none => ""
  match s.effect with
  | .store placeholder _ => names ++ " <" ++ placeholder ++ ">"
  | _ => names

/-- The page that explains the options of a program. -/
def helpText (program : String) : String :=
  let width := (specs.map (·.usage.length)).foldl max 0
  let line (s : Spec) : String :=
    let padding := String.ofList (List.replicate (width - s.usage.length) ' ')
    "  " ++ s.usage ++ padding ++ "  " ++ s.about
  "\n".intercalate
    (["Runs demo machines on the emulated-time scheduler", "",
      "Usage: " ++ program ++ " [OPTIONS]", "", "Options:"] ++ specs.map line)

/-- The configuration of the machines: a file if one is named, and the options on top of it. -/
def Options.machineConfig (o : Options) (readFile : String → Option String) :
    Except LoadError MachineConfig := do
  let c ← match o.config with
    | some path => MachineConfig.load path (readFile path)
    | none => .ok .default
  let c := { c with
    runMsec := o.runMsec.getD c.runMsec
    cpuFreq := o.cpuFreq.getD c.cpuFreq
    baud := o.baud.getD c.baud
    sampleRate := o.sampleRate.getD c.sampleRate
    video := o.video.getD c.video
    hotplugEvents := o.hotplug.getD c.hotplugEvents }
  match c.validate with
  | .ok () => .ok c
  | .error cause => .error (.invalid cause)

end Timebase.Command
