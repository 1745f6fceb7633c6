import Timebase.Fault
import Timebase.Json.Decoder
/-!
# Machine configurations

What a machine is built from: rates, sizes and the time it is to run. A configuration file gives
the fields that differ from the usual ones.
-/

namespace Timebase

/-- Video timing of the display. -/
inductive VideoStandard where
  | ntsc | pal
  deriving DecidableEq, Repr, Inhabited

namespace VideoStandard

def name : VideoStandard → String
  | .ntsc => "Ntsc"
  | .pal => "Pal"

def named : List (String × VideoStandard) := [(name .ntsc, .ntsc), (name .pal, .pal)]

/-- Lines of a frame. -/
def lines : VideoStandard → Nat
  | .ntsc => 262
  | .pal => 313

/-- Frames a second as a quotient: a line takes 228 cycles of the video clock. -/
def frameRate (v : VideoStandard) : Nat × Nat := (3579545, 228 * v.lines)

/-- Letters of the name may have either case. -/
def ofText (s : String) : Attempt VideoStandard :=
  match named.find? (fun n => n.1.toLower == s.toLower) with
  | some (_, v) => .ok v
  | none => Attempt.refuse .unknownVideo

end VideoStandard

structure MachineConfig where
  cpuFreq : Nat
  cyclesPerInstr : Nat
  video : VideoStandard
  baud : Nat
  /-- Sent over the serial line at power-on. -/
  message : String
  sampleRate : Nat
  audioBatch : Nat
  runMsec : Nat
  /-- Input events injected while the machine runs. -/
  hotplugEvents : Nat
  deriving DecidableEq, Repr

/-- Why no configuration came out of a file. -/
inductive LoadError where
  | unopened (path : String)
  | unread (path : String) (cause : Json.ReadError)
  | invalid (cause : Fault)

def LoadError.message : LoadError → String
  | .unopened path => "Cannot open config " ++ path
  | .unread path _ => "Cannot parse config " ++ path
  | .invalid cause => cause.message

namespace MachineConfig

def default : MachineConfig where
  cpuFreq := 3579545
  cyclesPerInstr := 12
  video := .ntsc
  baud := 9600
  message := "HELLO"
  sampleRate := 96000
  audioBatch := 512
  runMsec := 1000
  hotplugEvents := 0

instance : Inhabited MachineConfig := ⟨default⟩

/-- No rate and no amount may be zero. -/
def validate (c : MachineConfig) : Attempt Unit :=
  if c.cpuFreq = 0 ∨ c.baud = 0 ∨ c.sampleRate = 0 then Attempt.refuse .zeroRate
  else if c.cyclesPerInstr = 0 ∨ c.audioBatch = 0 then Attempt.refuse .zeroAmount
  else .ok ()

private def wide : Json.Decoder Nat := .natural UInt64.size "u64"

private def events : Json.Decoder Nat := .natural UInt32.size "u32"

/-- Fields that are missing have their usual values. -/
def decoder : Json.Decoder MachineConfig :=
  .record
    { name := "MachineConfig"
      fields := [
        Json.Decoder.field "cpu_freq" wide fun v c => { c with cpuFreq := v },
        Json.Decoder.field "cycles_per_instr" wide fun v c => { c with cyclesPerInstr := v },
        Json.Decoder.field "video" (.choice VideoStandard.named) fun v c => { c with video := v },
        Json.Decoder.field "baud" wide fun v c => { c with baud := v },
        Json.Decoder.field "message" .text fun v c => { c with message := v },
        Json.Decoder.field "sample_rate" wide fun v c => { c with sampleRate := v },
        Json.Decoder.field "audio_batch" wide fun v c => { c with audioBatch := v },
        Json.Decoder.field "run_msec" wide fun v c => { c with runMsec := v },
        Json.Decoder.field "hotplug_events" events fun v c => { c with hotplugEvents := v }]
      blank := default
      lenient := true }

def toJson (c : MachineConfig) : Json.Value :=
  let natural (n : Nat) : Json.Value := .number (.natural n)
  .object [
    ("cpu_freq", natural c.cpuFreq),
    ("cycles_per_instr", natural c.cyclesPerInstr),
    ("video", .text c.video.name),
    ("baud", natural c.baud),
    ("message", .text c.message),
    ("sample_rate", natural c.sampleRate),
    ("audio_batch", natural c.audioBatch),
    ("run_msec", natural c.runMsec),
    ("hotplug_events", natural c.hotplugEvents)]

/-- The configuration in a file, given by its path and what could be read from it. -/
def load (path : String) (content : Option String) : Except LoadError MachineConfig :=
  match content with
  | none => .error (.unopened path)
  | some text =>
    match decoder.ofText text with
    | .error cause => .error (.unread path cause)
    | .ok c =>
      match c.validate with
      | .error cause => .error (.invalid cause)
      | .ok () => .ok c

end MachineConfig
end Timebase
