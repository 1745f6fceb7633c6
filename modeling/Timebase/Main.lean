import Std.Time.Format
import Timebase.Command.Batch
import Timebase.Json.Render
/-!
# Command line

The outer layer: reads the configuration file and the clock on the wall, and prints the report.
-/

namespace Timebase.Command

def programName : String := "timebase"

/-- More steps than a run can take in a lifetime. -/
def stepLimit : Nat := UInt64.size

/-- The content of a file, unless it cannot be read. -/
def readFile? (path : String) : IO (Option String) := do
  try some <$> IO.FS.readFile path catch _ => return none

/-- Date and time in the local time zone, or in that of Greenwich if the local one is not known. -/
def dateTime : IO Std.Time.DateTime := do
  try Std.Time.DateTime.now
  catch _ =>
    return Std.Time.DateTime.ofTimestamp (← Std.Time.Timestamp.now) Std.Time.TimeZone.ZoneRules.UTC

/-- Date and time of day as they are shown. -/
def wallTime (t : Std.Time.DateTime) : WallTime where
  year := t.year.toInt
  month := t.month.toNat
  day := t.day.toNat
  hour := t.hour.toNat
  minute := t.minute.toNat
  second := t.second.toNat

/-- Runs a machine and notes how long that takes. -/
def runTimed (c : MachineConfig) (name : String) : IO (Except Halt MachineReport) := do
  let start ← IO.monoNanosNow
  let ending ← IO.lazyPure fun _ => runMachine stepLimit c name
  let stop ← IO.monoNanosNow
  return ending.map fun r => { r with wallSecs := (stop - start).toFloat / 1e9 }

def runBatch (c : MachineConfig) (instances : Nat) : IO Batch :=
  (List.range instances).foldlM
    (fun b i => b.add (machineName i) <$> runTimed c (machineName i)) .empty

/-- Prints the reports of a batch and what they say of machines that failed. -/
def printBatch (started : Std.Time.DateTime) (json : Bool) (b : Batch) : IO Unit := do
  if json then
    let reports := Json.Value.array (b.reports.map MachineReport.toJson)
    IO.println (Json.Value.object
      [("started", .text started.toISO8601String), ("machines", reports)]).spread
  else
    IO.println (RunReport.text ⟨wallTime started, b.reports⟩)

/-- Does what a command line asks for and gives the exit code. -/
def execute (args : List String) : IO Outcome := do
  match parse args with
  | .error cause => return .misused cause
  | .ok .help =>
    IO.println (helpText programName)
    return .helped
  | .ok (.run o) =>
    let content ← match o.config with
      | some path => readFile? path
      | none => pure none
    match o.machineConfig fun _ => content with
    | .error cause => return .refused cause
    | .ok c =>
      if Options.parallelLimit < o.parallel then return .overcrowded o.parallel
      let started ← dateTime
      let batch ← runBatch c o.instances
      printBatch started o.json batch
      return .ran o.json batch

end Timebase.Command

/-- Runs demo machines as the options ask for. -/
def main (args : List String) : IO UInt32 := do
  let outcome ← Timebase.Command.execute args
  if let some message := outcome.error? then IO.eprintln ("Error: " ++ message)
  return outcome.exitCode.toUInt32
