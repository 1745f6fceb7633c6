import Timebase.Json.Decoder
import Timebase.Decimal.Fixed
import Timebase.Time.Wall
/-!
# Reports

What is known of machines when they have run, as text and as JSON.
-/

namespace Timebase

structure MachineReport where
  name : String
  emulatedTicks : Nat
  emulatedSecs : Float
  wallSecs : Float
  cpuInstructions : Nat
  frames : Nat
  serialBits : Nat
  serialOutput : String
  audioSamples : Nat
  audioSamplesExpected : Nat
  inputEvents : Nat
  pendingSyncPoints : Nat
  debug : List (String × String)

namespace MachineReport

/-- The lines of the report of one machine. -/
def lines (r : MachineReport) : List String := [
  r.name ++ ": " ++ Decimal.fixed 3 r.emulatedSecs ++ "s emulated in " ++
    Decimal.fixed 3 r.wallSecs ++ "s",
  "  instructions: " ++ toString r.cpuInstructions,
  "  frames:       " ++ toString r.frames,
  "  serial:       " ++ toString r.serialBits ++ " bits " ++ Text.quoted r.serialOutput,
  "  audio:        " ++ toString r.audioSamples ++ " samples (" ++
    toString r.audioSamplesExpected ++ " expected)",
  "  input:        " ++ toString r.inputEvents ++ " events",
  "  " ++ ", ".intercalate (r.debug.map fun (name, value) => name ++ ": " ++ value)]

def text (r : MachineReport) : String := "\n".intercalate r.lines

private def blank : MachineReport := ⟨"", 0, 0, 0, 0, 0, 0, "", 0, 0, 0, 0, []⟩

private def count : Json.Decoder Nat := .natural UInt64.size "u64"

private def size : Json.Decoder Nat := .natural UInt64.size "usize"

def decoder : Json.Decoder MachineReport :=
  .record
    { name := "MachineReport"
      fields := [
        Json.Decoder.field "name" .text fun v r => { r with name := v },
        Json.Decoder.field "emulated_ticks" count fun v r => { r with emulatedTicks := v },
        Json.Decoder.field "emulated_secs" .float fun v r => { r with emulatedSecs := v },
        Json.Decoder.field "wall_secs" .float fun v r => { r with wallSecs := v },
        Json.Decoder.field "cpu_instructions" count fun v r => { r with cpuInstructions := v },
        Json.Decoder.field "frames" count fun v r => { r with frames := v },
        Json.Decoder.field "serial_bits" count fun v r => { r with serialBits := v },
        Json.Decoder.field "serial_output" .text fun v r => { r with serialOutput := v },
        Json.Decoder.field "audio_samples" count fun v r => { r with audioSamples := v },
        Json.Decoder.field "audio_samples_expected" count
          fun v r => { r with audioSamplesExpected := v },
        Json.Decoder.field "input_events" size fun v r => { r with inputEvents := v },
        Json.Decoder.field "pending_sync_points" size fun v r => { r with pendingSyncPoints := v },
        Json.Decoder.field "debug" (.list (.pair .text .text)) fun v r => { r with debug := v }]
      blank
      lenient := false }

def toJson (r : MachineReport) : Json.Value :=
  let natural (n : Nat) : Json.Value := .number (.natural n)
  .object [
    ("name", .text r.name),
    ("emulated_ticks", natural r.emulatedTicks),
    ("emulated_secs", .number (.float r.emulatedSecs)),
    ("wall_secs", .number (.float r.wallSecs)),
    ("cpu_instructions", natural r.cpuInstructions),
    ("frames", natural r.frames),
    ("serial_bits", natural r.serialBits),
    ("serial_output", .text r.serialOutput),
    ("audio_samples", natural r.audioSamples),
    ("audio_samples_expected", natural r.audioSamplesExpected),
    ("input_events", natural r.inputEvents),
    ("pending_sync_points", natural r.pendingSyncPoints),
    ("debug", .array (r.debug.map fun (name, value) => .array [.text name, .text value]))]

/-- Reports in the order of their names; equal names keep the order they came in. -/
def sort (reports : List MachineReport) : List MachineReport :=
  reports.mergeSort (fun a b => decide (a.name ≤ b.name))

/-- Text of the reports of several machines. -/
def textOf (reports : List MachineReport) : String := "\n".intercalate ((sort reports).map text)

end MachineReport

/-- The reports of a run, in the order in which its machines have finished. -/
structure RunReport where
  started : WallTime
  machines : List MachineReport

/-- A line that tells when the run was started, and below it the reports of the machines. -/
def RunReport.text (r : RunReport) : String :=
  "Run started " ++ r.started.text ++ "\n" ++ MachineReport.textOf r.machines

end Timebase
