import Timebase.Command.Options
import Timebase.Machine.Basic
/-!
# Batches of machines

The same machine is run a number of times. A machine that is refused something has failed; one that
breaks a contract leaves no trace in the report.
-/

namespace Timebase.Command

/-- The low eight bits of the numbers from zero on. -/
def hotplugBytes (events : Nat) : List UInt8 := (List.range events).map Nat.toUInt8

/-- A span of milliseconds, whose number is taken as a signed one. -/
def runSpan (msec : Nat) : Span := Span.milliseconds (Int.bmod msec UInt64.size)

/-- Runs a machine for its time, hands it the injected input, settles it and reports.

The input comes from a feeder of its own, which may be at it already while the machine runs and is
waited for before the machine settles. Here all of it comes in after the run, which is one of the
ways it may fall. What the bytes are latched at differs from one way to another; that a machine has
latched each of them once it has settled does not. -/
def runMachine (steps : Nat) (c : MachineConfig) (name : String) : Except Halt MachineReport :=
  match Machine.new c with
  | .error cause => .error (.fault cause)
  | .ok machine =>
    let act : Run Machine MachineReport := do
      Machine.runFor steps (runSpan c.runMsec)
      (hotplugBytes c.hotplugEvents).forM Machine.inject
      Machine.settle steps
      Machine.report name 0
    match act machine with
    | .ok report _ => .ok report
    | .error halt _ => .error halt

def machineName (index : Nat) : String := "machine-" ++ toString index

/-- How the machines of a batch ended. -/
structure Batch where
  reports : List MachineReport
  failed : List String

namespace Batch

def empty : Batch := ⟨[], []⟩

/-- Adds how one machine ended. -/
def add (b : Batch) (name : String) : Except Halt MachineReport → Batch
  | .ok report => { b with reports := b.reports ++ [report] }
  | .error (.fault (.refused _)) => { b with failed := b.failed ++ [name] }
  | .error _ => b

def run (steps : Nat) (c : MachineConfig) (instances : Nat) : Batch :=
  (List.range instances).foldl
    (fun b i => b.add (machineName i) (runMachine steps c (machineName i))) empty

/-- What is said about machines that failed. -/
def error? (b : Batch) : Option String :=
  if b.failed.isEmpty then none else some (toString b.failed.length ++ " machine(s) failed")

def exitCode (b : Batch) : Nat := if b.failed.isEmpty then 0 else 1

end Batch

/-- What becomes of a command line. -/
inductive Outcome where
  | misused (cause : Misuse)
  | helped
  /-- Nothing could be run. -/
  | refused (cause : LoadError)
  /-- More machines were to run at once than there can be. -/
  | overcrowded (parallel : Nat)
  | ran (json : Bool) (batch : Batch)

namespace Outcome

def exitCode : Outcome → Nat
  | .misused _ => 2
  | .helped => 0
  | .refused _ => 1
  | .overcrowded _ => 101
  | .ran _ batch => batch.exitCode

/-- What is said of an error. -/
def error? : Outcome → Option String
  | .misused cause => some cause.message
  | .helped => none
  | .refused cause => some cause.message
  | .overcrowded parallel => some ("cannot run " ++ toString parallel ++ " machines at once")
  | .ran _ batch => batch.error?

end Outcome

/-- Does what a command line asks for. -/
def run (steps : Nat) (readFile : String → Option String) (args : List String) : Outcome :=
  match parse args with
  | .error cause => .misused cause
  | .ok .help => .helped
  | .ok (.run o) =>
    match o.machineConfig readFile with
    | .error cause => .refused cause
    | .ok c =>
      if Options.parallelLimit < o.parallel then .overcrowded o.parallel
      else .ran o.json (Batch.run steps c o.instances)

end Timebase.Command
