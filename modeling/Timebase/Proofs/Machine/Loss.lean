import Mathlib
import Timebase.Proofs.Machine.RunTime

/-!
# Which machines are lost

All machines of a batch end alike. Those that report and those that are refused something are
accounted for; those that break a contract are neither reported nor counted as failed.
-/

namespace Timebase

namespace Command

variable {steps n : Nat} {c : MachineConfig} {b : Batch} {r : MachineReport} {cause : Violation}

theorem machineName_injective : Function.Injective machineName := by
  intro i j h
  exact Nat.repr_injective ((String.append_right_inj _).mp h)

theorem course_eq (steps : Nat) (c : MachineConfig) (name : String) :
    course steps c name = (fun r => { r with name }) <$> course steps c "" := by
  have hreport : Machine.report name 0 = (fun r => { r with name }) <$> Machine.report "" 0 := by
    simp only [Machine.report, map_bind, map_pure]
  rw [course, hreport]
  simp only [course, map_bind]

/-- How a machine of a configuration ends, whatever its name. -/
def ending (steps : Nat) (c : MachineConfig) : Except Halt MachineReport := runMachine steps c ""

/-- Machines of a configuration end alike. -/
theorem runMachine_eq_ending (steps : Nat) (c : MachineConfig) (name : String) :
    runMachine steps c name = (ending steps c).map fun r => { r with name } := by
  cases hm : Machine.new c with
  | error cause =>
    rw [ending, runMachine, runMachine, hm]
    rfl
  | ok m =>
    rw [ending, runMachine_of_ok hm, runMachine_of_ok hm]
    cases hcourse : course steps c "" m with
    | ok report m' =>
      rw [course_eq, Run.map_of_ok _ hcourse]
      rfl
    | error halt m' =>
      rw [course_eq, Run.map_of_error _ hcourse]
      rfl

namespace Batch

theorem run_succ (steps : Nat) (c : MachineConfig) (n : Nat) :
    run steps c (n + 1) = (run steps c n).add (machineName n)
      ((ending steps c).map fun r => { r with name := machineName n }) := by
  rw [run, List.range_succ, List.foldl_append, ← runMachine_eq_ending]
  rfl

theorem run_of_ok (h : ending steps c = .ok r) (n : Nat) :
    run steps c n = ⟨(List.range n).map fun i => { r with name := machineName i }, []⟩ := by
  induction n with
  | zero => rfl
  | succ n ih =>
    rw [run_succ, ih, h, List.range_succ, List.map_append]
    rfl

theorem run_of_refused {cause : Refusal} (h : ending steps c = .error (.fault (.refused cause)))
    (n : Nat) : run steps c n = ⟨[], (List.range n).map machineName⟩ := by
  induction n with
  | zero => rfl
  | succ n ih =>
    rw [run_succ, ih, h, List.range_succ, List.map_append]
    rfl

theorem run_of_violated (h : ending steps c = .error (.fault (.violated cause))) (n : Nat) :
    run steps c n = empty := by
  induction n with
  | zero => rfl
  | succ n ih =>
    rw [run_succ, ih, h]
    rfl

/-- Every machine has its report unless the exit code tells of a failure, and a machine that comes
to no report makes it do so. -/
structure Accounts (steps : Nat) (c : MachineConfig) (n : Nat) (b : Batch) : Prop where
  reported : b.exitCode = 0 → b.reports.length = n ∧
    ∀ i < n, (b.reports.map MachineReport.name).count (machineName i) = 1
  told : ∀ i < n, (∀ r, runMachine steps c (machineName i) ≠ .ok r) → b.exitCode = 1

theorem accounts_zero (steps : Nat) (c : MachineConfig) :
    (run steps c 0).Accounts steps c 0 where
  reported := by
    intro _
    exact ⟨rfl, fun i hi => absurd hi (Nat.not_lt_zero i)⟩
  told := fun i hi => absurd hi (Nat.not_lt_zero i)

theorem accounts_of_ok (h : ending steps c = .ok r) (n : Nat) :
    (run steps c n).Accounts steps c n := by
  constructor
  case reported =>
    intro _
    have hnames : (run steps c n).reports.map MachineReport.name =
        (List.range n).map machineName := by
      rw [run_of_ok h, List.map_map]
      rfl
    refine ⟨?_, ?_⟩
    · rw [run_of_ok h, List.length_map, List.length_range]
    · intro i hi
      rw [hnames, List.count_map_of_injective _ _ machineName_injective]
      exact List.count_eq_one_of_mem List.nodup_range (List.mem_range.mpr hi)
  case told =>
    intro i _ hnone
    refine absurd ?_ (hnone { r with name := machineName i })
    rw [runMachine_eq_ending, h]
    rfl

theorem accounts_of_refused {cause : Refusal} (h : ending steps c = .error (.fault (.refused cause)))
    (n : Nat) : (run steps c (n + 1)).Accounts steps c (n + 1) := by
  have hexit : (run steps c (n + 1)).exitCode = 1 := by
    rw [run_of_refused h, exitCode, List.range_succ_eq_map]
    rfl
  constructor
  case reported =>
    intro hzero
    rw [hexit] at hzero
    cases hzero
  case told => exact fun i _ _ => hexit

theorem not_accounts_of_violated (h : ending steps c = .error (.fault (.violated cause)))
    (n : Nat) : ¬ (run steps c (n + 1)).Accounts steps c (n + 1) := by
  intro haccounts
  obtain ⟨hreported, -⟩ := haccounts
  rw [run_of_violated h] at hreported
  obtain ⟨hlength, -⟩ := hreported rfl
  cases hlength

end Batch

theorem run_of_parse {readFile : String → Option String} {args : List String} {o : Options}
    (hargs : parse args = .ok (.run o)) (hc : o.machineConfig readFile = .ok c)
    (hparallel : o.parallel ≤ Options.parallelLimit) :
    run steps readFile args = .ran o.json (Batch.run steps c o.instances) := by
  rw [run, hargs]
  dsimp only
  rw [hc]
  exact if_neg (Nat.not_lt.mpr hparallel)

/-- A batch accounts for all its machines unless one of them breaks a contract. -/
theorem machines_lost_only_by_violation {readFile : String → Option String} {args : List String}
    {o : Options} (hargs : parse args = .ok (.run o)) (hc : o.machineConfig readFile = .ok c)
    (hparallel : o.parallel ≤ Options.parallelLimit)
    (hend : ∀ i < o.instances, runMachine steps c (machineName i) ≠ .error .starved) :
    ∃ b, run steps readFile args = .ran o.json b ∧
      (b.Accounts steps c o.instances ↔
        ∀ i < o.instances, ∀ cause,
          runMachine steps c (machineName i) ≠ .error (.fault (.violated cause))) := by
  refine ⟨Batch.run steps c o.instances, run_of_parse hargs hc hparallel, ?_⟩
  clear hargs
  -- all machines end alike, so that one end decides for the batch
  simp only [runMachine_eq_ending] at hend ⊢
  generalize o.instances = instances at hend ⊢
  cases instances with
  | zero =>
    exact iff_of_true (Batch.accounts_zero steps c) fun i hi => absurd hi (Nat.not_lt_zero i)
  | succ n =>
    cases h : ending steps c with
    | ok r =>
      refine iff_of_true (Batch.accounts_of_ok h (n + 1)) ?_
      intro i _ cause hi
      cases hi
    | error halt =>
      cases halt with
      | starved =>
        rw [h] at hend
        exact absurd rfl (hend 0 n.succ_pos)
      | fault cause =>
        cases cause with
        | refused cause =>
          refine iff_of_true (Batch.accounts_of_refused h n) ?_
          intro i _ cause hi
          cases hi
        | violated cause =>
          refine iff_of_false (Batch.not_accounts_of_violated h n) ?_
          intro hkept
          exact hkept 0 n.succ_pos cause rfl

private theorem eq_error_of_fault {α : Type} {x : Attempt α} {cause : Fault}
    (h : (match x with | .ok _ => none | .error cause => some cause) = some cause) :
    x = .error cause := by
  cases x with
  | ok a => cases h
  | error cause =>
    cases h
    rfl

theorem machines_lost_only_by_violation_two_machines :
    ∃ b, run 40 (fun _ => none) ["--run-msec", "1", "-n", "2"] = .ran false b ∧
      b.Accounts 40 { MachineConfig.default with runMsec := 1 } 2 := by
  have hargs : parse ["--run-msec", "1", "-n", "2"] =
      .ok (.run { Options.default with runMsec := some 1, instances := 2 }) := by
    decide +kernel
  have hc : ({ Options.default with runMsec := some 1, instances := 2 } : Options).machineConfig
      (fun _ => none) = .ok { MachineConfig.default with runMsec := 1 } := by
    apply eq_ok_of_toOption
    decide +kernel
  have hend : ∀ i < 2, (runMachine 40 { MachineConfig.default with runMsec := 1 }
      (machineName i)).toOption.isSome := by
    decide +kernel
  have hnot : ∀ halt, ∀ i < 2, runMachine 40 { MachineConfig.default with runMsec := 1 }
      (machineName i) ≠ .error halt := by
    intro halt i hi h
    have hsome := hend i hi
    rw [h] at hsome
    cases hsome
  obtain ⟨b, hrun, hiff⟩ :=
    machines_lost_only_by_violation hargs hc (by decide) (hnot _)
  exact ⟨b, hrun, hiff.mpr fun i hi cause => hnot _ i hi⟩

/-- A configuration whose batches of samples take longer than time can tell. -/
def wideBatch : String := "\x7b\"audio_batch\":18446744073709551615\x7d"

/-- The machine is never made, and the program succeeds without a report of it. -/
theorem machine_lost_with_wide_batch :
    ∃ o c, parse ["--config", "machine.json", "--json"] = .ok (.run o) ∧ o.instances = 1 ∧
      o.machineConfig (fun _ => some wideBatch) = .ok c ∧
      runMachine 1 c (machineName 0) = .error (.fault (.violated .instantOutOfRange)) ∧
      run 1 (fun _ => some wideBatch) ["--config", "machine.json", "--json"] =
        .ran true .empty ∧
      Batch.empty.exitCode = 0 ∧ ¬ Batch.empty.Accounts 1 c 1 := by
  have hargs : parse ["--config", "machine.json", "--json"] =
      .ok (.run { Options.default with config := some "machine.json", json := true }) := by
    decide +kernel
  have hc : ({ Options.default with config := some "machine.json", json := true } :
      Options).machineConfig (fun _ => some wideBatch) =
        .ok { MachineConfig.default with audioBatch := 18446744073709551615 } := by
    apply eq_ok_of_toOption
    decide +kernel
  have hnew : Machine.new { MachineConfig.default with audioBatch := 18446744073709551615 } =
      .error (.violated .instantOutOfRange) := by
    apply eq_error_of_fault
    decide +kernel
  have hend : ending 1 { MachineConfig.default with audioBatch := 18446744073709551615 } =
      .error (.fault (.violated .instantOutOfRange)) := by
    rw [ending, runMachine, hnew]
  have hlost := Batch.run_of_violated hend 1
  have hnot := Batch.not_accounts_of_violated hend 0
  rw [hlost] at hnot
  refine ⟨_, _, hargs, rfl, hc, ?_, ?_, rfl, hnot⟩
  · rw [runMachine_eq_ending, hend]
    rfl
  · rw [run_of_parse hargs hc (by decide)]
    exact congrArg (Outcome.ran true) hlost

end Command
end Timebase
