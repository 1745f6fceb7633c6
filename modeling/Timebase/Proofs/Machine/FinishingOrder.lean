import Timebase.Proofs.Machine.Loss
import Timebase.Proofs.Text.Octets

/-!
# The order in which machines finish

Machines that run side by side hand in their reports in any order. The text of a run has the reports
in the order of the octets of their names, and there is one such order as long as names differ; so
what stands below the first line does not tell which machine was done first.
-/

namespace Timebase

variable {s t : String} {outcome : Nat → Except Halt MachineReport} {order order' : List Nat}
  {reports sorted sorted' : List MachineReport} {r r' : RunReport}

/-- What stands below the first line of a text. -/
def belowFirstLine (s : String) : String :=
  String.ofList (s.toList.dropWhile (· ≠ '\n')).tail

/-- Text without a break in it. -/
def OneLine (s : String) : Prop := ∀ c ∈ s.toList, c ≠ '\n'

theorem OneLine.append (hs : OneLine s) (ht : OneLine t) : OneLine (s ++ t) := by
  intro c hc
  rw [String.toList_append, List.mem_append] at hc
  exact hc.elim (hs c) (ht c)

theorem belowFirstLine_append (h : OneLine s) (t : String) :
    belowFirstLine (s ++ "\n" ++ t) = t := by
  have hbefore : ∀ c ∈ s.toList, decide (c ≠ '\n') = true := fun c hc => decide_eq_true (h c hc)
  have hbreak : "\n".toList = ['\n'] := rfl
  rw [belowFirstLine, String.toList_append, String.toList_append, List.append_assoc,
    List.dropWhile_append_of_pos hbefore, hbreak, List.singleton_append,
    List.dropWhile_cons_of_neg (by decide), List.tail_cons, String.ofList_toList]

namespace WallTime

theorem oneLine_padded (width n : Nat) : OneLine (padded width n) := by
  intro c hc
  rw [padded, String.toList_append, String.toList_ofList, List.mem_append] at hc
  rcases hc with hzero | hdigit
  · rw [List.eq_of_mem_replicate hzero]
    decide
  · rw [Nat.toString_eq_ofList_toDigits, String.toList_ofList] at hdigit
    rintro rfl
    exact absurd (Nat.isDigit_of_mem_toDigits (by decide) (by decide) hdigit) (by decide)

theorem oneLine_yearSign (year : Int) : OneLine (yearSign year) := by
  rw [yearSign]
  split_ifs <;> simp [OneLine]

theorem oneLine_text (w : WallTime) : OneLine w.text := by
  have hdash : OneLine "-" := by simp [OneLine]
  have hcolon : OneLine ":" := by simp [OneLine]
  have hspace : OneLine " " := by simp [OneLine]
  have hyear := (oneLine_yearSign w.year).append (oneLine_padded 4 w.year.natAbs)
  have hdate : OneLine w.dateText :=
    (((hyear.append hdash).append (oneLine_padded 2 _)).append hdash).append (oneLine_padded 2 _)
  have hclock : OneLine w.clockText :=
    ((((oneLine_padded 2 _).append hcolon).append (oneLine_padded 2 _)).append hcolon).append
      (oneLine_padded 2 _)
  exact (hdate.append hspace).append hclock

end WallTime

theorem RunReport.belowFirstLine_text (r : RunReport) :
    belowFirstLine r.text = MachineReport.textOf r.machines := by
  have hstarted : OneLine "Run started " := by simp [OneLine]
  exact belowFirstLine_append (hstarted.append r.started.oneLine_text) _

namespace MachineReport

/-- The octets of the name come first. -/
def Precedes (a b : MachineReport) : Prop := Text.toOctets a.name < Text.toOctets b.name

/-- The reports, each of them once, in the order of their names. -/
structure Arranged (reports sorted : List MachineReport) : Prop where
  perm : sorted.Perm reports
  increasing : sorted.Pairwise Precedes

theorem Arranged.of_perm {reports' : List MachineReport} (h : Arranged reports sorted)
    (hperm : reports.Perm reports') : Arranged reports' sorted :=
  ⟨h.perm.trans hperm, h.increasing⟩

theorem Arranged.unique (h : Arranged reports sorted) (h' : Arranged reports sorted') :
    sorted = sorted' := by
  refine List.Perm.eq_of_pairwise ?_ h.increasing h'.increasing (h.perm.trans h'.perm.symm)
  intro a b _ _ hab hba
  exact absurd hba (List.lt_asymm hab)

theorem sort_perm (reports : List MachineReport) : (sort reports).Perm reports :=
  List.mergeSort_perm _ _

theorem sort_increasing (reports : List MachineReport) :
    (sort reports).Pairwise fun a b => a.name ≤ b.name := by
  have hsorted : (sort reports).Pairwise fun a b => decide (a.name ≤ b.name) = true := by
    refine List.pairwise_mergeSort ?_ ?_ reports
    · intro a b c hab hbc
      exact decide_eq_true (String.le_trans (of_decide_eq_true hab) (of_decide_eq_true hbc))
    · intro a b
      rw [Bool.or_eq_true, decide_eq_true_iff, decide_eq_true_iff]
      exact String.le_total a.name b.name
  exact hsorted.imp of_decide_eq_true

theorem arranged_sort (hnames : (reports.map name).Nodup) : Arranged reports (sort reports) where
  perm := sort_perm reports
  increasing := by
    have hdistinct : ((sort reports).map name).Nodup :=
      ((sort_perm reports).map name).nodup_iff.mpr hnames
    -- equal names would stay in the order the reports came in
    refine (sort_increasing reports).imp₂ ?_ (List.pairwise_map.mp hdistinct)
    intro a b hle hne
    exact Text.toOctets_lt (lt_of_le_of_ne hle hne)

theorem sort_eq_of_perm {reports' : List MachineReport} (hnames : (reports.map name).Nodup)
    (hperm : reports'.Perm reports) : sort reports' = sort reports := by
  have hnames' : (reports'.map name).Nodup := (hperm.map name).nodup_iff.mpr hnames
  exact ((arranged_sort hnames').of_perm hperm).unique (arranged_sort hnames)

end MachineReport

open MachineReport

theorem RunReport.belowFirstLine_of_perm (hnames : (r.machines.map MachineReport.name).Nodup)
    (hperm : r'.machines.Perm r.machines) : belowFirstLine r'.text = belowFirstLine r.text := by
  rw [r.belowFirstLine_text, r'.belowFirstLine_text, textOf, textOf, sort_eq_of_perm hnames hperm]

/-- Reports with different names have one arrangement, and whatever order they come in, that is what
stands below the first line. -/
theorem RunReport.finishing_order_leaves_no_trace
    (hnames : (r.machines.map MachineReport.name).Nodup) (hperm : r'.machines.Perm r.machines) :
    belowFirstLine r'.text = belowFirstLine r.text ∧
      ∃ sorted, (∀ reports, Arranged r.machines reports ↔ reports = sorted) ∧
        belowFirstLine r.text = "\n".intercalate (sorted.map MachineReport.text) := by
  have hsort := arranged_sort hnames
  refine ⟨belowFirstLine_of_perm hnames hperm, sort r.machines, fun reports => ⟨?_, ?_⟩, ?_⟩
  · exact fun h => h.unique hsort
  · rintro rfl
    exact hsort
  · rw [r.belowFirstLine_text, textOf]

/-- A report of a machine that has done nothing. -/
def MachineReport.ofNothing (name : String) : MachineReport :=
  ⟨name, 0, 0, 0, 0, 0, 0, "", 0, 0, 0, 0, []⟩

def morningRun : RunReport where
  started := ⟨2024, 2, 29, 9, 5, 0⟩
  machines := [ofNothing "machine-2", ofNothing "machine-10", ofNothing "machine-1"]

def eveningRun : RunReport where
  started := ⟨2024, 2, 29, 21, 30, 59⟩
  machines := [ofNothing "machine-10", ofNothing "machine-1", ofNothing "machine-2"]

/-- Names are not read as numbers: the tenth machine comes before the second. -/
theorem RunReport.finishing_order_leaves_no_trace_three :
    (morningRun.machines.map MachineReport.name).Nodup ∧
      eveningRun.machines.Perm morningRun.machines ∧
      belowFirstLine eveningRun.text = belowFirstLine morningRun.text ∧
      belowFirstLine morningRun.text = "\n".intercalate [(ofNothing "machine-1").text,
        (ofNothing "machine-10").text, (ofNothing "machine-2").text] := by
  have hnames : (morningRun.machines.map MachineReport.name).Nodup := by decide +kernel
  have hperm : eveningRun.machines.Perm morningRun.machines := by
    change ([_, _] ++ [_] : List MachineReport).Perm ([_] ++ [_, _])
    exact List.perm_append_comm
  have harranged : Arranged morningRun.machines
      [ofNothing "machine-1", ofNothing "machine-10", ofNothing "machine-2"] := by
    refine ⟨List.reverse_perm morningRun.machines, ?_⟩
    have htenth : Precedes (ofNothing "machine-1") (ofNothing "machine-10") :=
      Text.toOctets_lt (by decide +kernel)
    have hsecond : Precedes (ofNothing "machine-10") (ofNothing "machine-2") :=
      Text.toOctets_lt (by decide +kernel)
    have hlast : Precedes (ofNothing "machine-1") (ofNothing "machine-2") :=
      List.lt_trans htenth hsecond
    simp [htenth, hsecond, hlast]
  obtain ⟨hsame, sorted, hsorted, htext⟩ :=
    RunReport.finishing_order_leaves_no_trace hnames hperm
  rw [← (hsorted _).mp harranged] at htext
  exact ⟨hnames, hperm, hsame, htext⟩

namespace Command.Batch

/-- A machine of a batch, and what the clock on the wall says it has taken. -/
def timed (steps : Nat) (c : MachineConfig) (seconds : Nat → Float) (i : Nat) :
    Except Halt MachineReport :=
  (runMachine steps c (machineName i)).map fun r => { r with wallSecs := seconds i }

/-- What a batch comes to when its machines finish in some order. -/
def finished (outcome : Nat → Except Halt MachineReport) (order : List Nat) : Batch :=
  order.foldl (fun b i => b.add (machineName i) (outcome i)) empty

theorem reports_add (b : Batch) (name : String) (x : Except Halt MachineReport) :
    (b.add name x).reports = b.reports ++ x.toOption.toList := by
  cases x with
  | ok report => rfl
  | error halt =>
    rw [Except.toOption, Option.toList_none, List.append_nil]
    rcases halt with (_ | _) | _ <;> rfl

theorem reports_finished (outcome : Nat → Except Halt MachineReport) (order : List Nat) :
    (finished outcome order).reports = order.filterMap fun i => (outcome i).toOption := by
  induction order using List.reverseRecOn with
  | nil => rfl
  | append_singleton order i ih =>
    rw [finished, List.foldl_append, List.foldl_cons, List.foldl_nil, reports_add, ← finished, ih,
      List.filterMap_append]
    cases hout : (outcome i).toOption <;> simp [hout]

theorem name_of_timed {steps i : Nat} {c : MachineConfig} {seconds : Nat → Float}
    {report : MachineReport} (h : (timed steps c seconds i).toOption = some report) :
    report.name = machineName i := by
  rw [timed, runMachine_eq_ending] at h
  cases hending : ending steps c with
  | error halt =>
    rw [hending] at h
    cases h
  | ok report =>
    rw [hending] at h
    cases h
    rfl

theorem nodup_names_finished (steps : Nat) (c : MachineConfig) (seconds : Nat → Float)
    (hnodup : order.Nodup) :
    ((finished (timed steps c seconds) order).reports.map MachineReport.name).Nodup := by
  rw [reports_finished, List.map_filterMap]
  refine hnodup.filterMap ?_
  intro i j name hi hj
  obtain ⟨report, hreport, rfl⟩ := Option.map_eq_some_iff.mp hi
  obtain ⟨report', hreport', hsame⟩ := Option.map_eq_some_iff.mp hj
  rw [name_of_timed hreport, name_of_timed hreport'] at hsame
  exact machineName_injective hsame.symm

/-- The report of a batch whose machines finish in some order. -/
def report (steps : Nat) (c : MachineConfig) (seconds : Nat → Float) (started : WallTime)
    (order : List Nat) : RunReport :=
  ⟨started, (finished (timed steps c seconds) order).reports⟩

theorem text_of_finished (steps : Nat) (c : MachineConfig) (seconds : Nat → Float)
    (started started' : WallTime) (hperm : order'.Perm order) (hnodup : order.Nodup) :
    belowFirstLine (report steps c seconds started' order').text =
      belowFirstLine (report steps c seconds started order).text := by
  refine RunReport.belowFirstLine_of_perm (nodup_names_finished steps c seconds hnodup) ?_
  rw [report, report, reports_finished, reports_finished]
  exact hperm.filterMap _

end Command.Batch
end Timebase
