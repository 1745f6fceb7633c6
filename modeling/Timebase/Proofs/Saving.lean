import Timebase.Scheduler.Saved
import Timebase.Proofs.Json.ReadBack
import Timebase.Proofs.Limits

/-!
# Saved schedulers

The text of a saved scheduler reads back as what was saved, and at every moment of every run a
scheduler can go on from it at the same time with nothing pending. The only instant it cannot go on
from is the one that is never reached. Time comes to stand there by the defect that is told at
`Scheduler.setCurrentTime`: calls to move it there are not turned away.
-/

namespace Timebase

open Json (Input EndsNumber renderText)

variable {σ α : Type} {w w₀ : World σ}

theorem Instant.decoder_scan (t : Instant) {rest : Input} (h : EndsNumber rest) :
    decoder.scan (Nat.toDigits 10 t.ticks ++ rest) = .ok (t, rest) := by
  have hread := Json.Decoder.natural_scan "u64" t.ticks_lt t.ticks_lt h
  have hwrap : wrap t.ticks = t := ext (wrap_ticks t.ticks_lt)
  rw [decoder, Json.Decoder.map_scan_of_ok hread, hwrap]

namespace Saved

theorem toList_text (s : Saved) :
    s.text.toList = '\x7b' :: ((renderText "current_time").toList ++
      ':' :: (Nat.toDigits 10 s.currentTime.ticks ++ ['\x7d'])) := by
  simp [text, toJson, Json.Value.compact, Json.compactEntries, Json.renderNumber,
    Json.Number.render]

/-- The text of what was saved reads back. -/
theorem ofText_text (s : Saved) : decoder.ofText s.text = .ok s := by
  have hend : EndsNumber ['\x7d'] := by simp [EndsNumber, Json.isExponentMark]
  have htime := s.currentTime.decoder_scan hend
  have hscan : decoder.scan s.text.toList = .ok (s, []) := by
    rw [toList_text, decoder]
    refine Json.Decoder.Record.scan_single
      (f := Json.Decoder.field "current_time" Instant.decoder fun t s => { s with currentTime := t })
      ?_
      (Json.Decoder.map_scan_of_ok htime) ?_
    · rfl
    · rfl
  rw [Json.Decoder.ofText, hscan]
  rfl

end Saved

namespace Scheduler

variable {s : Scheduler} {t : Instant} {saved : Saved}

/-- A scheduler that has just come about: a new one, or one that goes on from a saved one. -/
inductive Fresh : Scheduler → Prop where
  | new : Fresh .new
  | restored {saved : Saved} {s : Scheduler} (h : restore saved = .ok s) : Fresh s

theorem restore_eq_ok :
    restore saved = .ok s ↔
      (saved.currentTime ≠ .asap ∧ saved.currentTime ≠ .never) ∧ s = start saved.currentTime := by
  rw [← Instant.isFinite_iff, restore]
  cases saved.currentTime.isFinite with
  | true => exact ⟨fun h => ⟨rfl, (Except.ok.inj h).symm⟩, fun h => congrArg _ h.2.symm⟩
  | false => exact ⟨fun h => (by cases h), fun h => (by cases h.1)⟩

theorem Fresh.eq_start (h : Fresh s) : ∃ t, t ≠ .asap ∧ t ≠ .never ∧ s = start t := by
  cases h with
  | new => exact ⟨.zero, by decide, by decide, rfl⟩
  | @restored saved _ h =>
    obtain ⟨⟨hasap, hnever⟩, rfl⟩ := restore_eq_ok.mp h
    exact ⟨saved.currentTime, hasap, hnever, rfl⟩

/-- A scheduler goes on as another one that is made from its saved text, at the same time and with
nothing pending. -/
structure GoesOnAs (s s' : Scheduler) : Prop where
  restored : ∃ saved, Saved.decoder.ofText s.save.text = .ok saved ∧ restore saved = .ok s'
  currentTime : s'.currentTime = s.currentTime
  queue : s'.queue = []
  next : s'.next = .never

theorem goesOnAs_start (hasap : s.currentTime ≠ .asap) (hnever : s.currentTime ≠ .never) :
    s.GoesOnAs (start s.currentTime) where
  restored := ⟨s.save, s.save.ofText_text, restore_eq_ok.mpr ⟨⟨hasap, hnever⟩, rfl⟩⟩
  currentTime := rfl
  queue := rfl
  next := (Sound.start _).next_of_nil rfl

theorem GoesOnAs.ne_never {s' : Scheduler} (h : s.GoesOnAs s') : s.currentTime ≠ .never := by
  obtain ⟨saved, hread, hrestore⟩ := h.restored
  have hsaved : s.save = saved := Except.ok.inj (s.save.ofText_text.symm.trans hread)
  rw [← hsaved] at hrestore
  exact (restore_eq_ok.mp hrestore).1.2

end Scheduler

/-- At every moment of every run a scheduler goes on from its saved text unless time stands at the
instant never reached, which is refused. Time comes to stand there only if a call moves or sets it
there. -/
theorem schedulers_go_on (h₀ : w₀.scheduler.Fresh) (p : Program σ α) :
    (∀ w ∈ p.worlds w₀,
      (w.scheduler.currentTime ≠ .never → ∃ s, w.scheduler.GoesOnAs s) ∧
      (w.scheduler.currentTime = .never →
        ∃ saved, Saved.decoder.ofText w.scheduler.save.text = .ok saved ∧
          Scheduler.restore saved = Attempt.refuseTime (.invalidTime .never))) ∧
    (p.MovesBefore .never → ∀ w ∈ p.worlds w₀, w.scheduler.currentTime ≠ .never) := by
  obtain ⟨t, hasap, hnever, hstart⟩ := h₀.eq_start
  refine ⟨?_, ?_⟩
  · intro w hw
    have htimed := Program.worlds_timed hstart hasap hw
    refine ⟨fun h => ⟨_, Scheduler.goesOnAs_start htimed h⟩, ?_⟩
    intro h
    refine ⟨w.scheduler.save, w.scheduler.save.ofText_text, ?_⟩
    rw [Scheduler.restore, Scheduler.save, h]
    rfl
  · intro hp w hw
    have hbefore : w₀.scheduler.currentTime < .never := by
      rw [hstart]
      exact Instant.lt_never_iff.mpr hnever
    exact Instant.lt_never_iff.mp (hp.worlds_lt hbefore hw)

/-- A wake-up that sets the time further than it was called for and then breaks off. -/
def overrunning : Reaction Unit := fun _ _ _ =>
  .andThen (.setCurrentTime 0 (.wrap 230)) fun _ => .halt (.fault (.violated .deviceFailure))

def overrun : Program Unit Unit :=
  .andThen (.enroll true) fun device =>
    .andThen (.register (.wrap 120) device 0) fun _ =>
      .andThen (.register (.wrap 150) device 1) fun _ => .schedule overrunning 3 0 (.wrap 200)

theorem schedulers_go_on_overrun :
    (Scheduler.start (.wrap 100)).Fresh ∧ overrun.MovesBefore .never ∧
      (overrun.after (.ofScheduler (.start (.wrap 100)) ())).scheduler.queue.length = 1 ∧
      (overrun.after (.ofScheduler (.start (.wrap 100)) ())).scheduler.save.text =
        "\x7b\"current_time\":230\x7d" ∧
      ∃ s, (overrun.after (.ofScheduler (.start (.wrap 100)) ())).scheduler.GoesOnAs s := by
  have h₀ : (World.ofScheduler (.start (.wrap 100)) () : World Unit).scheduler.Fresh :=
    .restored (show Scheduler.restore ⟨.wrap 100⟩ = .ok (.start (.wrap 100)) from rfl)
  have hmoves : overrun.MovesBefore .never := by
    refine ⟨trivial, fun _ => ⟨trivial, fun _ => ⟨trivial, fun _ => ?_⟩⟩⟩
    refine ⟨by decide, fun _ _ _ _ => ⟨?_, fun _ => trivial⟩⟩
    show (Instant.wrap 230) < .never
    decide
  have h := schedulers_go_on h₀ overrun
  have hafter := overrun.after_mem_worlds (.ofScheduler (.start (.wrap 100)) ())
  exact ⟨h₀, hmoves, by decide, by decide, (h.1 _ hafter).1 (h.2 hmoves _ hafter)⟩

/-- Time is moved to the instant never reached, which is accepted. -/
def toTheEnd : Program Unit Unit := .schedule (fun _ _ _ => .done ()) 1 0 .never

/-- A scheduler that stands at the instant never reached does not go on. -/
theorem scheduler_lost_at_never :
    ¬ ∀ (p : Program Unit Unit), ∀ w ∈ p.worlds (.ofScheduler .new ()),
      ∃ s, w.scheduler.GoesOnAs s := by
  intro h
  obtain ⟨s, hs⟩ := h toTheEnd _ (toTheEnd.after_mem_worlds _)
  have hnever : (toTheEnd.after (.ofScheduler .new ())).scheduler.currentTime = .never := by decide
  exact hs.ne_never hnever

end Timebase
