import Timebase.Device.Guarded
import Timebase.Clock.Converter
import Timebase.Time.Arithmetic
import Timebase.Time.Word
/-!
# Audio sampler

Sound output in batches: the elapsed master ticks become samples, and fractions of a sample are
carried on.
-/

namespace Timebase

structure AudioSampler where
  converter : RateConverter
  /-- Up to here samples are accounted for. -/
  last : Instant
  samples : Nat

/-- What a sampler never changes. -/
structure AudioFormat where
  rate : Nat
  batchPeriod : Span

namespace AudioFormat

def batchEnd : Nat := 0

/-- A format whose batch lasts a whole number of truncated sample periods; the batch size is taken
as a signed 64-bit number. -/
def new (rate batch : Nat) : Attempt AudioFormat := do
  let period ← Span.periodChecked rate
  return ⟨rate, ← period.multiplyChecked (Int.bmod batch UInt64.size)⟩

/-- The end of the batch that begins at an instant. -/
def endOfBatch (f : AudioFormat) (t : Instant) : Attempt Request := do
  return ⟨← t.add f.batchPeriod, batchEnd⟩

end AudioFormat

namespace AudioSampler

def label : String := "audio"

def new (now : Instant) (rate : Nat) : Attempt AudioSampler := do
  return ⟨← RateConverter.ofMaster rate, now, 0⟩

/-- Accounts for the samples up to an instant. -/
def update (time : Instant) : Run AudioSampler Unit := do
  let last := (← get).last
  unless time ≤ last do
    let elapsed ← time.since last
    let (count, converter) ← Run.read fun a => a.converter.convertSpan elapsed
    modify fun a => { a with converter }
    Run.update fun a => return { a with samples := (← Word.add a.samples count) }
    modify fun a => { a with last := time }

end AudioSampler
end Timebase
