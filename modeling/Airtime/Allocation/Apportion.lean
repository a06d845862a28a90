import Airtime.Identity

/-!
Symbols split among beams in proportion to their weights, by largest remainders: each beam gets the
floor of its exact share, and what is left goes one by one to the largest fractions.
-/

namespace Airtime

abbrev BeamSymbols := Table BeamId UInt32

def BeamSymbols.give (t : BeamSymbols) (beam : BeamId) (n : UInt32) : Except Fault BeamSymbols := do
  return t.insert beam (← Word.add ((t.get? beam).getD 0) n)

/-- The exact share of a beam, split into a whole part and a fraction of the total weight. -/
structure Quota where
  beam : BeamId
  weight : UInt64
  floor : UInt32
  remainder : UInt64

def Quota.before (a b : Quota) : Bool :=
  b.remainder < a.remainder || (a.remainder == b.remainder && a.beam.value ≤ b.beam.value)

/-- Every beam that is listed gets an entry; beams of weight zero get nothing. -/
def apportion (total : UInt32) (weights : List (BeamId × UInt64)) : Except Fault BeamSymbols := do
  let sum ← Word.sum (weights.map Prod.snd)
  let nothing : BeamSymbols := .ofList (weights.map fun w => (w.1, 0))
  if sum = 0 ∨ total = 0 then return nothing
  else
    let quotas ← weights.mapM fun (beam, weight) => do
      let exact ← Word.mul total.toUInt64 weight
      let floor ← Word.div exact sum
      return { beam, weight, floor := floor.toUInt32, remainder := ← Word.mod exact sum : Quota }
    let spare ← Word.sub total (← Word.sum (quotas.map Quota.floor))
    let floors ← quotas.foldlM (fun t q => t.give q.beam q.floor) nothing
    let ranked := (quotas.filter fun q => q.weight != 0).mergeSort Quota.before
    (ranked.take spare.toNat).foldlM (fun t q => t.give q.beam 1) floors

end Airtime
