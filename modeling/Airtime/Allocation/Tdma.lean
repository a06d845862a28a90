import Airtime.Allocation.Round

/-!
Allocation in time: a unit is one symbol over the whole band, and the contenders of all beams
compete for it.
-/

namespace Airtime

def grantSymbol (groups : UInt32) : Grantor := fun r => do
  return ⟨← Word.add r.rbg groups, ← Word.add r.sym 1⟩

/-- Assigns `symbols` symbols of a band of `groups` resource block groups. Also gives the symbols
that each beam won. -/
def assignTdma (k : Contest) (p : Policy) (symbols groups : UInt32) (active : Contenders) :
    Except Fault (BeamSymbols × Contenders) := do
  if active.flat.isEmpty || symbols == 0 || groups == 0 then return (∅, active)
  else
    let assignable : Resources := ⟨← Word.mul groups symbols, symbols⟩
    let (cs, won) ← k.run p (grantSymbol groups) assignable symbols active.flat
    return (won, active.refill cs)

end Airtime
