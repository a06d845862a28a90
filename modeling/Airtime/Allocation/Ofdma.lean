import Airtime.Allocation.Round

/-!
Allocation in time and frequency, for the downlink: the symbols are split among the beams in
proportion to the bytes they want to send, and inside a beam a unit is one resource block group over
all symbols of the beam. So users of a beam never share a group and beams never share a symbol.
-/

namespace Airtime

/-- The symbols of each beam, in proportion to the bytes its contenders want to send. -/
def splitSymbols (symbols : UInt32) (active : Contenders) : Except Fault BeamSymbols := do
  let weights ← active.entries.mapM fun (beam, cs) => do
    return (beam, ← Word.sum (cs.map fun c => c.backlog.toUInt64))
  apportion symbols weights

def grantGroup (symbols : UInt32) : Grantor := fun r => do
  return ⟨← Word.add r.rbg symbols, symbols⟩

def assignBeam (k : Contest) (p : Policy) (symbols groups : UInt32) (cs : List Contender) :
    Except Fault (List Contender) := do
  if symbols = 0 ∨ groups = 0 then return cs
  else
    let assignable : Resources := ⟨← Word.mul symbols groups, symbols⟩
    return (← k.run p (grantGroup symbols) assignable groups cs).1

/-- Assigns `symbols` symbols of a band of `groups` resource block groups. Also gives the symbols of
each beam. -/
def assignOfdma (link : LinkModel) (blocksPerGroup : UInt32) (p : Policy) (symbols groups : UInt32)
    (active : Contenders) : Except Fault (BeamSymbols × Contenders) := do
  let k : Contest := { direction := .downlink, link, blocksPerGroup }
  let split ← splitSymbols symbols active
  let (_, active) ← active.walk (fun () beam cs => do
    return ((), ← assignBeam k p ((split.get? beam).getD 0) groups cs)) ()
  return (split, active)

end Airtime
