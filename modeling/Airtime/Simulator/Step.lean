import Airtime.Simulator.State

/-!
One slot of a simulation. The feedback of the slot before comes first, then new bytes arrive and are
reported, then the slot is scheduled and each of its blocks is sent. The sidelink comes last.
-/

namespace Airtime

namespace Simulator

def counterOf (s : Simulator) (rnti : Rnti) : Counters := (s.counters.get? rnti).getD {}

def count (s : Simulator) (rnti : Rnti) (c : Counters) : Simulator :=
  { s with counters := s.counters.insert rnti c }

def deliverOne (s : Simulator) (a : Awaited) : Except Failure Simulator := do
  let f := a.feedback
  let (cell, _) ← accepted (s.cell.feedback f)
  let c := s.counterOf f.rnti
  let c ← if f.success then c.arrived f.direction a.blockSize else c.lost
  return { s with cell }.count f.rnti c

/-- Delivers all feedback that is due, the sidelink's last. -/
def deliver (s : Simulator) : Except Failure Simulator := do
  let s ← s.pending.foldlM deliverOne { s with pending := [] }
  match s.sidelink with
  | none => return s
  | some t => return { s with sidelink := some (← t.deliver) }

def fillQueues (s : Simulator) : Except Failure Simulator := do
  let report (c : Cell) (rnti : Rnti) (f : Flow) : Except Failure (Cell × Flow) := do
    let f := { f with downlink := f.downlink.arrive, uplink := f.uplink.arrive }
    let (c, _) ← accepted (c.reportBuffer (.newData rnti f.channel f.downlink.waiting))
    let (c, _) ← accepted (c.reportGroup ⟨rnti, f.group, f.uplink.waiting⟩)
    return (c, f)
  let (cell, flows) ← s.flows.walk report s.cell
  return { s with cell, flows }

/-- Sends one block. A new one takes its bytes from the queue; whether it arrives is drawn. -/
def transmit (chance : Chance) (s : Simulator) (a : Assignment) : Except Failure Simulator := do
  let c ← (s.counterOf a.rnti).sent a.newData
  let flows := match a.newData, s.flows.get? a.rnti with
    | true, some f => s.flows.insert a.rnti (f.modify a.direction (·.remove a.blockSize))
    | _, _ => s.flows
  let success : Bool := s.errorRate ≤ chance.unit s.drawn
  let awaited : Awaited := ⟨⟨a.rnti, a.process, a.direction, success⟩, a.blockSize⟩
  let s := { s with flows, pending := s.pending ++ [awaited], drawn := s.drawn + 1 }
  return s.count a.rnti c

def stepCell (chance : Chance) (s : Simulator) : Except Failure (Simulator × SlotAllocation) := do
  let s ← s.deliver
  let s ← s.fillQueues
  let (cell, a) ← s.cell.scheduleSlot s.time
  let s ← (a.downlink ++ a.uplink).foldlM (transmit chance) { s with cell }
  return (s, a)

/-- The sidelink's part of a slot, after which the next slot is due. -/
def stepSidelink (chance : Chance) (s : Simulator) : Except Failure Simulator := do
  let s ← match s.sidelink with
    | none => pure s
    | some t => do
      let (t, drawn) ← t.step chance s.drawn s.time
      pure { s with sidelink := some t, drawn }
  return { s with time := ← s.time.next }

def step (chance : Chance) (s : Simulator) : Except Failure (Simulator × SlotAllocation) := do
  let (s, a) ← s.stepCell chance
  return (← s.stepSidelink chance, a)

def run (chance : Chance) : Nat → Simulator → Except Failure (Simulator × List SlotAllocation)
  | 0, s => .ok (s, [])
  | n + 1, s => do
    let (s, a) ← s.step chance
    let (s, as) ← run chance n s
    return (s, a :: as)

end Simulator

end Airtime
