import Airtime.Scenario.Basic
import Airtime.Simulator.Chance
import Airtime.Simulator.Collect

/-!
The sidelink side of a simulation: traffic towards each destination, a scheduler that is offered
random candidates, and blocks that all arrive one slot later.
-/

namespace Airtime

structure SidelinkCounters where
  bytes : UInt64 := 0
  blocks : UInt64 := 0
  transmissions : UInt64 := 0
  missed : UInt64 := 0
  deriving DecidableEq, Repr

structure Queue where
  rate : UInt32
  waiting : UInt32 := 0
  deriving DecidableEq, Repr

namespace Queue

/-- One slot's bytes arrive; the queue stops at the largest word. -/
def arrive (q : Queue) : Queue := { q with waiting := Word.addSat q.waiting q.rate }

def remove (q : Queue) (bytes : UInt32) : Queue := { q with waiting := Word.subSat q.waiting bytes }

end Queue

structure SidelinkFlow where
  channel : ChannelId
  queue : Queue
  deriving DecidableEq, Repr

structure SidelinkTraffic where
  setup : SidelinkSetup
  scheduler : Sidelink
  flows : Table DestinationId SidelinkFlow
  pending : List (DestinationId × ProcessId)
  counters : Table DestinationId SidelinkCounters

namespace SidelinkTraffic

/-- Sets up the channel of a destination. A later setup of the destination takes over its traffic. -/
def connect (t : SidelinkTraffic) (d : DestinationSetup) :
    Except Refusal (SidelinkTraffic × Option Confirmation) := do
  let (scheduler, confirmation) ← accepted <| t.scheduler.configureChannel {
    destination := d.destination, channel := d.channel, group := d.group, priority := 1
    delayBudget := 20, repeated := d.repeated }
  let scheduler ← match d.cqi with
    | some cqi => Prod.fst <$> accepted (scheduler.reportQuality d.destination cqi)
    | none => pure scheduler
  let t := { t with
    scheduler
    flows := t.flows.insert d.destination ⟨d.channel, ⟨d.rate, 0⟩⟩
    counters := t.counters.insert d.destination {} }
  return (t, confirmation)

def start (setup : SidelinkSetup) (link : LinkModel) :
    List (Option Confirmation) × Except Refusal SidelinkTraffic :=
  match Sidelink.create setup.scheduler link true with
  | .error e => ([], .error e)
  | .ok scheduler => collect connect ⟨setup, scheduler, ∅, [], ∅⟩ setup.destinations

def counterOf (t : SidelinkTraffic) (id : DestinationId) : SidelinkCounters :=
  (t.counters.get? id).getD {}

def count (t : SidelinkTraffic) (id : DestinationId) (c : SidelinkCounters) : SidelinkTraffic :=
  { t with counters := t.counters.insert id c }

def acknowledge (t : SidelinkTraffic) (block : DestinationId × ProcessId) :
    Except Failure SidelinkTraffic := do
  let (id, process) := block
  let packets ← t.scheduler.packets id process
  let c := t.counterOf id
  let bytes ← Word.add c.bytes (UInt64.ofNat packets.flatten.length)
  let (scheduler, _) ← accepted (t.scheduler.feedback id process)
  return { t with scheduler }.count id { c with bytes }

def deliver (t : SidelinkTraffic) : Except Failure SidelinkTraffic :=
  t.pending.foldlM acknowledge { t with pending := [] }

def fillQueues (t : SidelinkTraffic) : Except Failure SidelinkTraffic := do
  let report (s : Sidelink) (id : DestinationId) (f : SidelinkFlow) :
      Except Failure (Sidelink × SidelinkFlow) := do
    let f := { f with queue := f.queue.arrive }
    let (s, _) ← accepted (s.reportBuffer (.newData id f.channel f.queue.waiting))
    return (s, f)
  let (scheduler, flows) ← t.flows.walk report t.scheduler
  return { t with scheduler, flows }

def pool (t : SidelinkTraffic) : UInt16 := max t.setup.subchannels 1

/-- The candidates of one allocation: a range up to the end of the pool in each of the next slots. -/
def candidates (t : SidelinkTraffic) (chance : Chance) (drawn : Nat) (time : SlotTime) :
    Except Fault (List Candidate) :=
  (List.range t.setup.candidates.toNat).mapM fun k => do
    let start := chance.below (drawn + k) t.pool
    return {
      time := ← time.later (UInt64.ofNat (k + 1))
      start
      subchannels := t.pool - start
      symbols := t.setup.symbols }

/-- A granted block takes its bytes from the queue, and its process holds them until they arrive. -/
def send (t : SidelinkTraffic) (id : DestinationId) (first : Grant) (transmissions : Nat) :
    Except Failure SidelinkTraffic := do
  let store (s : Sidelink) (p : Pdu) : Except Refusal Sidelink :=
    Prod.fst <$> accepted
      (s.addPacket id p.channel first.process (List.replicate p.size.toNat 0))
  let scheduler ← (first.content.foldlM store t.scheduler : Except Refusal Sidelink)
  let sent : UInt32 ← Word.sum (first.content.map Pdu.size)
  let flows := match t.flows.get? id with
    | some f => t.flows.insert id { f with queue := f.queue.remove sent }
    | none => t.flows
  let c := t.counterOf id
  let c := { c with
    blocks := ← Word.add c.blocks 1
    transmissions := ← Word.add c.transmissions (UInt64.ofNat transmissions) }
  return { t with scheduler, flows, pending := t.pending ++ [(id, first.process)] }.count id c

def allocate (chance : Chance) (time : SlotTime) (state : SidelinkTraffic × Nat)
    (id : DestinationId) : Except Failure (SidelinkTraffic × Nat) := do
  let (t, drawn) := state
  let offered ← t.candidates chance drawn time
  let (scheduler, grants) ← accepted (← t.scheduler.trigger id offered)
  let t := { t with scheduler }
  let t ← match grants with
    | none => do
      let c := t.counterOf id
      pure (t.count id { c with missed := ← Word.add c.missed 1 })
    | some [] => pure t
    | some (first :: rest) => t.send id first (rest.length + 1)
  return (t, drawn + offered.length)

def isDue (t : SidelinkTraffic) (time : SlotTime) : Except Fault Bool := do
  return (← time.count).toNat % max t.setup.period.toNat 1 = 0

/-- One slot: the queues grow, and when it is time each destination in turn asks for an allocation.
Also gives the number of draws so far. -/
def step (chance : Chance) (drawn : Nat) (time : SlotTime) (t : SidelinkTraffic) :
    Except Failure (SidelinkTraffic × Nat) := do
  let t ← t.fillQueues
  if ← t.isDue time then t.flows.keys.foldlM (allocate chance time) (t, drawn)
  else return (t, drawn)

end SidelinkTraffic

end Airtime
