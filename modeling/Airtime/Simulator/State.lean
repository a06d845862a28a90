import Airtime.Cell.Slot
import Airtime.Simulator.SidelinkTraffic

/-!
A simulated cell: its scheduler, the traffic of its users, the blocks whose feedback is due in the next
slot, and what was counted so far.
-/

namespace Airtime

structure Counters where
  downlinkBytes : UInt64 := 0
  uplinkBytes : UInt64 := 0
  newBlocks : UInt64 := 0
  resent : UInt64 := 0
  losses : UInt64 := 0
  deriving DecidableEq, Repr

namespace Counters

def arrived (c : Counters) (d : Direction) (bytes : UInt32) : Except Fault Counters :=
  match d with
  | .downlink => do return { c with downlinkBytes := ← Word.add c.downlinkBytes bytes.toUInt64 }
  | .uplink => do return { c with uplinkBytes := ← Word.add c.uplinkBytes bytes.toUInt64 }

def lost (c : Counters) : Except Fault Counters := do
  return { c with losses := ← Word.add c.losses 1 }

def sent (c : Counters) (newData : Bool) : Except Fault Counters :=
  if newData then do return { c with newBlocks := ← Word.add c.newBlocks 1 }
  else do return { c with resent := ← Word.add c.resent 1 }

end Counters

structure Flow where
  channel : ChannelId
  group : GroupId
  downlink : Queue
  uplink : Queue
  deriving DecidableEq, Repr

namespace Flow

def queue (f : Flow) : Direction → Queue
  | .downlink => f.downlink
  | .uplink => f.uplink

def modify (f : Flow) (d : Direction) (g : Queue → Queue) : Flow :=
  match d with
  | .downlink => { f with downlink := g f.downlink }
  | .uplink => { f with uplink := g f.uplink }

end Flow

/-- Feedback on its way, with the size of its block. -/
structure Awaited where
  feedback : Feedback
  blockSize : UInt32
  deriving DecidableEq, Repr

structure Simulator where
  spacing : SubcarrierSpacing
  errorRate : Float
  cell : Cell
  sidelink : Option SidelinkTraffic
  drawn : Nat
  /-- The slot that comes next. -/
  time : SlotTime
  flows : Table Rnti Flow
  pending : List Awaited
  counters : Table Rnti Counters

inductive StartError where
  | scenario (e : ScenarioError)
  | link (e : LinearLink.Error)
  | failed (e : Failure)

inductive StartEvent where
  | carrier (setup : CarrierSetup) (groups : UInt32)
  | channel (c : Confirmation)
  | sidelinkChannel (c : Confirmation)

namespace Simulator

/-- What follows from a scenario before anybody is connected. -/
structure Frame where
  spacing : SubcarrierSpacing
  link : LinkModel
  config : CellConfig

def frame (s : Scenario) : Except StartError Frame := do
  let bandwidth ← s.carrier.bandwidth.mapError StartError.scenario
  let spacing ← s.carrier.spacing.mapError StartError.scenario
  let link ← (LinearLink.create s.link.maxMcs s.link.baseEfficiency s.link.efficiencyStep).mapError
    StartError.link
  let groups ← (resourceBlockGroups bandwidth spacing s.scheduler.blocksPerGroup).mapError
    fun f => StartError.failed (.fault f)
  return ⟨spacing, link.toModel, { s.scheduler with groups }⟩

def empty (f : Frame) (errorRate : Float) (cell : Cell) : Simulator :=
  { spacing := f.spacing, errorRate, cell, sidelink := none, drawn := 0
    time := ⟨0, 0, 0, f.spacing.numerology⟩, flows := ∅, pending := [], counters := ∅ }

def reportQuality (c : Cell) (rnti : Rnti) (cqi : UInt8) : Except Refusal Cell :=
  [Direction.downlink, .uplink].foldlM (fun (c : Cell) direction =>
    Prod.fst <$> accepted (c.reportQuality { rnti, direction, cqi })) c

def connect (s : Simulator) (u : UserSetup) : Except Refusal (Simulator × Option Confirmation) := do
  let cell := s.cell.configureUser u.rnti u.beam
  let (cell, confirmation) ← accepted <| cell.configureChannel {
    rnti := u.rnti, channel := u.channel, group := u.group, direction := .both, priority := 1 }
  let cell ← match u.cqi with
    | some cqi => reportQuality cell u.rnti cqi
    | none => pure cell
  let s := { s with
    cell
    flows := s.flows.insert u.rnti ⟨u.channel, u.group, ⟨u.downlinkRate, 0⟩, ⟨u.uplinkRate, 0⟩⟩
    counters := s.counters.insert u.rnti {} }
  return (s, confirmation)

def refusedStart {α : Type} (r : Except Refusal α) : Except StartError α :=
  r.mapError fun e => .failed (.refused e)

def startSidelink (s : Simulator) (link : LinkModel) (setup : Option SidelinkSetup) :
    List StartEvent × Except StartError Simulator :=
  match setup with
  | none => ([], .ok s)
  | some setup =>
    let (confirmations, traffic) := SidelinkTraffic.start setup link
    (confirmations.filterMap (·.map .sidelinkChannel),
      (refusedStart traffic).map fun t => { s with sidelink := some t })

/-- The simulation of a scenario, and what happened while it was set up: users first, then the
sidelink. -/
def start (s : Scenario) : List StartEvent × Except StartError Simulator :=
  match frame s with
  | .error e => ([], .error e)
  | .ok f =>
    let carrier := StartEvent.carrier s.carrier f.config.groups
    match Cell.create f.config f.link true with
    | .error e => ([carrier], .error (.failed (.refused e)))
    | .ok cell =>
      let (confirmations, r) := collect connect (empty f s.channel.errorRate cell) s.users
      let events := carrier :: confirmations.filterMap (·.map .channel)
      match r with
      | .error e => (events, .error (.failed (.refused e)))
      | .ok sim =>
        let (more, r) := sim.startSidelink f.link s.sidelink
        (events ++ more, r)

end Simulator

end Airtime
