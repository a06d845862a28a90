import Airtime.Channel
import Airtime.Harq
import Airtime.LinkModel

/-!
The sidelink scheduler of one user. It sends each transport block to one destination, on the earliest
of the candidate slots it is offered, and holds the packets in a process until feedback.
-/

namespace Airtime

structure SidelinkConfig where
  fixedMcs : Bool := false
  initialMcs : UInt8 := 14
  blocksPerSubchannel : UInt32 := 10
  processes : UInt8 := 4
  /-- Transmissions of a block whose channels allow repetition. -/
  maxTransmissions : UInt8 := 2
  deriving DecidableEq, Repr

def SidelinkConfig.problem? (c : SidelinkConfig) (maxMcs : UInt8) : Option ConfigError :=
  if maxMcs < c.initialMcs then some (.sidelinkMcsAboveMaximum c.initialMcs maxMcs)
  else if c.processes = 0 ∨ c.maxTransmissions = 0 ∨ c.blocksPerSubchannel = 0 then
    some .sidelinkEmpty
  else none

structure Destination where
  groups : Groups
  /-- Coding scheme of the last block, or the initial one. -/
  mcs : UInt8
  cqi : Option UInt8
  repeated : Bool

namespace Destination

def fresh (mcs : UInt8) : Destination := ⟨∅, mcs, none, false⟩

def backlog (d : Destination) : Except Fault UInt32 := d.groups.total

end Destination

abbrev Packet := List UInt8

structure Sidelink where
  config : SidelinkConfig
  linkModel : LinkModel
  destinations : Table DestinationId Destination
  harq : HarqTable DestinationId Packet
  confirming : Bool

namespace Sidelink

def create (config : SidelinkConfig) (linkModel : LinkModel) (confirming : Bool := false) :
    Except Refusal Sidelink :=
  match config.problem? linkModel.maxMcs with
  | some e => .error (.config e)
  | none => do
    let harq ← (HarqTable.unsized.setup config.processes : Except HarqError _)
    return ⟨config, linkModel, ∅, harq, confirming⟩

def destination? (s : Sidelink) (id : DestinationId) : Option Destination := s.destinations.get? id

def put (s : Sidelink) (id : DestinationId) (d : Destination) : Sidelink :=
  { s with destinations := s.destinations.insert id d }

def configureChannel (s : Sidelink) (r : SidelinkRequest) :
    Sidelink × Except Refusal (Option Confirmation) :=
  let d := (s.destination? r.destination).getD (.fresh s.config.initialMcs)
  match d.groups.holding? r.channel with
  | some (_, g) => (s.put r.destination d, .error (.duplicateChannel g.id r.channel))
  | none =>
    let g := (d.groups.get? r.group).getD (.empty r.group)
    match g.insert (.fresh r.channel r.group r.priority) with
    | .error e =>
      (s.put r.destination { d with groups := d.groups.insert r.group g }, .error e)
    | .ok g =>
      let d := { d with
        groups := d.groups.insert r.group g, repeated := d.repeated || r.repeated }
      (s.put r.destination d, .ok (if s.confirming then some ⟨r.group, r.channel⟩ else none))

def reportBuffer (s : Sidelink) (r : BufferReport DestinationId) : Sidelink × Except Refusal Unit :=
  match s.destination? r.destination with
  | none => (s, .error (.unknownDestination r.destination))
  | some d =>
    match d.groups.update r with
    | .error e => (s, .error e)
    | .ok (_, groups) => (s.put r.destination { d with groups }, .ok ())

def reportQuality (s : Sidelink) (id : DestinationId) (cqi : UInt8) :
    Sidelink × Except Refusal Unit :=
  match s.destination? id with
  | none => (s, .error (.unknownDestination id))
  | some d => (s.put id { d with cqi := some cqi }, .ok ())

/-- The coding scheme of the next block: the fixed one, else that of the last quality report. -/
def selectMcs (s : Sidelink) (d : Destination) : UInt8 :=
  if s.config.fixedMcs then s.config.initialMcs
  else match d.cqi with
    | some cqi => s.linkModel.adapted cqi
    | none => d.mcs

/-- Candidates in slot order; those of one slot keep their order. A single one is not looked at. -/
def inSlotOrder (cs : List Candidate) : Except Fault (List Candidate) :=
  if cs.length < 2 then .ok cs
  else do
    let counted ← cs.mapM fun c => do return (c, ← c.time.count)
    return (counted.mergeSort fun a b => a.2 ≤ b.2).map Prod.fst

/-- The block that the fewest subchannels carry, of `1` to `n`: the first that holds `bytes`, else
the last. -/
def fewestSubchannels (blockSize : Nat → UInt32) (bytes : UInt32) (n : Nat) : Nat × UInt32 :=
  let sizes := (List.range' 1 n).map fun k => (k, blockSize k)
  match sizes.find? fun s => bytes ≤ s.2 with
  | some s => s
  | none => sizes.getLastD (0, 0)

def grants (cs : List Candidate) (first : Grant) : List Grant :=
  cs.zipIdx.map fun (c, n) =>
    { first with
      time := c.time
      start := c.start
      redundancy := redundancyVersion (UInt8.ofNat n)
      newData := n = 0
      transmission := UInt8.ofNat n
      content := if n = 0 then first.content else [] }

/-- Allocates a block towards a destination. There is none when nothing waits, no candidate or no
process is there, or the candidates carry no byte. -/
def trigger (s : Sidelink) (id : DestinationId) (candidates : List Candidate) :
    Except Fault (Sidelink × Except Refusal (Option (List Grant))) :=
  match s.destination? id with
  | none => .ok (s, .error (.unknownDestination id))
  | some d => do
    let backlog ← d.backlog
    if backlog = 0 ∨ candidates.isEmpty ∨ s.harq.available = 0 then return (s, .ok none)
    else
      let mcs := s.selectMcs d
      let count := if d.repeated then s.config.maxTransmissions.toNat else 1
      let chosen := (← inSlotOrder candidates).take count
      let subchannels := (chosen.map Candidate.subchannels).min?.getD 0
      let symbols := (chosen.map Candidate.symbols).min?.getD 0
      let blockSize (n : Nat) : UInt32 := s.linkModel.blockSize mcs
        (Word.mulSat (Word.mulSat (UInt32.ofNat n) s.config.blocksPerSubchannel) symbols.toUInt32)
      let (width, size) := fewestSubchannels blockSize backlog subchannels.toNat
      if size = 0 then return (s, .ok none)
      else
        match s.harq.assign id with
        | .error e => return (s, .error (.harq e))
        | .ok (process, harq) =>
          let (content, groups) ← d.groups.fill size
          let first : Grant :=
            { time := ⟨0, 0, 0, 0⟩, destination := id, start := 0, subchannels := UInt16.ofNat width,
              mcs, process, redundancy := 0, newData := true, transmission := 0, blockSize := size,
              content }
          let s := { s with harq }.put id { d with groups, mcs }
          return (s, .ok (some (grants chosen first)))

def addPacket (s : Sidelink) (id : DestinationId) (channel : ChannelId) (process : ProcessId)
    (packet : Packet) : Sidelink × Except Refusal Unit :=
  match s.harq.addPacket id channel process packet with
  | .error e => (s, .error (.harq e))
  | .ok harq => ({ s with harq }, .ok ())

def feedback (s : Sidelink) (id : DestinationId) (process : ProcessId) :
    Sidelink × Except Refusal Unit :=
  match s.harq.release id process with
  | .error e => (s, .error (.harq e))
  | .ok harq => ({ s with harq }, .ok ())

def packets (s : Sidelink) (id : DestinationId) (process : ProcessId) :
    Except Refusal (List Packet) :=
  (s.harq.packets id process).mapError .harq

end Sidelink

end Airtime
