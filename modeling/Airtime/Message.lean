import Airtime.Identity
import Airtime.SlotTime

/-!
What the schedulers are told (channel requests, buffer and quality reports, feedback) and what they
hand out (assignments of the cell, grants on the sidelink).
-/

namespace Airtime

/-- Asks for a logical channel of a user in the cell. Lower priorities matter more. -/
structure ChannelRequest where
  rnti : Rnti
  channel : ChannelId
  group : GroupId
  direction : ChannelDirection
  priority : UInt8
  deriving DecidableEq, Repr

structure SidelinkRequest where
  destination : DestinationId
  channel : ChannelId
  group : GroupId
  priority : UInt8
  delayBudget : UInt16
  repeated : Bool
  deriving DecidableEq, Repr

/-- The queues of one logical channel, in bytes, with the age of their first packet. -/
structure BufferReport (κ : Type) where
  destination : κ
  channel : ChannelId
  tx : UInt32
  txDelay : UInt16
  retx : UInt32
  retxDelay : UInt16
  status : UInt16
  deriving DecidableEq, Repr

def BufferReport.newData {κ : Type} (destination : κ) (channel : ChannelId) (bytes : UInt32) :
    BufferReport κ :=
  { destination, channel, tx := bytes, txDelay := 0, retx := 0, retxDelay := 0, status := 0 }

structure GroupReport where
  rnti : Rnti
  group : GroupId
  bytes : UInt32
  deriving DecidableEq, Repr

structure Confirmation where
  group : GroupId
  channel : ChannelId
  deriving DecidableEq, Repr

structure Feedback where
  rnti : Rnti
  process : ProcessId
  direction : Direction
  success : Bool
  deriving DecidableEq, Repr

structure QualityReport where
  rnti : Rnti
  direction : Direction
  cqi : UInt8
  deriving DecidableEq, Repr

/-- An assignment of a rectangle of the grid to one user for one transport block. -/
structure Assignment where
  rnti : Rnti
  beam : BeamId
  direction : Direction
  process : ProcessId
  startRbg : UInt32
  numRbg : UInt32
  startSym : UInt32
  numSym : UInt32
  mcs : UInt8
  blockSize : UInt32
  newData : Bool
  redundancy : UInt8
  deriving DecidableEq, Repr

structure Pdu where
  group : GroupId
  channel : ChannelId
  size : UInt32
  deriving DecidableEq, Repr

structure SlotAllocation where
  time : Option SlotTime
  downlink : List Assignment
  uplink : List Assignment
  downlinkSymbols : List (BeamId × UInt32)
  uplinkSymbols : List (BeamId × UInt32)
  deriving DecidableEq, Repr

def SlotAllocation.assignments (a : SlotAllocation) : Direction → List Assignment
  | .downlink => a.downlink
  | .uplink => a.uplink

def SlotAllocation.symbols (a : SlotAllocation) : Direction → List (BeamId × UInt32)
  | .downlink => a.downlinkSymbols
  | .uplink => a.uplinkSymbols

structure Candidate where
  time : SlotTime
  start : UInt16
  subchannels : UInt16
  symbols : UInt16
  deriving DecidableEq, Repr

/-- One transmission of a sidelink transport block; the first one names its content. -/
structure Grant where
  time : SlotTime
  destination : DestinationId
  start : UInt16
  subchannels : UInt16
  mcs : UInt8
  process : ProcessId
  redundancy : UInt8
  newData : Bool
  transmission : UInt8
  blockSize : UInt32
  content : List Pdu
  deriving DecidableEq, Repr

end Airtime
