import Airtime.Channel
import Airtime.Harq
import Airtime.LinkModel

/-!
A user of the cell: in each direction its channels, its processes, the blocks on their way, and what
it was given in the current slot.
-/

namespace Airtime

structure Block where
  /-- The assignment of its last transmission. -/
  assignment : Assignment
  transmissions : UInt8
  lost : Bool
  deriving DecidableEq, Repr

/-- Throughput in bytes per symbol, as the proportional-fair policy keeps it. -/
structure Throughput where
  average : Float
  lastAverage : Float
  current : Float
  potential : Float

def Throughput.zero : Throughput := ⟨0, 0, 0, 0⟩

/-- One direction of a user. Resources count units of one resource block group for one symbol. -/
structure LinkState where
  rbg : UInt32
  sym : UInt32
  mcs : UInt8
  cqi : Option UInt8
  /-- Units that retransmissions took in this slot. -/
  retxRbg : UInt32
  groups : Groups
  harq : HarqTable Rnti Pdu
  inFlight : Table ProcessId Block
  throughput : Throughput
  blockSize : UInt32

namespace LinkState

def fresh (processes mcs : UInt8) : LinkState :=
  { rbg := 0, sym := 0, mcs, cqi := none, retxRbg := 0, groups := ∅,
    harq := .ofCapacity processes, inFlight := ∅, throughput := .zero, blockSize := 0 }

def backlog (s : LinkState) : Except Fault UInt32 := s.groups.total

def hasLost (s : LinkState) : Bool := s.inFlight.values.any Block.lost

/-- Forgets what the last slot assigned; its average becomes the last one. -/
def newSlot (s : LinkState) : LinkState :=
  { s with
    rbg := 0, sym := 0, retxRbg := 0, blockSize := 0
    throughput :=
      { s.throughput with lastAverage := s.throughput.average, current := 0, potential := 0 } }

def achievable (s : LinkState) (link : LinkModel) (blocksPerGroup : UInt32) :
    Except Fault UInt32 :=
  if s.rbg = 0 then .ok 0
  else do return link.blockSize s.mcs (← Word.mul s.rbg blocksPerGroup)

/-- Fixes the size of the slot's block from the units assigned. -/
def sized (s : LinkState) (link : LinkModel) (blocksPerGroup : UInt32) :
    Except Fault LinkState := do
  return { s with blockSize := ← s.achievable link blocksPerGroup }

end LinkState

structure User where
  rnti : Rnti
  beam : BeamId
  downlink : LinkState
  uplink : LinkState

namespace User

def fresh (rnti : Rnti) (beam : BeamId) (processes downlinkMcs uplinkMcs : UInt8) : User :=
  { rnti, beam, downlink := .fresh processes downlinkMcs, uplink := .fresh processes uplinkMcs }

def link (u : User) : Direction → LinkState
  | .downlink => u.downlink
  | .uplink => u.uplink

def setLink (u : User) (d : Direction) (s : LinkState) : User :=
  match d with
  | .downlink => { u with downlink := s }
  | .uplink => { u with uplink := s }

def modify (u : User) (d : Direction) (f : LinkState → LinkState) : User :=
  u.setLink d (f (u.link d))

@[simp] theorem link_setLink (u : User) (d : Direction) (s : LinkState) :
    (u.setLink d s).link d = s := by cases d <;> rfl

theorem link_setLink_of_ne (u : User) {d e : Direction} (h : e ≠ d) (s : LinkState) :
    (u.setLink d s).link e = u.link e := by cases d <;> cases e <;> first | rfl | exact absurd rfl h

@[simp] theorem rnti_setLink (u : User) (d : Direction) (s : LinkState) :
    (u.setLink d s).rnti = u.rnti := by cases d <;> rfl

@[simp] theorem beam_setLink (u : User) (d : Direction) (s : LinkState) :
    (u.setLink d s).beam = u.beam := by cases d <;> rfl

end User

end Airtime
