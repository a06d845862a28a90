import Airtime.Table

/-!
The names by which users, beams, sidelink destinations, channels and processes are known.
-/

namespace Airtime

/-- Temporary identity of a user in its cell. -/
structure Rnti where
  value : UInt16
  deriving DecidableEq, Repr

/-- A beam of the cell; beam 0 is the default one. -/
structure BeamId where
  value : UInt16
  deriving DecidableEq, Repr

structure DestinationId where
  value : UInt32
  deriving DecidableEq, Repr

abbrev ChannelId := UInt8
abbrev GroupId := UInt8
abbrev ProcessId := UInt8

instance : Key Rnti where
  rank r := r.value.toNat
  rank_inj {a b} h := by cases a; cases b; exact congrArg _ (UInt16.toNat_inj.mp h)

instance : Key BeamId where
  rank b := b.value.toNat
  rank_inj {a b} h := by cases a; cases b; exact congrArg _ (UInt16.toNat_inj.mp h)

instance : Key DestinationId where
  rank d := d.value.toNat
  rank_inj {a b} h := by cases a; cases b; exact congrArg _ (UInt32.toNat_inj.mp h)

inductive Direction where
  | downlink
  | uplink
  deriving DecidableEq, Repr

inductive ChannelDirection where
  | downlink
  | uplink
  | both
  deriving DecidableEq, Repr

def ChannelDirection.carries : ChannelDirection → Direction → Bool
  | .both, _ => true
  | .downlink, d => d = .downlink
  | .uplink, d => d = .uplink

def Rnti.text (r : Rnti) : String := toString r.value.toNat

def BeamId.text (b : BeamId) : String := "beam" ++ toString b.value.toNat

def DestinationId.text (d : DestinationId) : String := toString d.value.toNat

def Direction.text : Direction → String
  | .downlink => "DL"
  | .uplink => "UL"

/-- How the holder of a process is named when a request on the process is refused. -/
class Holder (κ : Type) where
  label : κ → String

instance : Holder UInt32 := ⟨fun n => toString n.toNat⟩
instance : Holder Rnti := ⟨fun r => "Rnti(" ++ r.text ++ ")"⟩
instance : Holder DestinationId := ⟨fun d => "DstL2Id(" ++ d.text ++ ")"⟩

end Airtime
