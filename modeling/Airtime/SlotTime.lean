import Airtime.Arithmetic

/-!
Slots are counted in frames of ten subframes, each of `2 ^ numerology` slots. `SlotTime.count` is the
number of slots since frame 0 and `SlotTime.ofCount` its inverse on times whose fields are in range;
frames wrap at 32 bits.
-/

namespace Airtime

structure SlotTime where
  frame : UInt32
  subframe : UInt8
  slot : UInt8
  numerology : UInt8
  deriving DecidableEq, Repr

namespace SlotTime

def subframesPerFrame : Nat := 10

/-- Subframes of more than 128 slots cannot be counted in a byte. -/
def slotsPerSubframe (t : SlotTime) : Except Fault UInt8 :=
  if t.numerology.toNat < 8 then .ok (UInt8.ofNat (1 <<< t.numerology.toNat)) else .error .shift

/-- Slots since frame 0. The fields need not be in range; the result always fits. -/
def count (t : SlotTime) : Except Fault UInt64 := do
  let per ← t.slotsPerSubframe
  let subframes := t.frame.toNat * subframesPerFrame + t.subframe.toNat
  return UInt64.ofNat (subframes * per.toNat + t.slot.toNat)

/-- The time `slots` slots after frame 0, in the given numerology. -/
def ofCount (slots : UInt64) (numerology : UInt8) : Except Fault SlotTime :=
  if numerology.toNat < 64 then
    let per := 1 <<< numerology.toNat
    let subframes := slots.toNat / per
    .ok {
      frame := UInt32.ofNat (subframes / subframesPerFrame)
      subframe := UInt8.ofNat (subframes % subframesPerFrame)
      slot := UInt8.ofNat (slots.toNat % per)
      numerology }
  else .error .shift

def later (t : SlotTime) (slots : UInt64) : Except Fault SlotTime := do
  ofCount (← Word.add (← t.count) slots) t.numerology

def next (t : SlotTime) : Except Fault SlotTime := t.later 1

def order (a b : SlotTime) : Except Fault Ordering := do
  let m ← a.count
  let n ← b.count
  return compare m.toNat n.toNat

def text (t : SlotTime) : String :=
  toString t.frame.toNat ++ "/" ++ toString t.subframe.toNat ++ "/" ++ toString t.slot.toNat

end SlotTime

end Airtime
