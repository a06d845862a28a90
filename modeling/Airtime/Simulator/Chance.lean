/-!
Random draws. A run numbers its draws in the order in which it makes them, and what they give is fixed
in advance, so a run is a function of the outcomes.
-/

namespace Airtime

structure Chance where
  /-- A number of the unit interval, without 1. -/
  unit : Nat → Float
  below : Nat → UInt16 → UInt16
  below_lt : ∀ n bound, 0 < bound → below n bound < bound

namespace Chance

def scatter (z : UInt64) : UInt64 :=
  let z := (z ^^^ (z >>> 30)) * 0xbf58476d1ce4e5b9
  let z := (z ^^^ (z >>> 27)) * 0x94d049bb133111eb
  z ^^^ (z >>> 31)

def word (seed : UInt64) (n : Nat) : UInt64 :=
  scatter (seed + UInt64.ofNat (n + 1) * 0x9e3779b97f4a7c15)

def fraction (w : UInt64) : Float := (w >>> 11).toFloat / 9007199254740992

/-- Draws that depend on a seed only. -/
def seeded (seed : UInt64) : Chance where
  unit n := fraction (word seed n)
  below n bound := UInt16.ofNat ((word seed n).toNat % bound.toNat)
  below_lt n bound h := by
    have h : 0 < bound.toNat := by simpa using UInt16.lt_iff_toNat_lt.mp h
    have hm := Nat.mod_lt (word seed n).toNat h
    rw [UInt16.lt_iff_toNat_lt, UInt16.toNat_ofNat_of_lt' (Nat.lt_trans hm bound.toNat_lt)]
    exact hm

end Chance

end Airtime
