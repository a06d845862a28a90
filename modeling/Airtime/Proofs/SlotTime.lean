import Airtime.SlotTime
import Airtime.Proofs.Success
import Mathlib.Order.Compare

/-! Times and counts of slots. A count is a number in the mixed radix of frames, subframes and slots:
times in range are its digits, the frame number being cut off at 32 bits. Counting forward from a
time therefore adds up, and times of one numerology are ordered as their fields are. -/

namespace Airtime

namespace SlotTime

/-- The slots from frame 0 to a time. -/
def slots (t : SlotTime) : Nat :=
  (t.frame.toNat * subframesPerFrame + t.subframe.toNat) * 2 ^ t.numerology.toNat + t.slot.toNat

theorem count_eq {t : SlotTime} (h : t.numerology.toNat < 8) :
    t.count = .ok (UInt64.ofNat t.slots) := by
  have hpow : 2 ^ t.numerology.toNat < 256 :=
    (Nat.pow_lt_pow_right (by decide) h).trans_le (by decide)
  have hper : (UInt8.ofNat (1 <<< t.numerology.toNat)).toNat = 2 ^ t.numerology.toNat := by
    rw [Nat.one_shiftLeft]
    exact UInt8.toNat_ofNat_of_lt' hpow
  simp only [count, slotsPerSubframe, if_pos h, bind_ok_iff, Except.ok.injEq, exists_eq_left',
    pure_ok_iff, hper, slots]

theorem slots_lt {t : SlotTime} (h : t.numerology.toNat < 8) : t.slots < 2 ^ 44 := by
  have hpow : 2 ^ t.numerology.toNat ≤ 2 ^ 7 := Nat.pow_le_pow_right (by decide) (by omega)
  have hframe := t.frame.toNat_lt
  have hsubframe := t.subframe.toNat_lt
  have hslot := t.slot.toNat_lt
  calc t.slots ≤ (4294967295 * 10 + 255) * 2 ^ 7 + 255 :=
        Nat.add_le_add (Nat.mul_le_mul (Nat.add_le_add (Nat.mul_le_mul_right 10 (by omega))
          (by omega)) hpow) (by omega)
    _ < 2 ^ 44 := by decide

theorem count_ok_iff {t : SlotTime} {n : UInt64} :
    t.count = .ok n ↔ t.numerology.toNat < 8 ∧ n.toNat = t.slots := by
  constructor
  · intro h
    have hnumerology : t.numerology.toNat < 8 := by
      by_contra hbig
      rw [count, slotsPerSubframe, if_neg hbig] at h
      cases h
    refine ⟨hnumerology, ?_⟩
    rw [count_eq hnumerology, Except.ok.injEq] at h
    rw [← h]
    exact UInt64.toNat_ofNat_of_lt' ((slots_lt hnumerology).trans (by decide))
  · rintro ⟨hnumerology, hn⟩
    rw [count_eq hnumerology, ← hn, UInt64.ofNat_toNat]

theorem succeeds_count {t : SlotTime} (h : t.numerology.toNat < 8) : Succeeds t.count :=
  ⟨_, count_eq h⟩

/-- A time as a clock shows it. -/
structure InRange (t : SlotTime) : Prop where
  numerology : t.numerology.toNat ≤ 7
  subframe : t.subframe.toNat < 10
  slot : t.slot.toNat < 2 ^ t.numerology.toNat

instance (t : SlotTime) : Decidable t.InRange :=
  decidable_of_iff (t.numerology.toNat ≤ 7 ∧ t.subframe.toNat < 10 ∧
      t.slot.toNat < 2 ^ t.numerology.toNat)
    ⟨fun ⟨hnumerology, hsubframe, hslot⟩ => ⟨hnumerology, hsubframe, hslot⟩,
      fun h => ⟨h.numerology, h.subframe, h.slot⟩⟩

theorem compare_mul_add {q q' r r' p : Nat} (hr : r < p) (hr' : r' < p) :
    compare (q * p + r) (q' * p + r') = (compare q q').then (compare r r') := by
  rcases lt_trichotomy q q' with h | rfl | h
  · have hle : q * p + p ≤ q' * p := Nat.succ_mul q p ▸ Nat.mul_le_mul_right p h
    rw [Nat.compare_eq_lt.mpr h, Nat.compare_eq_lt.mpr (by omega)]
    rfl
  · rw [Nat.compare_eq_eq.mpr (Eq.refl q)]
    simp only [Nat.compare_eq_ite_lt, Nat.add_lt_add_iff_left, Ordering.then]
  · have hle : q' * p + p ≤ q * p := Nat.succ_mul q' p ▸ Nat.mul_le_mul_right p h
    rw [Nat.compare_eq_gt.mpr h, Nat.compare_eq_gt.mpr (by omega)]
    rfl

def compareFields (t u : SlotTime) : Ordering :=
  (compare t.frame.toNat u.frame.toNat).then
    ((compare t.subframe.toNat u.subframe.toNat).then (compare t.slot.toNat u.slot.toNat))

section InRange

variable {t u : SlotTime} (ht : t.InRange) (hu : u.InRange) (hsame : t.numerology = u.numerology)

include ht hu hsame

theorem compare_slots : compare t.slots u.slots = compareFields t u := by
  have hslot := hu.slot
  rw [← hsame] at hslot
  rw [slots, slots, ← hsame, compare_mul_add ht.slot hslot,
    show subframesPerFrame = 10 from rfl, compare_mul_add ht.subframe hu.subframe, compareFields]
  cases compare t.frame.toNat u.frame.toNat <;> rfl

theorem eq_of_slots_eq (h : t.slots = u.slots) : t = u := by
  have heq := compare_slots ht hu hsame
  rw [h, Nat.compare_eq_eq.mpr rfl, compareFields, eq_comm, Ordering.then_eq_eq,
    Ordering.then_eq_eq, Nat.compare_eq_eq, Nat.compare_eq_eq, Nat.compare_eq_eq] at heq
  obtain ⟨hframe, hsubframe, hslot⟩ := heq
  obtain ⟨frame, subframe, slot, numerology⟩ := t
  rw [SlotTime.mk.injEq]
  exact ⟨UInt32.toNat_inj.mp hframe, UInt8.toNat_inj.mp hsubframe, UInt8.toNat_inj.mp hslot, hsame⟩

end InRange

/-- Slots until the frame number is back at where it was. -/
def cycle (numerology : UInt8) : Nat := 2 ^ 32 * 10 * 2 ^ numerology.toNat

theorem slots_lt_cycle {t : SlotTime} (ht : t.InRange) : t.slots < cycle t.numerology := by
  have hframe := t.frame.toNat_lt
  have hsubframe := ht.subframe
  have hslot := ht.slot
  calc t.slots < (t.frame.toNat * 10 + t.subframe.toNat + 1) * 2 ^ t.numerology.toNat := by
        rw [slots, Nat.succ_mul]
        exact Nat.add_lt_add_left hslot _
    _ ≤ 2 ^ 32 * 10 * 2 ^ t.numerology.toNat := Nat.mul_le_mul_right _ (by omega)

/-- The digits of a number below the cycle make up the number. -/
theorem digits_eq_mod (s f k p : Nat) : (s / p / k % f * k + s / p % k) * p + s % p =
    s % (f * k * p) := by
  rw [Nat.mul_comm (f * k) p, Nat.mod_mul, Nat.mul_comm f k, Nat.mod_mul, Nat.add_comm,
    Nat.mul_comm p, Nat.add_comm (s / p % k), Nat.mul_comm k]

theorem ofCount_ok {n : UInt8} (h : n.toNat ≤ 7) (s : UInt64) : ∃ t, ofCount s n = .ok t ∧
    t.numerology = n ∧ t.InRange ∧ t.slots = s.toNat % cycle n := by
  have hper : 1 <<< n.toNat = 2 ^ n.toNat := Nat.one_shiftLeft _
  have hpow : 2 ^ n.toNat ≤ 2 ^ 7 := Nat.pow_le_pow_right (by decide) h
  have hpos : 0 < 2 ^ n.toNat := Nat.two_pow_pos _
  have hsubframe : s.toNat / 2 ^ n.toNat % subframesPerFrame < 10 := Nat.mod_lt _ (by decide)
  have hslot : s.toNat % 2 ^ n.toNat < 2 ^ n.toNat := Nat.mod_lt _ hpos
  rw [ofCount, if_pos (by omega), hper]
  refine ⟨_, rfl, rfl, ⟨h, ?_, ?_⟩, ?_⟩
  · exact lt_of_eq_of_lt (UInt8.toNat_ofNat_of_lt' (by change _ < 256; omega)) hsubframe
  · exact lt_of_eq_of_lt (UInt8.toNat_ofNat_of_lt' (by change _ < 256; omega)) hslot
  · rw [slots, UInt32.toNat_ofNat', UInt8.toNat_ofNat_of_lt' (by change _ < 256; omega),
      UInt8.toNat_ofNat_of_lt' (by change _ < 256; omega)]
    exact digits_eq_mod _ _ _ _

theorem ofCount_congr {n : UInt8} (h : n.toNat ≤ 7) {s s' : UInt64}
    (hmod : s.toNat % cycle n = s'.toNat % cycle n) : ofCount s n = ofCount s' n := by
  obtain ⟨t, hcount, rfl, ht, hslots⟩ := ofCount_ok h s
  obtain ⟨u, hcount', hsame, hu, hslots'⟩ := ofCount_ok h s'
  rw [hcount, hcount', eq_of_slots_eq ht hu hsame.symm (by rw [hslots, hslots', hmod])]

theorem ofCount_count {t : SlotTime} (ht : t.InRange) :
    ∃ m, t.count = .ok m ∧ ofCount m t.numerology = .ok t := by
  obtain ⟨m, hm⟩ := succeeds_count (Nat.lt_succ_of_le ht.numerology)
  obtain ⟨u, hu, hsame, hrange, hslots⟩ := ofCount_ok ht.numerology m
  rw [(count_ok_iff.mp hm).2, Nat.mod_eq_of_lt (slots_lt_cycle ht)] at hslots
  exact ⟨m, hm, hu.trans (congrArg _ (eq_of_slots_eq hrange ht hsame hslots))⟩

theorem toNat_add_of_lt {m n : UInt64} (h : m.toNat + n.toNat < UInt64.size) :
    (m + n).toNat = m.toNat + n.toNat := by
  rw [UInt64.toNat_add, Nat.mod_eq_of_lt h]

theorem later_eq {t : SlotTime} {m : UInt64} (hm : t.count = .ok m) {slots : UInt64}
    (hfits : m.toNat + slots.toNat < UInt64.size) :
    t.later slots = ofCount (m + slots) t.numerology := by
  have hadd : Word.add m slots = .ok (m + slots) := Word.add_eq_ok.mpr (toNat_add_of_lt hfits)
  rw [later, hm, ok_bind, hadd, ok_bind]

theorem later_ok {t : SlotTime} (h : t.numerology.toNat < 8) {slots : UInt64}
    (hslots : slots.toNat < 2 ^ 44) :
    ∃ t', t.later slots = .ok t' ∧ t'.numerology = t.numerology := by
  obtain ⟨n, hn⟩ := succeeds_count h
  have hlt : n.toNat < 2 ^ 44 := (count_ok_iff.mp hn).2 ▸ slots_lt h
  have hfits : n.toNat + slots.toNat < UInt64.size :=
    lt_of_lt_of_le (Nat.add_lt_add hlt hslots) (by decide)
  obtain ⟨t', hlater, hsame, -, -⟩ := ofCount_ok (Nat.le_of_lt_succ h) (n + slots)
  exact ⟨t', (later_eq hn hfits).trans hlater, hsame⟩

theorem next_ok {t : SlotTime} (h : t.numerology.toNat < 8) :
    ∃ t', t.next = .ok t' ∧ t'.numerology = t.numerology := later_ok h (by decide)

/-- Two steps forward are one. The first may lose whole cycles of the frame number, which the second
does not see. -/
theorem later_later {t : SlotTime} {m a b : UInt64} (hm : t.count = .ok m)
    (hfits : m.toNat + a.toNat + b.toNat < UInt64.size) :
    ∃ u v, t.later a = .ok u ∧ u.later b = .ok v ∧ t.later (a + b) = .ok v := by
  have hle : t.numerology.toNat ≤ 7 := Nat.le_of_lt_succ (count_ok_iff.mp hm).1
  have hma : (m + a).toNat = m.toNat + a.toNat := toNat_add_of_lt (by omega)
  have hab : (a + b).toNat = a.toNat + b.toNat := toNat_add_of_lt (by omega)
  obtain ⟨u, hu, hsame, hrange, hslots⟩ := ofCount_ok hle (m + a)
  obtain ⟨k, hk⟩ := succeeds_count (Nat.lt_succ_of_le hrange.numerology)
  have hkmod : k.toNat = (m + a).toNat % cycle t.numerology := (count_ok_iff.mp hk).2.trans hslots
  have hkle : k.toNat ≤ (m + a).toNat := hkmod ▸ Nat.mod_le _ _
  obtain ⟨v, hv, -, -, -⟩ := ofCount_ok hle (m + (a + b))
  have hsum : (k + b).toNat % cycle t.numerology = (m + (a + b)).toNat % cycle t.numerology := by
    rw [toNat_add_of_lt (by omega), hkmod, Nat.mod_add_mod, hma, toNat_add_of_lt (by omega), hab,
      Nat.add_assoc]
  refine ⟨u, v, (later_eq hm (by omega)).trans hu, ?_, (later_eq hm (by omega)).trans hv⟩
  rw [later_eq hk (by omega), hsame, ← hv]
  exact ofCount_congr hle hsum

theorem order_eq {t u : SlotTime} (ht : t.numerology.toNat < 8) (hu : u.numerology.toNat < 8) :
    t.order u = .ok (compare t.slots u.slots) := by
  obtain ⟨m, hm⟩ := succeeds_count ht
  obtain ⟨n, hn⟩ := succeeds_count hu
  rw [order, hm, hn, ← (count_ok_iff.mp hm).2, ← (count_ok_iff.mp hn).2]
  rfl

/-- The arithmetic of slots. Every count is the count, up to a full cycle of the frame number, of a
time in range; a time in range is the time of its count; going forward adds up, also when the frame
number passes zero and when the fields are out of range; times of one numerology are in the order of
their fields. -/
theorem slot_arithmetic :
    (∀ (n : UInt8) (s : UInt64), n.toNat ≤ 7 → ∃ t m, ofCount s n = .ok t ∧
      t.subframe.toNat < 10 ∧ t.slot.toNat < 2 ^ n.toNat ∧
      t.count = .ok m ∧ m.toNat = s.toNat % (2 ^ 32 * 10 * 2 ^ n.toNat)) ∧
    (∀ t : SlotTime, t.InRange → ∃ m, t.count = .ok m ∧ ofCount m t.numerology = .ok t) ∧
    (∀ (t : SlotTime) (m a b : UInt64), t.count = .ok m →
      m.toNat + a.toNat + b.toNat < UInt64.size → ∃ u v,
        t.later a = .ok u ∧ u.later b = .ok v ∧ t.later (a + b) = .ok v) ∧
    (∀ t u : SlotTime, t.InRange → u.InRange → t.numerology = u.numerology →
      t.order u = .ok (compareFields t u) ∧ (t.order u = .ok .eq ↔ t = u)) := by
  refine ⟨fun n s hn => ?_, fun _ => ofCount_count, fun _ _ _ _ => later_later,
    fun t u ht hu hsame => ?_⟩
  · obtain ⟨t, hcount, rfl, ht, hslots⟩ := ofCount_ok hn s
    obtain ⟨m, hm⟩ := succeeds_count (Nat.lt_succ_of_le hn)
    exact ⟨t, m, hcount, ht.subframe, ht.slot, hm, (count_ok_iff.mp hm).2.trans hslots⟩
  · rw [order_eq (Nat.lt_succ_of_le ht.numerology) (Nat.lt_succ_of_le hu.numerology),
      Except.ok.injEq, Except.ok.injEq, Nat.compare_eq_eq]
    exact ⟨compare_slots ht hu hsame, eq_of_slots_eq ht hu hsame, congrArg slots⟩

/-- One slot before the frame number wraps, and times whose fields have to be put in range. -/
theorem slot_arithmetic_sample :
    (∃ t m, ofCount 85899345923 1 = .ok t ∧ t.subframe.toNat < 10 ∧ t.slot.toNat < 2 ∧
      t.count = .ok m ∧ m.toNat = 3) ∧
    (∃ m, count ⟨4294967295, 9, 1, 1⟩ = .ok m ∧ ofCount m 1 = .ok ⟨4294967295, 9, 1, 1⟩) ∧
    (∃ u v, later ⟨4294967295, 12, 200, 3⟩ 7 = .ok u ∧ u.later 90 = .ok v ∧
      later ⟨4294967295, 12, 200, 3⟩ 97 = .ok v) ∧
    (order ⟨7, 9, 1, 1⟩ ⟨8, 0, 0, 1⟩ = .ok .lt ∧
      (order ⟨7, 9, 1, 1⟩ ⟨8, 0, 0, 1⟩ = .ok .eq ↔ (⟨7, 9, 1, 1⟩ : SlotTime) = ⟨8, 0, 0, 1⟩)) := by
  obtain ⟨hcount, hback, hlater, horder⟩ := slot_arithmetic
  exact ⟨hcount 1 85899345923 (by decide), hback ⟨4294967295, 9, 1, 1⟩ (by decide),
    hlater ⟨4294967295, 12, 200, 3⟩ 343597383896 7 90 (by decide) (by decide),
    horder ⟨7, 9, 1, 1⟩ ⟨8, 0, 0, 1⟩ (by decide) (by decide) rfl⟩

end SlotTime

end Airtime
