import Airtime.Proofs.SidelinkGrant
import Airtime.Proofs.SlotTime
import Mathlib.Algebra.Order.Ring.Rat
import Mathlib.Tactic.NormNum

/-! The order of slots and the times at which they start. Slots are ordered by their counts, and each
numerology counts in slots of its own length: within one numerology this is the order of the starts,
across numerologies only a slot of the finer one that comes first also starts first. -/

namespace Airtime

namespace SlotTime

/-- When a slot starts, in milliseconds after frame 0: a subframe takes one in every numerology. -/
def start (t : SlotTime) : ℚ :=
  t.frame.toNat * subframesPerFrame + t.subframe.toNat + t.slot.toNat / 2 ^ t.numerology.toNat

theorem slots_eq_start (t : SlotTime) : (t.slots : ℚ) = t.start * 2 ^ t.numerology.toNat := by
  rw [start, add_mul, div_mul_cancel₀ _ (by positivity)]
  simp only [slots, Nat.cast_add, Nat.cast_mul, Nat.cast_pow, Nat.cast_ofNat]

theorem start_nonneg (t : SlotTime) : 0 ≤ t.start := by
  unfold start
  positivity

section Order

variable {t u : SlotTime} (ht : t.InRange) (hu : u.InRange)

include ht hu

theorem order_eq_counts : t.order u =
    .ok (compare (t.start * 2 ^ t.numerology.toNat) (u.start * 2 ^ u.numerology.toNat)) := by
  rw [order_eq (Nat.lt_succ_of_le ht.numerology) (Nat.lt_succ_of_le hu.numerology),
    ← slots_eq_start, ← slots_eq_start, ← cmp_eq_compare, ← cmp_eq_compare,
    (Nat.strictMono_cast (α := ℚ)).cmp_map_eq]

theorem order_eq_of_finer (hfiner : u.numerology ≤ t.numerology) : t.order u =
    .ok (compare (t.start * 2 ^ (t.numerology.toNat - u.numerology.toNat)) u.start) := by
  rw [order_eq_counts ht hu, ← Nat.sub_add_cancel (UInt8.le_iff_toNat_le.mp hfiner), pow_add,
    ← mul_assoc, Nat.add_sub_cancel, ← cmp_eq_compare, cmp_mul_pos_right (by positivity),
    cmp_eq_compare]

theorem order_eq_of_coarser (hcoarser : t.numerology ≤ u.numerology) : t.order u =
    .ok (compare t.start (u.start * 2 ^ (u.numerology.toNat - t.numerology.toNat))) := by
  rw [order_eq_counts ht hu, ← Nat.sub_add_cancel (UInt8.le_iff_toNat_le.mp hcoarser), pow_add,
    ← mul_assoc, Nat.add_sub_cancel, ← cmp_eq_compare, cmp_mul_pos_right (by positivity),
    cmp_eq_compare]

theorem order_eq_starts (hsame : t.numerology = u.numerology) :
    t.order u = .ok (compare t.start u.start) := by
  rw [order_eq_of_finer ht hu (UInt8.le_of_eq hsame.symm), hsame, Nat.sub_self, pow_zero, mul_one]

end Order

/-- The order of two slots is that of their starts, and no two slots are equal in it. -/
def Chronological (t u : SlotTime) : Prop :=
  (t.order u = .ok .eq ↔ t = u) ∧ (t.order u = .ok .lt → t.start < u.start)

section Chronological

variable {t u : SlotTime} (ht : t.InRange) (hu : u.InRange)

include ht hu

theorem chronological_of_same (hsame : t.numerology = u.numerology) : t.Chronological u := by
  refine ⟨⟨fun heq => ?_, fun heq => ?_⟩, fun hlt => ?_⟩
  · rw [order_eq (Nat.lt_succ_of_le ht.numerology) (Nat.lt_succ_of_le hu.numerology),
      Except.ok.injEq, Nat.compare_eq_eq] at heq
    exact eq_of_slots_eq ht hu hsame heq
  · rw [order_eq_starts ht hu hsame, heq, compare_eq_iff_eq.mpr rfl]
  · rw [order_eq_starts ht hu hsame, Except.ok.injEq, compare_lt_iff_lt] at hlt
    exact hlt

/-- A finer slot is counted in more slots than one that starts with it: what it comes before in the order
starts later, and only equal counts are in the way. -/
theorem chronological_of_finer_iff (hfiner : u.numerology < t.numerology) : t.Chronological u ↔
    t.start * 2 ^ (t.numerology.toNat - u.numerology.toNat) ≠ u.start := by
  have hne : t ≠ u := fun heq => UInt8.ne_of_lt hfiner (congrArg numerology heq).symm
  have hscale : t.start ≤ t.start * 2 ^ (t.numerology.toNat - u.numerology.toNat) :=
    le_mul_of_one_le_right t.start_nonneg (one_le_pow₀ one_le_two)
  rw [Chronological, order_eq_of_finer ht hu (UInt8.le_of_lt hfiner), Except.ok.injEq, Except.ok.injEq,
    compare_eq_iff_eq, compare_lt_iff_lt, iff_false_right hne]
  exact ⟨And.left, fun hcounts => ⟨hcounts, hscale.trans_lt⟩⟩

theorem chronological_of_coarser_iff (hcoarser : t.numerology < u.numerology) : t.Chronological u ↔
    t.start < u.start ∨
      u.start * 2 ^ (u.numerology.toNat - t.numerology.toNat) < t.start := by
  have hne : t ≠ u := fun heq => UInt8.ne_of_lt hcoarser (congrArg numerology heq)
  have hscale : u.start ≤ u.start * 2 ^ (u.numerology.toNat - t.numerology.toNat) :=
    le_mul_of_one_le_right u.start_nonneg (one_le_pow₀ one_le_two)
  rw [Chronological, order_eq_of_coarser ht hu (UInt8.le_of_lt hcoarser), Except.ok.injEq, Except.ok.injEq,
    compare_eq_iff_eq, compare_lt_iff_lt, iff_false_right hne]
  constructor
  · rintro ⟨hcounts, hstarts⟩
    exact (lt_or_gt_of_ne hcounts).imp_left hstarts
  · rintro (hfirst | hlast)
    · exact ⟨(hfirst.trans_le hscale).ne, fun _ => hfirst⟩
    · exact ⟨hlast.ne', fun hlt => absurd hlt hlast.asymm⟩

end Chronological

theorem inSlotOrder_chronological {cs : List Candidate} (h : ∀ c ∈ cs, c.time.InRange)
    (hpairs : ∀ a ∈ cs, ∀ b ∈ cs, a.time.Chronological b.time) :
    ∃ l, Sidelink.inSlotOrder cs = .ok l ∧ l.Perm cs ∧
      l.Pairwise fun a b => a.time.start ≤ b.time.start := by
  have hperm : (Sidelink.bySlot cs).Perm cs := List.mergeSort_perm cs _
  have hcounted : ∀ c ∈ cs, c.time.numerology.toNat < 8 :=
    fun c hc => Nat.lt_succ_of_le (h c hc).numerology
  refine ⟨_, Sidelink.inSlotOrder_eq hcounted, hperm, ?_⟩
  refine (Sidelink.pairwise_bySlot cs).imp_of_mem fun {a b} ha hb hle => ?_
  rw [hperm.mem_iff] at ha hb
  obtain ⟨hequal, hless⟩ := hpairs a ha b hb
  rw [order_eq (hcounted a ha) (hcounted b hb), Except.ok.injEq] at hequal hless
  rcases Nat.lt_or_eq_of_le hle with hlt | heq
  · exact (hless (Nat.compare_eq_lt.mpr hlt)).le
  · exact (congrArg start (hequal.mp (Nat.compare_eq_eq.mpr heq))).le

/-- The order compares counts. It agrees with equality and with the starts in one numerology; for slots
of two numerologies, exactly where the starts lie apart as the scale between the numerologies asks; and
where it agrees for all pairs of candidates, they are sorted by their starts. -/
theorem slots_ordered_by_count {t u : SlotTime} (ht : t.InRange) (hu : u.InRange) :
    t.order u =
      .ok (compare (t.start * 2 ^ t.numerology.toNat) (u.start * 2 ^ u.numerology.toNat)) ∧
    (t.numerology = u.numerology → t.Chronological u) ∧
    (u.numerology < t.numerology → (t.Chronological u ↔
      t.start * 2 ^ (t.numerology.toNat - u.numerology.toNat) ≠ u.start)) ∧
    (t.numerology < u.numerology → (t.Chronological u ↔
      t.start < u.start ∨
        u.start * 2 ^ (u.numerology.toNat - t.numerology.toNat) < t.start)) ∧
    ∀ cs : List Candidate, (∀ c ∈ cs, c.time.InRange) →
      (∀ a ∈ cs, ∀ b ∈ cs, a.time.Chronological b.time) →
      ∃ l, Sidelink.inSlotOrder cs = .ok l ∧ l.Perm cs ∧
        l.Pairwise fun a b => a.time.start ≤ b.time.start :=
  ⟨order_eq_counts ht hu, chronological_of_same ht hu, chronological_of_finer_iff ht hu,
    chronological_of_coarser_iff ht hu, fun _ => inSlotOrder_chronological⟩

theorem slots_ordered_by_count_sample :
    (Chronological ⟨0, 1, 0, 1⟩ ⟨0, 0, 1, 1⟩ ∧ order ⟨0, 1, 0, 1⟩ ⟨0, 0, 1, 1⟩ = .ok .gt) ∧
    (Chronological ⟨0, 0, 1, 1⟩ ⟨0, 2, 0, 0⟩ ∧ order ⟨0, 0, 1, 1⟩ ⟨0, 2, 0, 0⟩ = .ok .lt) ∧
    (Chronological ⟨0, 2, 0, 0⟩ ⟨0, 0, 1, 1⟩ ∧ order ⟨0, 2, 0, 0⟩ ⟨0, 0, 1, 1⟩ = .ok .gt) ∧
    ∃ l, Sidelink.inSlotOrder [⟨⟨1, 0, 0, 1⟩, 0, 1, 14⟩, ⟨⟨0, 9, 1, 1⟩, 0, 1, 14⟩,
        ⟨⟨0, 9, 0, 1⟩, 0, 1, 14⟩] = .ok l ∧ l.length = 3 ∧
      l.Pairwise fun a b => a.time.start ≤ b.time.start := by
  have hone : (1 : UInt8).toNat = 1 := rfl
  have htwo : (2 : UInt8).toNat = 2 := rfl
  have hhalf : InRange ⟨0, 0, 1, 1⟩ := by decide
  have hwhole : InRange ⟨0, 2, 0, 0⟩ := by decide
  obtain ⟨-, hsame, -, -, hsort⟩ := slots_ordered_by_count (t := ⟨0, 1, 0, 1⟩) (by decide) hhalf
  obtain ⟨-, -, hfiner, -, -⟩ := slots_ordered_by_count hhalf hwhole
  obtain ⟨-, -, -, hcoarser, -⟩ := slots_ordered_by_count hwhole hhalf
  refine ⟨⟨hsame rfl, by decide⟩, ⟨(hfiner (by decide)).mpr ?_, by decide⟩,
    ⟨(hcoarser (by decide)).mpr ?_, by decide⟩, ?_⟩
  · norm_num [start, hone, htwo]
  · norm_num [start, hone, htwo]
  · obtain ⟨l, hl, hperm, hsorted⟩ := hsort [⟨⟨1, 0, 0, 1⟩, 0, 1, 14⟩, ⟨⟨0, 9, 1, 1⟩, 0, 1, 14⟩,
      ⟨⟨0, 9, 0, 1⟩, 0, 1, 14⟩] (by decide) fun a ha b hb =>
        (slots_ordered_by_count (by revert a; decide) (by revert b; decide)).2.1
          (by revert a b; decide)
    exact ⟨l, hl, hperm.length_eq, hsorted⟩

/-- Across numerologies the order knows neither which slots are the same nor which starts first: a slot
that starts after one millisecond is taken for one that starts after half of it, and comes before
another. -/
theorem numerologies_are_mixed_up :
    (∀ t ∈ [⟨0, 1, 0, 0⟩, ⟨0, 0, 1, 1⟩, (⟨0, 0, 2, 2⟩ : SlotTime)], t.InRange) ∧
    (order ⟨0, 1, 0, 0⟩ ⟨0, 0, 1, 1⟩ = .ok .eq ∧ (⟨0, 1, 0, 0⟩ : SlotTime) ≠ ⟨0, 0, 1, 1⟩) ∧
    (order ⟨0, 1, 0, 0⟩ ⟨0, 0, 2, 2⟩ = .ok .lt ∧ start ⟨0, 0, 2, 2⟩ < start ⟨0, 1, 0, 0⟩) := by
  have hone : (1 : UInt8).toNat = 1 := rfl
  have htwo : (2 : UInt8).toNat = 2 := rfl
  refine ⟨by decide, by decide, by decide, ?_⟩
  norm_num [start, hone, htwo]

end SlotTime

end Airtime
