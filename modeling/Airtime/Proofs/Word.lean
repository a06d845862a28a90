import Airtime.Arithmetic
import Airtime.Proofs.Outcome
import Mathlib.Algebra.Order.BigOperators.Group.List
import Mathlib.Algebra.Order.Ring.Nat

/-! Words read as naturals, and the sum of a list of words: it succeeds exactly when the exact sum
fits. -/

namespace Airtime

/-- A part is no more than the sum of all parts. -/
theorem le_sum_map {α : Type} {l : List α} (f : α → Nat) {a : α} (ha : a ∈ l) :
    f a ≤ (l.map f).sum :=
  List.le_sum_of_mem (List.mem_map_of_mem ha)

namespace Word

@[simp] theorem toNat_uint8 (w : UInt8) : toNat w = w.toNat := rfl

@[simp] theorem toNat_uint32 (w : UInt32) : toNat w = w.toNat := rfl

@[simp] theorem size_uint8 : size UInt8 = UInt8.size := rfl

@[simp] theorem size_uint32 : size UInt32 = UInt32.size := rfl

theorem toNat_pos {a : UInt32} (h : a ≠ 0) : 0 < a.toNat :=
  UInt32.lt_iff_toNat_lt.mp (UInt32.pos_iff_ne_zero.mpr h)

theorem toNat_min (a b : UInt32) : (min a b).toNat = min a.toNat b.toNat := by
  change (if a ≤ b then a else b).toNat = _
  split
  · next h =>
    rw [UInt32.le_iff_toNat_le] at h
    omega
  · next h =>
    rw [UInt32.le_iff_toNat_le] at h
    omega

theorem toNat_max (a b : UInt32) : (max a b).toNat = max a.toNat b.toNat := by
  change (if a ≤ b then b else a).toNat = _
  split
  · next h =>
    rw [UInt32.le_iff_toNat_le] at h
    omega
  · next h =>
    rw [UInt32.le_iff_toNat_le] at h
    omega

theorem sub_ok_iff {a b c : UInt32} : sub a b = .ok c ↔ b ≤ a ∧ c = a - b := by
  rw [sub_eq_ok, UInt32.le_iff_toNat_le, ← UInt32.toNat_inj]
  simp only [toNat_uint32]
  constructor
  · intro h
    have hle : b.toNat ≤ a.toNat := by omega
    refine ⟨hle, ?_⟩
    rw [UInt32.toNat_sub_of_le _ _ (UInt32.le_iff_toNat_le.mpr hle)]
    omega
  · rintro ⟨hle, h⟩
    rw [UInt32.toNat_sub_of_le _ _ (UInt32.le_iff_toNat_le.mpr hle)] at h
    omega

theorem div_ok_iff {a b c : UInt32} : div a b = .ok c ↔ b ≠ 0 ∧ c = a / b := by
  rw [div_eq_ok, ne_eq, ne_eq, ← UInt32.toNat_inj, ← UInt32.toNat_inj (a := c), UInt32.toNat_div]
  rfl

variable {ω : Type} [Word ω]

theorem mod_eq_ok {a b c : ω} : mod a b = .ok c ↔ toNat b ≠ 0 ∧ toNat c = toNat a % toNat b := by
  have hlt : toNat a % toNat b < size ω := Nat.lt_of_le_of_lt (Nat.mod_le _ _) (toNat_lt a)
  unfold mod
  split
  · next h0 => simp [h0]
  · next h0 =>
    rw [Except.ok.injEq]
    refine ⟨fun h => ⟨h0, h ▸ toNat_ofNat _ hlt⟩, fun ⟨_, h⟩ => ?_⟩
    exact toNat_inj _ _ (by rw [toNat_ofNat _ hlt, h])

theorem exists_toNat {n : Nat} {w : ω} (h : n ≤ toNat w) : ∃ m : ω, toNat m = n :=
  ⟨ofNat n, toNat_ofNat n (Nat.lt_of_le_of_lt h (toNat_lt w))⟩

theorem toNat_subSat (a b : ω) : toNat (subSat a b) = toNat a - toNat b :=
  toNat_ofNat _ (lt_of_le_of_lt (Nat.sub_le _ _) (toNat_lt a))

theorem toNat_addSat (a b : ω) : toNat (addSat a b) = min (toNat a + toNat b) (size ω - 1) := by
  have hlt := toNat_lt a
  exact toNat_ofNat _ (by omega)

theorem foldlM_add_ok_iff {ws : List ω} {a n : ω} :
    ws.foldlM add a = .ok n ↔ toNat n = toNat a + (ws.map toNat).sum := by
  induction ws generalizing a with
  | nil =>
    simp only [List.foldlM_nil, pure_ok_iff, List.map_nil, List.sum_nil, Nat.add_zero]
    exact ⟨fun h => h ▸ rfl, fun h => (toNat_inj _ _ h).symm⟩
  | cons w ws ih =>
    simp only [List.foldlM_cons, bind_ok_iff, add_eq_ok, ih, List.map_cons, List.sum_cons]
    constructor
    · rintro ⟨b, hb, hn⟩
      omega
    · intro hn
      obtain ⟨b, hb⟩ := exists_toNat (n := toNat a + toNat w) (w := n) (by omega)
      exact ⟨b, hb, by omega⟩

theorem sum_ok_iff {ws : List ω} {n : ω} : sum ws = .ok n ↔ toNat n = (ws.map toNat).sum := by
  have hzero : toNat (ofNat 0 : ω) = 0 := by
    refine toNat_ofNat 0 (Nat.lt_of_le_of_lt (Nat.zero_le _) (toNat_lt n))
  rw [sum, foldlM_add_ok_iff, hzero, Nat.zero_add]

/-- The sum of words that are computed one by one. -/
theorem sum_mapM_ok_iff {α : Type} {f : α → Except Fault ω} {g : α → Nat} {l : List α} {n : ω}
    (hf : ∀ a w, f a = .ok w ↔ toNat w = g a) :
    (do sum (← l.mapM f)) = .ok n ↔ toNat n = (l.map g).sum := by
  rw [bind_ok_iff]
  constructor
  · rintro ⟨ws, hws, hn⟩
    rw [sum_ok_iff.mp hn, map_eq_of_forall₂ (mapM_ok_iff.mp hws) fun a w => (hf a w).mp]
  · intro hn
    have hfits : ∀ a ∈ l, toNat (ofNat (g a) : ω) = g a := by
      intro a ha
      have hle : g a ≤ toNat n := hn ▸ le_sum_map g ha
      exact toNat_ofNat _ (Nat.lt_of_le_of_lt hle (toNat_lt n))
    refine ⟨l.map fun a => ofNat (g a), mapM_ok_iff.mpr ?_, sum_ok_iff.mpr ?_⟩
    · rw [List.forall₂_map_right_iff, List.forall₂_same]
      exact fun a ha => (hf a _).mpr (hfits a ha)
    · rw [hn, List.map_map]
      exact congrArg List.sum (List.map_congr_left fun a ha => (hfits a ha).symm)

end Word

end Airtime
