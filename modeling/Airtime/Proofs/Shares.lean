import Airtime.Proofs.AllocationRange
import Airtime.Proofs.Tally
import Mathlib

/-! Symbols in proportion to weights, by largest remainders. `Apportioned` says what a split is without
saying how it is made, and says enough that there is only one (`Apportioned.unique`); so the order in
which the beams are listed makes no difference. -/

namespace Airtime

def allWeights (weights : List (BeamId × UInt64)) : Nat := (weights.map fun w => w.2.toNat).sum

/-- `total` symbols, split among beams in proportion to their weights. -/
structure Apportioned (total : UInt32) (weights : List (BeamId × UInt64)) (t : BeamSymbols) :
    Prop where
  listed : ∀ beam, t.contains beam = true ↔ beam ∈ weights.map Prod.fst
  nothing : allWeights weights = 0 → t.sum = 0
  spent : allWeights weights ≠ 0 → t.sum = total.toNat
  idle : ∀ w ∈ weights, w.2 = 0 → t.of w.1 = 0
  /-- A beam gets its exact share, rounded down or up. -/
  rounded : ∀ w ∈ weights,
    (t.of w.1).toNat = total.toNat * w.2.toNat / allWeights weights ∨
      (t.of w.1).toNat = total.toNat * w.2.toNat ⌈/⌉ allWeights weights
  /-- One that gets a symbol above its floor has a larger remainder than one of some weight that does
  not, or the same remainder and a lower number. -/
  ranked : ∀ a ∈ weights, ∀ b ∈ weights, b.2 ≠ 0 →
    (t.of a.1).toNat = total.toNat * a.2.toNat / allWeights weights + 1 →
    (t.of b.1).toNat ≠ total.toNat * b.2.toNat / allWeights weights + 1 →
    total.toNat * b.2.toNat % allWeights weights < total.toNat * a.2.toNat % allWeights weights ∨
      total.toNat * b.2.toNat % allWeights weights = total.toNat * a.2.toNat % allWeights weights ∧
        a.1.value < b.1.value

theorem ceilDiv_le_succ (n k : Nat) : n ⌈/⌉ k ≤ n / k + 1 := by
  rcases Nat.eq_zero_or_pos k with rfl | hk
  · simp
  · rw [ceilDiv_le_iff_le_mul hk]
    exact (Nat.lt_mul_div_succ n hk).le

theorem succ_div_eq_ceilDiv {n k : Nat} (hk : 0 < k) (h : n % k ≠ 0) : n / k + 1 = n ⌈/⌉ k := by
  apply le_antisymm
  · by_contra hlt
    have hle := (ceilDiv_le_iff_le_mul hk).mp (Nat.le_of_lt_succ (not_le.mp hlt))
    have hdivided := Nat.div_add_mod n k
    omega
  · exact ceilDiv_le_succ n k

namespace BeamSymbols

theorem sum_of_listed {t : BeamSymbols} {beams : List BeamId} (hb : beams.Nodup)
    (h : ∀ beam, t.contains beam = true ↔ beam ∈ beams) :
    (beams.map fun b => (t.of b).toNat).sum = t.sum := by
  have hperm : t.keys.Perm beams := (List.perm_ext_iff_of_nodup t.keys_nodup hb).mpr fun beam => by
    rw [← Table.contains_iff, h]
  have hkeys : (t.keys.map fun b => (t.of b).toNat) = t.values.map UInt32.toNat := by
    rw [Table.keys, Table.values, List.map_map, List.map_map]
    refine List.map_congr_left fun e he => ?_
    have hget := Table.mem_entries.mp he
    simp only [Function.comp_apply, of, hget, Option.getD_some]
  rw [← (hperm.map _).sum_eq, hkeys]
  rfl

end BeamSymbols

namespace Apportioned

variable {total : UInt32} {weights weights' : List (BeamId × UInt64)} {t t' : BeamSymbols}

theorem floor_le (h : Apportioned total weights t) {w : BeamId × UInt64} (hw : w ∈ weights) :
    total.toNat * w.2.toNat / allWeights weights ≤ (t.of w.1).toNat := by
  rcases h.rounded w hw with hfloor | hceil
  · exact hfloor.ge
  · rw [hceil]
    exact Nat.floorDiv_eq_div _ _ ▸ floorDiv_le_ceilDiv

theorem le_floor_succ (h : Apportioned total weights t) {w : BeamId × UInt64} (hw : w ∈ weights) :
    (t.of w.1).toNat ≤ total.toNat * w.2.toNat / allWeights weights + 1 := by
  rcases h.rounded w hw with hfloor | hceil
  · exact hfloor.le.trans (Nat.le_succ _)
  · rw [hceil]
    exact ceilDiv_le_succ _ _

theorem sum_eq (h : Apportioned total weights t) (h' : Apportioned total weights t') :
    t.sum = t'.sum := by
  by_cases h0 : allWeights weights = 0
  · rw [h.nothing h0, h'.nothing h0]
  · rw [h.spent h0, h'.spent h0]

/-- One split gives no beam more than another one does: it would have to give less to a second beam, and
then each of the two beams comes before the other. -/
theorem not_lt (hbeams : (weights.map Prod.fst).Nodup) (h : Apportioned total weights t)
    (h' : Apportioned total weights t') {a : BeamId × UInt64} (ha : a ∈ weights) :
    ¬ (t.of a.1).toNat < (t'.of a.1).toNat := by
  intro hlt
  have hsum := BeamSymbols.sum_of_listed hbeams h.listed
  have hsum' := BeamSymbols.sum_of_listed hbeams h'.listed
  rw [List.map_map] at hsum hsum'
  obtain ⟨b, hb, hgt⟩ : ∃ b ∈ weights, (t'.of b.1).toNat < (t.of b.1).toNat := by
    by_contra hnone
    push Not at hnone
    have hless := List.sum_lt_sum (fun w : BeamId × UInt64 => (t.of w.1).toNat)
      (fun w => (t'.of w.1).toNat) hnone ⟨a, ha, hlt⟩
    exact absurd (h.sum_eq h') (by rw [← hsum, ← hsum']; exact hless.ne)
  have ha0 : a.2 ≠ 0 := fun h0 => by simp [h'.idle a ha h0] at hlt
  have hb0 : b.2 ≠ 0 := fun h0 => by simp [h.idle b hb h0] at hgt
  have hfloor := h.floor_le ha
  have hfloor' := h'.floor_le hb
  have hceil := h.le_floor_succ hb
  have hceil' := h'.le_floor_succ ha
  have hba := h.ranked b hb a ha ha0 (by omega) (by omega)
  have hab := h'.ranked a ha b hb hb0 (by omega) (by omega)
  simp only [UInt16.lt_iff_toNat_lt] at hba hab
  omega

theorem unique (hbeams : (weights.map Prod.fst).Nodup) (h : Apportioned total weights t)
    (h' : Apportioned total weights t') : t = t' := by
  refine Table.ext_get? fun beam => ?_
  by_cases hbeam : beam ∈ weights.map Prod.fst
  · obtain ⟨w, hw, rfl⟩ := List.mem_map.mp hbeam
    have hof : t.of w.1 = t'.of w.1 := by
      have hle := h.not_lt hbeams h' hw
      have hge := h'.not_lt hbeams h hw
      exact UInt32.toNat_inj.mp (by omega)
    have hin := (h.listed w.1).mpr hbeam
    have hin' := (h'.listed w.1).mpr hbeam
    obtain ⟨n, hn⟩ := Option.isSome_iff_exists.mp hin
    obtain ⟨n', hn'⟩ := Option.isSome_iff_exists.mp hin'
    rw [BeamSymbols.of, BeamSymbols.of, hn, hn'] at hof
    rw [hn, hn']
    exact congrArg some hof
  · have hout := mt (h.listed beam).mp hbeam
    have hout' := mt (h'.listed beam).mp hbeam
    rw [Table.contains, Option.isSome_iff_ne_none, not_not] at hout hout'
    rw [hout, hout']

theorem perm (h : Apportioned total weights t) (hp : weights'.Perm weights) :
    Apportioned total weights' t := by
  have hall : allWeights weights' = allWeights weights := (hp.map _).sum_eq
  constructor
  · exact fun beam => (h.listed beam).trans (hp.map _).mem_iff.symm
  · exact fun h0 => h.nothing (hall ▸ h0)
  · exact fun h0 => h.spent (hall ▸ h0)
  · exact fun w hw => h.idle w (hp.mem_iff.mp hw)
  · intro w hw
    rw [hall]
    exact h.rounded w (hp.mem_iff.mp hw)
  · intro a ha b hb
    rw [hall]
    exact h.ranked a (hp.mem_iff.mp ha) b (hp.mem_iff.mp hb)

end Apportioned

namespace Quota

variable {total : UInt32} {sum : UInt64} {w : BeamId × UInt64} {q : Quota}

theorem of_frame (h : of total sum w = .ok q) : q.beam = w.1 ∧ q.weight = w.2 := by
  simp only [of, bind_ok_iff, pure_ok_iff] at h
  obtain ⟨_, -, _, -, _, -, rfl⟩ := h
  exact ⟨rfl, rfl⟩

theorem toNat_remainder (h : of total sum w = .ok q) :
    q.remainder.toNat = total.toNat * w.2.toNat % sum.toNat := by
  simp only [of, bind_ok_iff, pure_ok_iff] at h
  obtain ⟨exact, hexact, _, -, remainder, hremainder, rfl⟩ := h
  have hexact : exact.toNat = total.toUInt64.toNat * w.2.toNat := Word.mul_eq_ok.mp hexact
  have hremainder : remainder.toNat = exact.toNat % sum.toNat := (Word.mod_eq_ok.mp hremainder).2
  rw [hremainder, hexact, UInt32.toNat_toUInt64]

theorem before_iff {a b : Quota} : a.before b = true ↔
    b.remainder.toNat < a.remainder.toNat ∨
      a.remainder.toNat = b.remainder.toNat ∧ a.beam.value.toNat ≤ b.beam.value.toNat := by
  simp only [before, Bool.or_eq_true, Bool.and_eq_true, decide_eq_true_eq, beq_iff_eq,
    UInt64.lt_iff_toNat_lt, UInt16.le_iff_toNat_le, UInt64.toNat_inj]

end Quota

section Ranked

variable {quotas : List Quota}

theorem mem_ranked {q : Quota} : q ∈ ranked quotas ↔ q ∈ quotas ∧ q.weight ≠ 0 := by
  rw [ranked, (List.mergeSort_perm _ _).mem_iff, List.mem_filter, bne_iff_ne]

theorem pairwise_ranked (quotas : List Quota) :
    (ranked quotas).Pairwise fun a b => a.before b = true := by
  apply List.pairwise_mergeSort
  · intro a b c hab hbc
    rw [Quota.before_iff] at *
    omega
  · intro a b
    rw [Bool.or_eq_true, Quota.before_iff, Quota.before_iff]
    omega

theorem nodup_ranked (hbeams : (quotas.map Quota.beam).Nodup) :
    ((ranked quotas).map Quota.beam).Nodup :=
  ((List.mergeSort_perm _ _).map _).nodup_iff.mpr (hbeams.sublist (List.filter_sublist.map _))

theorem before_of_served {n : Nat} {a b : Quota} (ha : a ∈ (ranked quotas).take n)
    (hb : b ∈ ranked quotas) (hunserved : b ∉ (ranked quotas).take n) : a.before b = true := by
  have hsorted := pairwise_ranked quotas
  rw [← List.take_append_drop n (ranked quotas)] at hsorted hb
  refine (List.pairwise_append.mp hsorted).2.2 a ha b ?_
  exact (List.mem_append.mp hb).resolve_left hunserved

/-- As long as there are enough remainders, only they are served. -/
theorem remainder_ne_zero {n : Nat} (hn : n ≤ (ranked quotas).countP (·.remainder != 0))
    {q : Quota} (hq : q ∈ (ranked quotas).take n) : q.remainder ≠ 0 := by
  intro h0
  have hlt : ((ranked quotas).take n).countP (·.remainder != 0) < ((ranked quotas).take n).length :=
    List.countP_lt_length_iff.mpr ⟨q, hq, by simp [h0]⟩
  have hrest : ((ranked quotas).drop n).countP (·.remainder != 0) = 0 := by
    refine List.countP_eq_zero.mpr fun b hb => ?_
    have hsorted := pairwise_ranked quotas
    rw [← List.take_append_drop n (ranked quotas)] at hsorted
    have hbefore := (List.pairwise_append.mp hsorted).2.2 q hq b hb
    rw [Quota.before_iff, h0, UInt64.toNat_zero] at hbefore
    have hzero : b.remainder = 0 := UInt64.toNat_inj.mp (by rw [UInt64.toNat_zero]; omega)
    simp [hzero]
  have htake := List.length_take_le n (ranked quotas)
  rw [← List.take_append_drop n (ranked quotas), List.countP_append, hrest] at hn
  omega

end Ranked

section HandedOut

variable {total : UInt32} {sum : UInt64} {weights : List (BeamId × UInt64)} {quotas : List Quota}
  {spare : Nat} {floors t : BeamSymbols}

theorem sum_remainder_le (quotas : List Quota) {m : Nat} (h : ∀ q ∈ quotas, q.remainder.toNat ≤ m) :
    (quotas.map (·.remainder.toNat)).sum ≤ quotas.countP (·.remainder != 0) * m := by
  induction quotas with
  | nil => simp
  | cons q quotas ih =>
    have hrest := ih fun q hq => h q (List.mem_cons_of_mem _ hq)
    have hq := h q List.mem_cons_self
    rw [List.map_cons, List.sum_cons, List.countP_cons]
    by_cases h0 : q.remainder = 0
    · simpa [h0] using hrest
    · simp only [bne_iff_ne, ne_eq, h0, not_false_eq_true, if_true, Nat.add_mul, Nat.one_mul]
      omega

theorem countP_ranked (h : ∀ q ∈ quotas, q.weight = 0 → q.remainder = 0) :
    (ranked quotas).countP (·.remainder != 0) = quotas.countP (·.remainder != 0) := by
  rw [ranked, (List.mergeSort_perm _ _).countP_eq, List.countP_filter]
  refine List.countP_congr fun q hq => ?_
  simp only [Bool.and_eq_true, bne_iff_ne]
  exact ⟨And.left, fun hr => ⟨hr, fun hw => hr (h q hq hw)⟩⟩

theorem quota_of_mem (hquotas : weights.mapM (Quota.of total sum) = .ok quotas)
    (hsum : sum.toNat = allWeights weights) {w : BeamId × UInt64} (hw : w ∈ weights) :
    ∃ q ∈ quotas, q.beam = w.1 ∧ q.weight = w.2 ∧
      q.floor.toNat = total.toNat * w.2.toNat / allWeights weights ∧
      q.remainder.toNat = total.toNat * w.2.toNat % allWeights weights := by
  obtain ⟨q, hq, hof⟩ := exists_of_mapM_ok hquotas hw
  obtain ⟨hbeam, hweight⟩ := Quota.of_frame hof
  have hle : w.2.toNat ≤ sum.toNat := hsum ▸ le_sum_map (fun w => w.2.toNat) hw
  refine ⟨q, hq, hbeam, hweight, ?_, ?_⟩
  · rw [Quota.toNat_floor hle hof, hsum]
  · rw [Quota.toNat_remainder hof, hsum]

theorem beams_of_quotas (hquotas : weights.mapM (Quota.of total sum) = .ok quotas) :
    quotas.map Quota.beam = weights.map Prod.fst :=
  map_eq_of_forall₂ (mapM_ok_iff.mp hquotas) fun _ _ hof => (Quota.of_frame hof).1

theorem spare_le (hquotas : weights.mapM (Quota.of total sum) = .ok quotas)
    (hsum : sum.toNat = allWeights weights) (h0 : sum ≠ 0)
    (hspare : total.toNat = spare + (quotas.map (·.floor.toNat)).sum) :
    spare ≤ (ranked quotas).countP (·.remainder != 0) := by
  have hpos : 0 < sum.toNat := Nat.pos_of_ne_zero fun h => h0 (UInt64.toNat_inj.mp h)
  have hle : ∀ w ∈ weights, w.2.toNat ≤ sum.toNat := fun w hw =>
    hsum ▸ le_sum_map (fun w => w.2.toNat) hw
  have hof := (List.forall₂_and_left _ _).mpr ⟨hle, mapM_ok_iff.mp hquotas⟩
  have hfloors : quotas.map (·.floor.toNat) =
      (weights.map (·.2.toNat)).map fun w => total.toNat * w / sum.toNat := by
    rw [List.map_map]
    exact map_eq_of_forall₂ hof fun w q hq => Quota.toNat_floor hq.1 hq.2
  have hremainders : quotas.map (·.remainder.toNat) =
      (weights.map (·.2.toNat)).map fun w => total.toNat * w % sum.toNat := by
    rw [List.map_map]
    exact map_eq_of_forall₂ hof fun w q hq => Quota.toNat_remainder hq.2
  have hwhole := sum_div_add_mod total.toNat sum.toNat (weights.map (·.2.toNat))
  rw [← hfloors, ← hremainders] at hwhole
  have hlt : ∀ q ∈ quotas, q.remainder.toNat ≤ sum.toNat := by
    intro q hq
    obtain ⟨w, -, hof⟩ := (mem_mapM_ok hquotas).mp hq
    rw [Quota.toNat_remainder hof]
    exact (Nat.mod_lt _ hpos).le
  have hidle : ∀ q ∈ quotas, q.weight = 0 → q.remainder = 0 := by
    intro q hq hw0
    obtain ⟨w, -, hof⟩ := (mem_mapM_ok hquotas).mp hq
    refine UInt64.toNat_inj.mp ?_
    rw [Quota.toNat_remainder hof, ← (Quota.of_frame hof).2, hw0]
    simp
  -- Each remainder is less than the sum of the weights, and what is spare is all of them, taken for it.
  have hcount := sum_remainder_le quotas hlt
  rw [countP_ranked hidle]
  refine Nat.le_of_mul_le_mul_right ?_ hpos
  calc spare * sum.toNat
      = (quotas.map (·.remainder.toNat)).sum := by
        have hall : total.toNat * sum.toNat = total.toNat * (weights.map (·.2.toNat)).sum :=
          congrArg _ hsum
        rw [← hall, hspare, Nat.add_mul] at hwhole
        omega
    _ ≤ quotas.countP (·.remainder != 0) * sum.toNat := hcount

theorem toNat_of_handedOut (hbeams : (quotas.map Quota.beam).Nodup)
    (hfloors : quotas.foldlM (fun (t : BeamSymbols) q => t.give q.beam q.floor)
      (noSymbols weights) = .ok floors)
    (h : ((ranked quotas).take spare).foldlM (fun (t : BeamSymbols) q => t.give q.beam 1) floors =
      .ok t) {q : Quota} (hq : q ∈ quotas) :
    (q ∈ (ranked quotas).take spare → (t.of q.beam).toNat = q.floor.toNat + 1) ∧
      (q ∉ (ranked quotas).take spare → (t.of q.beam).toNat = q.floor.toNat) := by
  have hfloor := BeamSymbols.toNat_of_foldlM_give hfloors q.beam
  have hone := BeamSymbols.toNat_of_foldlM_give (n := fun _ => 1) h q.beam
  rw [filter_of_nodup hbeams hq, of_noSymbols] at hfloor
  simp only [UInt32.toNat_zero, List.map_cons, List.map_nil, List.sum_cons, List.sum_nil] at hfloor
  have hnodup : (((ranked quotas).take spare).map Quota.beam).Nodup :=
    (nodup_ranked hbeams).sublist ((List.take_sublist _ _).map _)
  constructor
  · intro hserved
    rw [filter_of_nodup hnodup hserved] at hone
    simp only [UInt32.toNat_one, List.map_cons, List.map_nil, List.sum_cons, List.sum_nil] at hone
    omega
  · intro hunserved
    have hnone : ((ranked quotas).take spare).filter (·.beam = q.beam) = [] := by
      refine List.filter_eq_nil_iff.mpr fun b hb hsame => hunserved ?_
      have hmem := (mem_ranked.mp (List.mem_of_mem_take hb)).1
      rwa [← List.inj_on_of_nodup_map hbeams hmem hq (of_decide_eq_true hsame)]
    rw [hnone] at hone
    simp only [List.map_nil, List.sum_nil] at hone
    omega

theorem BeamSymbols.contains_of_foldlM_give {α : Type} {beam : α → BeamId} {n : α → UInt32}
    {l : List α} {t t' : BeamSymbols}
    (h : l.foldlM (fun (t : BeamSymbols) a => t.give (beam a) (n a)) t = .ok t') (other : BeamId) :
    t'.contains other = true ↔ t.contains other = true ∨ other ∈ l.map beam := by
  induction l generalizing t with
  | nil =>
    cases pure_ok_iff.mp h
    simp
  | cons a l ih =>
    simp only [List.foldlM_cons, bind_ok_iff, give, pure_ok_iff] at h
    obtain ⟨_, ⟨m, -, rfl⟩, h⟩ := h
    rw [ih h, Table.contains, Table.get?_insert_if, List.map_cons, List.mem_cons, ← or_assoc]
    refine or_congr_left ?_
    by_cases ha : other = beam a
    · simp [ha]
    · simp [ha, Table.contains]

theorem contains_noSymbols (weights : List (BeamId × UInt64)) (beam : BeamId) :
    (noSymbols weights).contains beam = true ↔ beam ∈ weights.map Prod.fst := by
  rw [Table.contains, get?_noSymbols]
  split
  · next h => simpa using h
  · next h => simpa using h

theorem apportioned_noSymbols (h : allWeights weights = 0 ∨ total = 0) :
    Apportioned total weights (noSymbols weights) := by
  constructor
  · exact contains_noSymbols weights
  · exact fun _ => sum_noSymbols weights
  · intro h0
    rw [sum_noSymbols, h.resolve_left h0, UInt32.toNat_zero]
  · exact fun w _ _ => of_noSymbols weights w.1
  · intro w _
    left
    rw [of_noSymbols, UInt32.toNat_zero]
    rcases h with h0 | rfl
    · rw [h0, Nat.div_zero]
    · rw [UInt32.toNat_zero, Nat.zero_mul, Nat.zero_div]
  · intro a _ b _ _ ha
    rw [of_noSymbols, UInt32.toNat_zero] at ha
    cases ha

/-- What is left after the floors goes to as many beams, and to those with the largest remainders. -/
theorem apportioned_of_handedOut (hbeams : (weights.map Prod.fst).Nodup)
    (hsum : sum.toNat = allWeights weights) (h0 : sum ≠ 0)
    (hquotas : weights.mapM (Quota.of total sum) = .ok quotas)
    (hspare : total.toNat = spare + (quotas.map (·.floor.toNat)).sum)
    (hfloors : quotas.foldlM (fun (t : BeamSymbols) q => t.give q.beam q.floor)
      (noSymbols weights) = .ok floors)
    (h : ((ranked quotas).take spare).foldlM (fun (t : BeamSymbols) q => t.give q.beam 1) floors =
      .ok t) : Apportioned total weights t := by
  have hnames := beams_of_quotas hquotas
  have hnodup : (quotas.map Quota.beam).Nodup := hnames ▸ hbeams
  have hpos : 0 < allWeights weights := by
    rw [← hsum]
    exact Nat.pos_of_ne_zero fun h => h0 (UInt64.toNat_inj.mp h)
  have henough := spare_le hquotas hsum h0 hspare
  have hgot := fun q hq => toNat_of_handedOut hnodup hfloors h (q := q) hq
  constructor
  · intro beam
    rw [BeamSymbols.contains_of_foldlM_give (n := fun _ => 1) h,
      BeamSymbols.contains_of_foldlM_give hfloors, contains_noSymbols, hnames, or_self,
      or_iff_left_iff_imp]
    intro hserved
    obtain ⟨q, hq, rfl⟩ := List.mem_map.mp hserved
    exact hnames ▸ List.mem_map_of_mem (mem_ranked.mp (List.mem_of_mem_take hq)).1
  · exact fun hall => absurd hall hpos.ne'
  · intro _
    have hlength := henough.trans List.countP_le_length
    rw [BeamSymbols.sum_foldlM_give (n := fun _ => 1) h, BeamSymbols.sum_foldlM_give hfloors,
      sum_noSymbols, hspare]
    simp only [UInt32.toNat_one, List.map_const', List.sum_replicate, List.length_take,
      Nat.min_eq_left hlength, smul_eq_mul, Nat.mul_one]
    omega
  · intro w hw hw0
    obtain ⟨q, hq, hbeam, hweight, hfloor, -⟩ := quota_of_mem hquotas hsum hw
    have hunserved : q ∉ (ranked quotas).take spare := fun hserved =>
      (mem_ranked.mp (List.mem_of_mem_take hserved)).2 (hweight.trans hw0)
    refine UInt32.toNat_inj.mp ?_
    rw [← hbeam, (hgot q hq).2 hunserved, hfloor, hw0]
    simp
  · intro w hw
    obtain ⟨q, hq, hbeam, -, hfloor, hremainder⟩ := quota_of_mem hquotas hsum hw
    rw [← hbeam]
    by_cases hserved : q ∈ (ranked quotas).take spare
    · right
      have hr : q.remainder.toNat ≠ 0 := fun hr =>
        remainder_ne_zero henough hserved (UInt64.toNat_inj.mp hr)
      rw [(hgot q hq).1 hserved, hfloor]
      exact succ_div_eq_ceilDiv hpos (hremainder ▸ hr)
    · left
      rw [(hgot q hq).2 hserved, hfloor]
  · intro a ha b hb hb0 hmore hless
    obtain ⟨p, hp, hpbeam, -, hpfloor, hpremainder⟩ := quota_of_mem hquotas hsum ha
    obtain ⟨q, hq, hqbeam, hqweight, hqfloor, hqremainder⟩ := quota_of_mem hquotas hsum hb
    have hserved : p ∈ (ranked quotas).take spare := by
      by_contra hunserved
      rw [← hpbeam, (hgot p hp).2 hunserved, hpfloor] at hmore
      omega
    have hunserved : q ∉ (ranked quotas).take spare := by
      intro hserved
      rw [← hqbeam, (hgot q hq).1 hserved, hqfloor] at hless
      exact hless rfl
    have hbefore := before_of_served hserved (mem_ranked.mpr ⟨hq, hqweight ▸ hb0⟩) hunserved
    have hne : a.1.value.toNat ≠ b.1.value.toNat := by
      intro hsame
      have hbeam : p.beam = q.beam := by
        rw [hpbeam, hqbeam]
        exact Key.rank_inj hsame
      exact hunserved (List.inj_on_of_nodup_map hnodup hp hq hbeam ▸ hserved)
    rw [Quota.before_iff, hpremainder, hqremainder, hpbeam, hqbeam] at hbefore
    rw [UInt16.lt_iff_toNat_lt]
    omega

end HandedOut

theorem apportioned_of_apportion {total : UInt32} {weights : List (BeamId × UInt64)}
    {t : BeamSymbols} (hbeams : (weights.map Prod.fst).Nodup) (h : apportion total weights = .ok t) :
    Apportioned total weights t := by
  obtain ⟨sum, hsum, ⟨h0, rfl⟩ | ⟨h0, quotas, spare, floors, hquotas, hspare, hfloors, h⟩⟩ :=
    apportion_cases h
  · refine apportioned_noSymbols (h0.imp_left fun h0 => ?_)
    rw [h0] at hsum
    exact hsum.symm
  · exact apportioned_of_handedOut hbeams hsum h0 hquotas hspare hfloors h

/-- Symbols are split in proportion to weights by largest remainders, as long as the sum of the weights
and the product of each with the number of symbols are double words: the split is made, it is the only one
of its kind, and it is the same in whatever order the beams are listed. -/
theorem symbols_are_apportioned {total : UInt32} {weights : List (BeamId × UInt64)}
    (hbeams : (weights.map Prod.fst).Nodup) (hsum : allWeights weights < UInt64.size)
    (hscaled : ∀ w ∈ weights, total.toNat * w.2.toNat < UInt64.size) :
    ∃ t, apportion total weights = .ok t ∧ Apportioned total weights t ∧
      ∀ weights' : List (BeamId × UInt64), weights'.Perm weights →
        apportion total weights' = .ok t := by
  obtain ⟨t, ht⟩ := succeeds_apportion hsum hscaled
  have happortioned := apportioned_of_apportion hbeams ht
  refine ⟨t, ht, happortioned, fun weights' hp => ?_⟩
  have hbeams' : (weights'.map Prod.fst).Nodup := (hp.map _).nodup_iff.mpr hbeams
  have hsum' : allWeights weights' < UInt64.size := (hp.map _).sum_eq.trans_lt hsum
  obtain ⟨t', ht'⟩ := succeeds_apportion hsum' fun w hw => hscaled w (hp.mem_iff.mp hw)
  rw [ht', (apportioned_of_apportion hbeams' ht').unique hbeams' (happortioned.perm hp)]

/-- Four beams have equal remainders, and the lower two of them get the two symbols left. The lowest beam
of all gets none of these, since its share is whole. -/
theorem symbols_are_apportioned_sample : ∃ t,
    apportion 10 [(⟨9⟩, 3), (⟨4⟩, 3), (⟨7⟩, 0), (⟨2⟩, 3), (⟨5⟩, 7), (⟨1⟩, 4)] = .ok t ∧
      Apportioned 10 [(⟨9⟩, 3), (⟨4⟩, 3), (⟨7⟩, 0), (⟨2⟩, 3), (⟨5⟩, 7), (⟨1⟩, 4)] t ∧
      apportion 10 [(⟨1⟩, 4), (⟨5⟩, 7), (⟨2⟩, 3), (⟨7⟩, 0), (⟨4⟩, 3), (⟨9⟩, 3)] = .ok t ∧
      t.entries = [(⟨1⟩, 2), (⟨2⟩, 2), (⟨4⟩, 2), (⟨5⟩, 3), (⟨7⟩, 0), (⟨9⟩, 1)] := by
  have hbeams : ([(⟨9⟩, 3), (⟨4⟩, 3), (⟨7⟩, 0), (⟨2⟩, 3), (⟨5⟩, 7), (⟨1⟩, 4)].map
      (Prod.fst : BeamId × UInt64 → BeamId)).Nodup := by decide
  have hscaled : ∀ w ∈ ([(⟨9⟩, 3), (⟨4⟩, 3), (⟨7⟩, 0), (⟨2⟩, 3), (⟨5⟩, 7), (⟨1⟩, 4)] :
      List (BeamId × UInt64)), (10 : UInt32).toNat * w.2.toNat < UInt64.size := by decide
  obtain ⟨t, ht, happortioned, hperm⟩ := symbols_are_apportioned hbeams (by decide) hscaled
  refine ⟨t, ht, happortioned, hperm _ (by decide), ?_⟩
  have hrun : (apportion 10 [(⟨9⟩, 3), (⟨4⟩, 3), (⟨7⟩, 0), (⟨2⟩, 3), (⟨5⟩, 7), (⟨1⟩, 4)]).toOption.any
      (·.entries = [(⟨1⟩, 2), (⟨2⟩, 2), (⟨4⟩, 2), (⟨5⟩, 3), (⟨7⟩, 0), (⟨9⟩, 1)]) = true := by
    cbv
  rw [ht] at hrun
  simpa [Except.toOption] using hrun

end Airtime
