import Airtime.Allocation.Apportion
import Airtime.Proofs.Table
import Airtime.Proofs.Word

/-! Symbols split among beams: the parts never sum to more than there is. -/

namespace Airtime

namespace BeamSymbols

def sum (t : BeamSymbols) : Nat := t.sumOf UInt32.toNat

def of (t : BeamSymbols) (beam : BeamId) : UInt32 := (t.get? beam).getD 0

theorem sum_entries (t : BeamSymbols) : (t.entries.map (·.2.toNat)).sum = t.sum := by
  rw [sum, Table.sumOf, Table.values, List.map_map]
  rfl

theorem of_insert (t : BeamSymbols) (beam other : BeamId) (n : UInt32) :
    of (t.insert beam n) other = if other = beam then n else t.of other := by
  simp only [of, Table.get?_insert_if]
  split <;> rfl

theorem sum_insert (t : BeamSymbols) (beam : BeamId) (n : UInt32) :
    sum (t.insert beam n) + (t.of beam).toNat = t.sum + n.toNat := by
  have h := Table.sumOf_insert UInt32.toNat t beam n
  unfold of sum
  cases hb : t.get? beam <;> simpa [hb] using h

theorem sum_give {t t' : BeamSymbols} {beam : BeamId} {n : UInt32} (h : t.give beam n = .ok t') :
    t'.sum = t.sum + n.toNat := by
  simp only [give, bind_ok_iff, Word.add_eq_ok, Word.toNat_uint32, pure_ok_iff] at h
  obtain ⟨m, hm, rfl⟩ := h
  have hsum := sum_insert t beam m
  rw [of] at hsum
  omega

theorem sum_foldlM_give {α : Type} {beam : α → BeamId} {n : α → UInt32} {l : List α}
    {t t' : BeamSymbols} (h : l.foldlM (fun (t : BeamSymbols) a => t.give (beam a) (n a)) t = .ok t') :
    t'.sum = t.sum + (l.map fun a => (n a).toNat).sum := by
  induction l generalizing t with
  | nil =>
    cases pure_ok_iff.mp h
    simp
  | cons a l ih =>
    simp only [List.foldlM_cons, bind_ok_iff] at h
    obtain ⟨t₁, h₁, h⟩ := h
    rw [ih h, sum_give h₁, List.map_cons, List.sum_cons, Nat.add_assoc]

theorem sum_of_le (t : BeamSymbols) {beams : List BeamId} (hb : beams.Nodup) :
    (beams.map fun b => (t.of b).toNat).sum ≤ t.sum := by
  induction beams generalizing t with
  | nil => simp
  | cons b beams ih =>
    rw [List.nodup_cons] at hb
    have hrest := ih (t.insert b 0) hb.2
    have hsame : (beams.map fun b' => (of (t.insert b 0) b').toNat) =
        beams.map fun b' => (t.of b').toNat := by
      apply List.map_congr_left
      intro b' hb'
      rw [of_insert, if_neg]
      rintro rfl
      exact hb.1 hb'
    have hsum := sum_insert t b 0
    rw [UInt32.toNat_zero] at hsum
    rw [hsame] at hrest
    rw [List.map_cons, List.sum_cons]
    omega

end BeamSymbols

/-- The quota of one weight. -/
def Quota.of (total : UInt32) (sum : UInt64) (w : BeamId × UInt64) : Except Fault Quota := do
  let exact ← Word.mul total.toUInt64 w.2
  let floor ← Word.div exact sum
  return { beam := w.1, weight := w.2, floor := floor.toUInt32, remainder := ← Word.mod exact sum }

def noSymbols (weights : List (BeamId × UInt64)) : BeamSymbols :=
  .ofList (weights.map fun w => (w.1, 0))

theorem get?_noSymbols (weights : List (BeamId × UInt64)) (beam : BeamId) :
    (noSymbols weights).get? beam = if beam ∈ weights.map Prod.fst then some 0 else none := by
  have hfold : ∀ (l : List (BeamId × UInt64)) (t : BeamSymbols),
      Table.get? ((l.map fun w => (w.1, (0 : UInt32))).foldl (fun t e => t.insert e.1 e.2) t) beam =
        if beam ∈ l.map Prod.fst then some 0 else t.get? beam := by
    intro l
    induction l with
    | nil => exact fun t => rfl
    | cons w l ih =>
      intro t
      rw [List.map_cons, List.foldl_cons, ih, Table.get?_insert_if]
      by_cases hw : beam = w.1
      · simp [hw]
      · rw [if_neg hw]
        exact if_congr (by simp [hw]) rfl rfl
  exact hfold weights ∅

theorem of_noSymbols (weights : List (BeamId × UInt64)) (beam : BeamId) :
    (noSymbols weights).of beam = 0 := by
  rw [BeamSymbols.of, get?_noSymbols]
  split <;> rfl

theorem sum_noSymbols (weights : List (BeamId × UInt64)) : (noSymbols weights).sum = 0 := by
  refine (Table.sumOf_eq_zero_iff _).mpr fun beam n hn => ?_
  have hof := of_noSymbols weights beam
  rw [BeamSymbols.of, hn, Option.getD_some] at hof
  rw [hof, UInt32.toNat_zero]

/-- The quotas of some weight, as those come first that get a symbol more. -/
def ranked (quotas : List Quota) : List Quota :=
  (quotas.filter fun q => q.weight != 0).mergeSort Quota.before

/-- Nothing is handed out, or every beam gets the floor of its quota and the first ones of the ranking
a symbol of what is left. -/
theorem apportion_cases {total : UInt32} {weights : List (BeamId × UInt64)} {t : BeamSymbols}
    (h : apportion total weights = .ok t) :
    ∃ sum : UInt64, sum.toNat = (weights.map fun w => w.2.toNat).sum ∧
      ((sum = 0 ∨ total = 0) ∧ t = noSymbols weights ∨
        sum ≠ 0 ∧ ∃ quotas spare floors,
          weights.mapM (Quota.of total sum) = .ok quotas ∧
          total.toNat = spare + (quotas.map fun q => q.floor.toNat).sum ∧
          quotas.foldlM (fun (t : BeamSymbols) q => t.give q.beam q.floor) (noSymbols weights) =
            .ok floors ∧
          ((ranked quotas).take spare).foldlM (fun (t : BeamSymbols) q => t.give q.beam 1) floors =
            .ok t) := by
  unfold apportion at h
  obtain ⟨sum, hsum, h⟩ := bind_ok_iff.mp h
  rw [Word.sum_ok_iff, List.map_map] at hsum
  refine ⟨sum, hsum, ?_⟩
  simp only at h
  split at h
  · next h0 => exact .inl ⟨h0, (pure_ok_iff.mp h).symm⟩
  · next h0 =>
    obtain ⟨quotas, hquotas, h⟩ := bind_ok_iff.mp h
    obtain ⟨whole, hwhole, h⟩ := bind_ok_iff.mp h
    obtain ⟨spare, hspare, h⟩ := bind_ok_iff.mp h
    obtain ⟨floors, hfloors, h⟩ := bind_ok_iff.mp h
    rw [Word.sum_ok_iff, List.map_map] at hwhole
    refine .inr ⟨fun hs => h0 (.inl hs), quotas, spare.toNat, floors, hquotas, ?_, hfloors, h⟩
    exact (Word.sub_eq_ok.mp hspare).trans (congrArg (spare.toNat + ·) hwhole)

theorem sum_ones_le {α : Type} (l : List α) (n : Nat) :
    ((l.take n).map fun _ => (1 : UInt32).toNat).sum ≤ n := by
  simp only [UInt32.toNat_one, List.map_const', List.sum_replicate, List.length_take]
  simp

/-- Beams get no more than `total` symbols together. -/
theorem sum_apportion {total : UInt32} {weights : List (BeamId × UInt64)} {t : BeamSymbols}
    (h : apportion total weights = .ok t) : t.sum ≤ total.toNat := by
  obtain ⟨_, -, ⟨-, rfl⟩ | ⟨-, quotas, spare, floors, -, hspare, hfloors, h⟩⟩ := apportion_cases h
  · rw [sum_noSymbols]
    exact Nat.zero_le _
  · have hfloors := BeamSymbols.sum_foldlM_give hfloors
    have hranked := BeamSymbols.sum_foldlM_give (n := fun _ => 1) h
    have hcount := sum_ones_le (ranked quotas) spare
    rw [sum_noSymbols] at hfloors
    omega

end Airtime
