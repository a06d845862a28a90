import Airtime.Table
import Airtime.Proofs.Outcome
import Mathlib.Algebra.Order.BigOperators.Group.List
import Mathlib.Algebra.Order.Ring.Nat
import Mathlib.Data.List.Nodup

/-! Tables seen as finite maps: how look-ups and sums change when an entry is put in, and how the
result of a walk is read off key by key. -/

namespace Airtime.Table

variable {κ α β γ σ ε : Type} [Key κ]

theorem rank_eq_iff {a b : κ} : Key.rank a = Key.rank b ↔ a = b := ⟨Key.rank_inj, congrArg _⟩

theorem get?_insert_if [DecidableEq κ] (t : Table κ α) (k k' : κ) (v : α) :
    (t.insert k v).get? k' = if k' = k then some v else t.get? k' := by
  simp only [get?_insert, rank_eq_iff]

theorem get?_erase_if [DecidableEq κ] (t : Table κ α) (k k' : κ) :
    (t.erase k).get? k' = if k' = k then none else t.get? k' := by
  simp only [get?_erase, rank_eq_iff]

theorem keys_nodup (t : Table κ α) : t.keys.Nodup :=
  t.ascending.imp fun h he => absurd (congrArg Key.rank he) (Nat.ne_of_lt h)

theorem insert_of_get? {t : Table κ α} {k : κ} {v : α} (h : t.get? k = some v) :
    t.insert k v = t := by
  apply ext_get?
  intro k'
  rw [get?_insert]
  split
  · next hr => rw [Key.rank_inj hr, h]
  · rfl

theorem insert_insert (t : Table κ α) (k : κ) (v w : α) :
    (t.insert k v).insert k w = t.insert k w := by
  apply ext_get?
  intro k'
  simp only [get?_insert]
  split <;> rfl

theorem contains_iff {t : Table κ α} {k : κ} : t.contains k = true ↔ k ∈ t.keys := by
  rw [mem_keys, contains]

theorem mem_values {t : Table κ α} {v : α} : v ∈ t.values ↔ ∃ k, t.get? k = some v := by
  simp only [values, List.mem_map, Prod.exists, exists_eq_right, mem_entries]

theorem map_insert (f : α → β) (t : Table κ α) (k : κ) (v : α) :
    (t.insert k v).map f = (t.map f).insert k (f v) := by
  refine ext_get? fun k' => ?_
  simp only [get?_map, get?_insert]
  split <;> rfl

theorem map_map (f : α → β) (g : β → γ) (t : Table κ α) :
    (t.map f).map g = t.map fun a => g (f a) := by
  refine ext_get? fun k => ?_
  simp only [get?_map, Option.map_map]
  rfl

theorem values_map (f : α → β) (t : Table κ α) : (t.map f).values = t.values.map f := by
  simp only [values, map, List.map_map]
  rfl

def sumOf (f : α → Nat) (t : Table κ α) : Nat := (t.values.map f).sum

theorem sum_upsert (f : α → Nat) {k : κ} {w : α} {l : List (κ × α)}
    (hl : (l.map Prod.fst).Pairwise (Key.rank · < Key.rank ·)) :
    ((upsert k w l).map fun e => f e.2).sum + ((lookup k l).map f).getD 0 =
      (l.map fun e => f e.2).sum + f w := by
  induction l with
  | nil => simp [upsert, lookup]
  | cons e r ih =>
    obtain ⟨k', v⟩ := e
    simp only [List.map_cons, List.pairwise_cons] at hl
    rw [upsert, lookup]
    split
    · next hlt =>
      have hk : k ∉ r.map Prod.fst := fun hin => absurd (hl.1 k hin) (by omega)
      rw [if_neg (by omega), lookup_eq_none.mpr hk]
      simp
      omega
    · split
      · simp
        omega
      · have := ih hl.2
        simp
        omega

/-- Putting a value in adds its measure and takes away that of the value it replaces. -/
theorem sumOf_insert (f : α → Nat) (t : Table κ α) (k : κ) (w : α) :
    (t.insert k w).sumOf f + ((t.get? k).map f).getD 0 = t.sumOf f + f w := by
  have := sum_upsert f (w := w) (k := k) t.ascending
  simpa only [sumOf, values, insert, get?, List.map_map, Function.comp_def] using this

theorem le_sumOf (f : α → Nat) {t : Table κ α} {k : κ} {v : α} (h : t.get? k = some v) :
    f v ≤ t.sumOf f :=
  List.le_sum_of_mem (List.mem_map_of_mem (mem_values.mpr ⟨k, h⟩))

theorem sumOf_eq_zero_iff (f : α → Nat) {t : Table κ α} :
    t.sumOf f = 0 ↔ ∀ k v, t.get? k = some v → f v = 0 := by
  constructor
  · intro h k v hv
    have := le_sumOf f hv
    omega
  · intro h
    apply List.sum_eq_zero
    intro n hn
    obtain ⟨v, hv, rfl⟩ := List.mem_map.mp hn
    obtain ⟨k, hk⟩ := mem_values.mp hv
    exact h k v hk

theorem size_eq_sumOf (t : Table κ α) : t.size = t.sumOf fun _ => 1 := by
  simp [size, sumOf, values, Function.comp_def]

theorem size_insert (t : Table κ α) (k : κ) (v : α) :
    (t.insert k v).size = if t.contains k then t.size else t.size + 1 := by
  have h := sumOf_insert (fun _ => 1) t k v
  rw [size_eq_sumOf, size_eq_sumOf, contains]
  cases hk : t.get? k <;> simp [hk] at h ⊢ <;> omega

theorem sumOf_le (f : α → Nat) {t : Table κ α} {n : Nat} (h : ∀ k v, t.get? k = some v → f v ≤ n) :
    t.sumOf f ≤ t.size * n := by
  have hle := List.sum_le_card_nsmul (t.values.map f) n fun m hm => by
    obtain ⟨v, hv, rfl⟩ := List.mem_map.mp hm
    obtain ⟨k, hk⟩ := mem_values.mp hv
    exact h k v hk
  simpa [sumOf, size, values] using hle

/-- No more elements than numbers that tell them apart. -/
theorem length_le_of_numbered {l : List β} (hl : l.Nodup) (f : β → Nat) {n : Nat}
    (hf : ∀ a b, f a = f b → a = b) (hn : ∀ a, f a < n) : l.length ≤ n := by
  have hsubset : l.map f ⊆ List.range n := by
    intro m hm
    obtain ⟨a, -, rfl⟩ := List.mem_map.mp hm
    exact List.mem_range.mpr (hn a)
  have hle := (List.subperm_of_subset (hl.map fun a b => hf a b) hsubset).length_le
  rwa [List.length_map, List.length_range] at hle

theorem size_le (t : Table κ α) {n : Nat} (h : ∀ k : κ, Key.rank k < n) : t.size ≤ n := by
  have hle := length_le_of_numbered t.keys_nodup Key.rank (fun _ _ => Key.rank_inj) h
  rwa [keys, List.length_map] at hle

/-- Each entry of a list replaced in turn, with the states passed through on the way. -/
inductive Walked (f : σ → κ → α → Except ε (σ × β)) :
    σ → List (κ × α) → σ → List (κ × β) → Prop
  | nil (s : σ) : Walked f s [] s []
  | cons {s s₁ s' : σ} {k : κ} {v : α} {w : β} {l : List (κ × α)} {r : List (κ × β)}
      (first : f s k v = .ok (s₁, w)) (rest : Walked f s₁ l s' r) :
      Walked f s ((k, v) :: l) s' ((k, w) :: r)

omit [Key κ] in
theorem walkList_ok {f : σ → κ → α → Except ε (σ × β)} {l : List (κ × α)} {s s' : σ}
    {r : { r : List (κ × β) // r.map Prod.fst = l.map Prod.fst }}
    (h : walkList f s l = .ok (s', r)) : Walked f s l s' r.1 := by
  induction l generalizing s with
  | nil =>
    simp only [walkList, pure_ok_iff, Prod.mk.injEq] at h
    obtain ⟨rfl, rfl⟩ := h
    exact .nil s
  | cons e l ih =>
    obtain ⟨k, v⟩ := e
    simp only [walkList, bind_ok_iff, pure_ok_iff, Prod.mk.injEq] at h
    obtain ⟨⟨s₁, w⟩, first, ⟨s₂, r'⟩, rest, rfl, rfl⟩ := h
    exact .cons first (ih rest)

theorem walk_ok {f : σ → κ → α → Except ε (σ × β)} {t : Table κ α} {t' : Table κ β} {s s' : σ}
    (h : t.walk f s = .ok (s', t')) : Walked f s t.entries s' t'.entries := by
  simp only [walk, bind_ok_iff, pure_ok_iff, Prod.mk.injEq] at h
  obtain ⟨⟨s₁, r⟩, hw, rfl, rfl⟩ := h
  exact walkList_ok hw

omit [Key κ] in
theorem walkList_of_walked {f : σ → κ → α → Except ε (σ × β)} {l : List (κ × α)}
    {r : List (κ × β)} {s s' : σ} (h : Walked f s l s' r) :
    ∃ hr, walkList f s l = .ok (s', ⟨r, hr⟩) := by
  induction h with
  | nil s => exact ⟨rfl, rfl⟩
  | @cons s s₁ s' k v w l r first rest ih =>
    obtain ⟨hr, ih⟩ := ih
    refine ⟨by simp [hr], ?_⟩
    simp only [walkList, first, ok_bind, ih]
    rfl

theorem walk_of_walked {f : σ → κ → α → Except ε (σ × β)} {t : Table κ α} {t' : Table κ β}
    {s s' : σ} (h : Walked f s t.entries s' t'.entries) : t.walk f s = .ok (s', t') := by
  obtain ⟨hr, hwalk⟩ := walkList_of_walked h
  simp only [walk, hwalk, ok_bind]
  rfl

namespace Walked

omit [Key κ]

variable {f : σ → κ → α → Except ε (σ × β)} {s s' : σ} {l : List (κ × α)} {r : List (κ × β)}

theorem keeps {I : σ → Prop} (h : Walked f s l s' r) (hs : I s)
    (step : ∀ s k v s₁ w, (k, v) ∈ l → I s → f s k v = .ok (s₁, w) → I s₁) : I s' := by
  induction h with
  | nil s => exact hs
  | cons first rest ih =>
    exact ih (step _ _ _ _ _ (by simp) hs first) fun s k v s₁ w hm =>
      step s k v s₁ w (List.mem_cons_of_mem _ hm)

/-- What a step makes true of its own result, and the steps after it keep. -/
theorem after {Q : σ → κ → β → Prop} (h : Walked f s l s' r)
    (here : ∀ s k v s₁ w, (k, v) ∈ l → f s k v = .ok (s₁, w) → Q s₁ k w)
    (later : ∀ s k v s₁ w k' w', (k, v) ∈ l → f s k v = .ok (s₁, w) → Q s k' w' → Q s₁ k' w') :
    ∀ e ∈ r, Q s' e.1 e.2 := by
  induction h with
  | nil s => exact fun e he => by cases he
  | @cons s s₁ s' k v w l r first rest ih =>
    have hrest : ∀ x ∈ l, x ∈ (k, v) :: l := fun x => List.mem_cons_of_mem _
    intro e he
    rcases List.mem_cons.mp he with rfl | he
    · exact rest.keeps (I := fun s => Q s k w) (here _ _ _ _ _ (by simp) first)
        fun s k₁ v₁ s₁ w₁ hm hs hstep => later s k₁ v₁ s₁ w₁ k w (hrest _ hm) hstep hs
    · exact ih (fun s k v s₁ w hm => here s k v s₁ w (hrest _ hm))
        (fun s k v s₁ w k' w' hm => later s k v s₁ w k' w' (hrest _ hm)) e he

theorem imp {δ : Type} {g : σ → κ → α → Except δ (σ × β)} (h : Walked f s l s' r)
    (hfg : ∀ s k v o, f s k v = .ok o → g s k v = .ok o) : Walked g s l s' r := by
  induction h with
  | nil s => exact .nil s
  | cons first rest ih => exact .cons (hfg _ _ _ _ first) ih

theorem map {α' β' : Type} {g : σ → κ → α' → Except ε (σ × β')} {p : α → α'} {q : β → β'}
    (h : Walked f s l s' r)
    (hfg : ∀ s k v s₁ w, f s k v = .ok (s₁, w) → g s k (p v) = .ok (s₁, q w)) :
    Walked g s (l.map fun e => (e.1, p e.2)) s' (r.map fun e => (e.1, q e.2)) := by
  induction h with
  | nil s => exact .nil s
  | cons first rest ih => exact .cons (hfg _ _ _ _ _ first) ih

theorem forall₂ (h : Walked f s l s' r) :
    List.Forall₂ (fun e e' => e'.1 = e.1 ∧ ∃ s s₁, f s e.1 e.2 = .ok (s₁, e'.2)) l r := by
  induction h with
  | nil s => exact .nil
  | cons first rest ih => exact .cons ⟨rfl, _, _, first⟩ ih

/-- The steps of a walk each add to a list; the additions are told apart by their keys. -/
theorem emits (emit : σ → List γ) {Q : κ → α → β → List γ → Prop} (h : Walked f s l s' r)
    (hl : (l.map Prod.fst).Nodup)
    (step : ∀ s k v s₁ w, (k, v) ∈ l → f s k v = .ok (s₁, w) →
      ∃ e, emit s₁ = emit s ++ e ∧ Q k v w e) :
    ∃ E : κ → List γ, emit s' = emit s ++ (l.map Prod.fst).flatMap E ∧
      List.Forall₂ (fun e e' => e'.1 = e.1 ∧ Q e.1 e.2 e'.2 (E e.1)) l r := by
  induction h with
  | nil s => exact ⟨fun _ => [], by simp, .nil⟩
  | @cons s s₁ s' k v w l r first rest ih =>
    rw [List.map_cons, List.nodup_cons] at hl
    obtain ⟨E, hE, hall⟩ := ih hl.2 fun s k v s₁ w hm =>
      step s k v s₁ w (List.mem_cons_of_mem _ hm)
    obtain ⟨e, he, hQ⟩ := step _ _ _ _ _ (by simp) first
    classical
    refine ⟨Function.update E k e, ?_, .cons ⟨rfl, by simpa using hQ⟩ ?_⟩
    · have htail : (l.map Prod.fst).flatMap (Function.update E k e) =
          (l.map Prod.fst).flatMap E := by
        refine List.flatMap_congr fun k' hk' => Function.update_of_ne ?_ _ _
        rintro rfl
        exact hl.1 hk'
      rw [List.map_cons, List.flatMap_cons, Function.update_self, htail, hE, he,
        List.append_assoc]
    · refine (List.forall₂_iff_zip.mpr ⟨hall.length_eq, fun {a b} hab => ?_⟩)
      have hmem : a.1 ∈ l.map Prod.fst := List.mem_map_of_mem (List.of_mem_zip hab).1
      have ha : a.1 ≠ k := fun hk => hl.1 (hk ▸ hmem)
      have := (List.forall₂_iff_zip.mp hall).2 hab
      rwa [Function.update_of_ne ha]

end Walked

theorem walk_ok_map {α' β' : Type} {f : σ → κ → α → Except ε (σ × β)}
    {g : σ → κ → α' → Except ε (σ × β')} {p : α → α'} {q : β → β'} {t : Table κ α}
    {t' : Table κ β} {s s' : σ} (h : t.walk f s = .ok (s', t'))
    (hfg : ∀ s k v s₁ w, f s k v = .ok (s₁, w) → g s k (p v) = .ok (s₁, q w)) :
    (t.map p).walk g s = .ok (s', t'.map q) := walk_of_walked ((walk_ok h).map hfg)

theorem lookup_of_forall₂ {Q : κ → α → β → Prop} {l : List (κ × α)} {l' : List (κ × β)}
    (h : List.Forall₂ (fun e e' => e'.1 = e.1 ∧ Q e.1 e.2 e'.2) l l') (k : κ) :
    lookup k l = none ∧ lookup k l' = none ∨
      ∃ v w, lookup k l = some v ∧ lookup k l' = some w ∧ Q k v w := by
  induction h with
  | nil => exact .inl ⟨rfl, rfl⟩
  | @cons e e' l l' he _ ih =>
    obtain ⟨_, v⟩ := e
    obtain ⟨k₀, w⟩ := e'
    obtain ⟨rfl, hQ⟩ := he
    simp only [lookup]
    by_cases hk : Key.rank k = Key.rank k₀
    · obtain rfl := Key.rank_inj hk
      exact .inr ⟨v, w, by simp, by simp, hQ⟩
    · simpa only [if_neg hk] using ih

theorem eq_map_of_walk {f : σ → κ → α → Except ε (σ × β)} {g : α → β} {s s' : σ} {t : Table κ α}
    {t' : Table κ β} (h : t.walk f s = .ok (s', t'))
    (hf : ∀ s k v s₁ w, f s k v = .ok (s₁, w) → w = g v) : t' = t.map g := by
  have hall : List.Forall₂ (fun e e' => e'.1 = e.1 ∧ e'.2 = g e.2) t.entries t'.entries :=
    (walk_ok h).forall₂.imp fun e e' he => ⟨he.1, by
      obtain ⟨_, _, hstep⟩ := he.2
      exact hf _ _ _ _ _ hstep⟩
  refine ext_get? fun k => ?_
  rw [get?_map]
  rcases lookup_of_forall₂ (Q := fun _ v w => w = g v) hall k with ⟨hv, hw⟩ | ⟨v, w, hv, hw, rfl⟩
  · rw [get?, get?, hv, hw, Option.map_none]
  · rw [get?, get?, hv, hw, Option.map_some]

/-- A walk over a table that adds to a list at each step, read key by key. -/
theorem emits_of_walked {f : σ → κ → α → Except ε (σ × β)} {s s' : σ} {t : Table κ α}
    {t' : Table κ β} (emit : σ → List γ) {Q : κ → α → β → List γ → Prop}
    (h : Walked f s t.entries s' t'.entries)
    (step : ∀ s k v s₁ w, t.get? k = some v → f s k v = .ok (s₁, w) →
      ∃ e, emit s₁ = emit s ++ e ∧ Q k v w e) :
    ∃ E : κ → List γ, emit s' = emit s ++ t.keys.flatMap E ∧
      ∀ k, t.get? k = none ∧ t'.get? k = none ∨
        ∃ v w, t.get? k = some v ∧ t'.get? k = some w ∧ Q k v w (E k) := by
  obtain ⟨E, hE, hall⟩ := h.emits emit t.keys_nodup fun s k v s₁ w hm =>
    step s k v s₁ w (mem_entries.mp hm)
  exact ⟨E, hE, lookup_of_forall₂ (Q := fun k v w => Q k v w (E k)) hall⟩

end Airtime.Table
