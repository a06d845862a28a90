import Airtime.Refusal
import Mathlib.Data.List.Forall2

/-! Reading a computation that can fail backwards: when it succeeds, so did each of its parts, on
the values that it passed on. Loops that can fail are read the same way. -/

namespace Airtime

variable {ε α β γ : Type}

@[simp] theorem bind_ok_iff {x : Except ε α} {f : α → Except ε β} {b : β} :
    x >>= f = .ok b ↔ ∃ a, x = .ok a ∧ f a = .ok b := by
  cases x with
  | error e => simp [bind, Except.bind]
  | ok a => simp [bind, Except.bind]

theorem ok_bind (a : α) (f : α → Except ε β) : (.ok a : Except ε α) >>= f = f a := rfl

@[simp] theorem pure_ok_iff {a b : α} : (pure a : Except ε α) = .ok b ↔ a = b := by
  simp [pure, Except.pure]

@[simp] theorem lift_fault_ok_iff {x : Except Fault α} {a : α} :
    (liftM x : Except Failure α) = .ok a ↔ x = .ok a := by
  cases x <;> simp [liftM, monadLift, MonadLift.monadLift, Except.mapError]

@[simp] theorem lift_refusal_ok_iff {x : Except Refusal α} {a : α} :
    (liftM x : Except Failure α) = .ok a ↔ x = .ok a := by
  cases x <;> simp [liftM, monadLift, MonadLift.monadLift, Except.mapError]

@[simp] theorem lift_harq_ok_iff {x : Except HarqError α} {a : α} :
    (liftM x : Except Refusal α) = .ok a ↔ x = .ok a := by
  cases x <;> simp [liftM, monadLift, MonadLift.monadLift, Except.mapError]

theorem accepted_ok_iff {r : β × Except Refusal α} {b : β} {a : α} :
    accepted r = .ok (b, a) ↔ r.2 = .ok a ∧ r.1 = b := by
  obtain ⟨b', outcome⟩ := r
  cases outcome with
  | error why => simp [accepted, Except.map]
  | ok a' => simp [accepted, Except.map, and_comm]

theorem fst_accepted_ok_iff {r : β × Except Refusal α} {b : β} :
    (Prod.fst <$> accepted r : Except Refusal β) = .ok b ↔ (∃ a, r.2 = .ok a) ∧ r.1 = b := by
  obtain ⟨b', outcome⟩ := r
  cases outcome with
  | error why => simp [accepted, Except.map, Functor.map]
  | ok a' => simp [accepted, Except.map, Functor.map]

/-- What each round of a loop keeps, the loop keeps. -/
theorem foldlM_keeps {f : β → α → Except ε β} {I : β → Prop} {l : List α} {b b' : β}
    (h : l.foldlM f b = .ok b') (hb : I b)
    (step : ∀ b a b', a ∈ l → I b → f b a = .ok b' → I b') : I b' := by
  induction l generalizing b with
  | nil =>
    simp only [List.foldlM_nil, pure_ok_iff] at h
    exact h ▸ hb
  | cons a l ih =>
    simp only [List.foldlM_cons, bind_ok_iff] at h
    obtain ⟨b₁, h₁, h⟩ := h
    exact ih h (step b a b₁ (by simp) hb h₁) fun b a b' ha => step b a b' (by simp [ha])

theorem foldlM_imp {δ : Type} {f : β → α → Except ε β} {g : β → α → Except δ β} {l : List α}
    {b b' : β} (h : l.foldlM f b = .ok b') (hfg : ∀ b a b', f b a = .ok b' → g b a = .ok b') :
    l.foldlM g b = .ok b' := by
  induction l generalizing b with
  | nil => exact pure_ok_iff.mpr (pure_ok_iff.mp h)
  | cons a l ih =>
    simp only [List.foldlM_cons, bind_ok_iff] at h ⊢
    obtain ⟨b₁, h₁, h⟩ := h
    exact ⟨b₁, hfg b a b₁ h₁, ih h⟩

theorem foldlM_ok_map {α' β' : Type} {f : β → α → Except ε β} {g : β' → α' → Except ε β'}
    {p : α → α'} {q : β → β'} {l : List α} {b b' : β} (h : l.foldlM f b = .ok b')
    (hfg : ∀ b a b', f b a = .ok b' → g (q b) (p a) = .ok (q b')) :
    (l.map p).foldlM g (q b) = .ok (q b') := by
  induction l generalizing b with
  | nil => exact pure_ok_iff.mpr (congrArg q (pure_ok_iff.mp h))
  | cons a l ih =>
    simp only [List.map_cons, List.foldlM_cons, bind_ok_iff] at h ⊢
    obtain ⟨b₁, h₁, h⟩ := h
    exact ⟨q b₁, hfg b a b₁ h₁, ih h⟩

/-- An element of a list is the last one, or it is in front of that. -/
theorem split_of_concat {l before after : List α} {a e : α}
    (h : l ++ [a] = before ++ e :: after) : l = before ∧ e = a ∧ after = [] ∨
      ∃ between, l = before ++ e :: between ∧ after = between ++ [a] := by
  rcases List.eq_nil_or_concat after with rfl | ⟨between, last, rfl⟩
  · obtain ⟨rfl, hlast⟩ := List.append_inj' h rfl
    exact .inl ⟨rfl, (List.singleton_inj.mp hlast).symm, rfl⟩
  · rw [List.concat_eq_append, ← List.cons_append, ← List.append_assoc] at h
    obtain ⟨hl, hlast⟩ := List.append_inj' h rfl
    rw [List.concat_eq_append, List.singleton_inj.mp hlast]
    exact .inr ⟨between, hl, rfl⟩

/-- Sorting keeps the order of elements that the order does not tell apart. -/
theorem filter_mergeSort {le : α → α → Bool} {p : α → Bool}
    (htrans : ∀ a b c, le a b = true → le b c = true → le a c = true)
    (htotal : ∀ a b, (le a b || le b a) = true) (hlevel : ∀ a b, p a = true → p b = true → le a b = true)
    (l : List α) : (l.mergeSort le).filter p = l.filter p := by
  have hsub : (l.filter p).Sublist (l.mergeSort le) :=
    List.sublist_mergeSort htrans htotal (List.pairwise_of_forall_mem_list fun a ha b hb =>
      hlevel a b (List.mem_filter.mp ha).2 (List.mem_filter.mp hb).2) List.filter_sublist
  have hsame := hsub.filter p
  simp only [List.filter_filter, Bool.and_self] at hsame
  exact (hsame.eq_of_length ((List.mergeSort_perm l _).filter _).length_eq.symm).symm

section Tagged

variable {κ : Type} [DecidableEq κ] {l : List α} {emit : α → List β} {tag : α → κ} {key : β → κ}

theorem filter_flatMap_of_not_mem (hkey : ∀ a ∈ l, ∀ b ∈ emit a, key b = tag a) {k : κ}
    (hk : k ∉ l.map tag) : (l.flatMap emit).filter (key · = k) = [] := by
  rw [List.filter_eq_nil_iff]
  intro b hb
  obtain ⟨a, ha, hb⟩ := List.mem_flatMap.mp hb
  rw [hkey a ha b hb, decide_eq_true_eq]
  rintro rfl
  exact hk (List.mem_map_of_mem ha)

theorem filter_flatMap_of_mem (hkey : ∀ a ∈ l, ∀ b ∈ emit a, key b = tag a)
    (hnodup : (l.map tag).Nodup) {a : α} (ha : a ∈ l) :
    (l.flatMap emit).filter (key · = tag a) = emit a := by
  induction l with
  | nil => cases ha
  | cons a' l ih =>
    rw [List.map_cons, List.nodup_cons] at hnodup
    have hrest : ∀ a ∈ l, ∀ b ∈ emit a, key b = tag a := fun a ha => hkey a (by simp [ha])
    rw [List.flatMap_cons, List.filter_append]
    rcases List.mem_cons.mp ha with rfl | ha
    · rw [filter_flatMap_of_not_mem hrest hnodup.1, List.append_nil, List.filter_eq_self]
      intro b hb
      simpa using hkey a (by simp) b hb
    · have hne : tag a' ≠ tag a := fun he => hnodup.1 (he ▸ List.mem_map_of_mem ha)
      rw [ih hrest hnodup.2 ha, List.append_left_eq_self, List.filter_eq_nil_iff]
      intro b hb
      simpa [hkey a' (by simp) b hb] using hne

theorem filter_of_nodup {key : α → κ} (hl : (l.map key).Nodup) {a : α} (ha : a ∈ l) :
    l.filter (key · = key a) = [a] := by
  have hown : ∀ a ∈ l, ∀ b ∈ [a], key b = key a := fun a _ b hb => by
    rw [List.mem_singleton.mp hb]
  have hfilter := filter_flatMap_of_mem hown hl ha
  rwa [List.flatMap_singleton'] at hfilter

end Tagged

section Corresponding

variable {R : α → β → Prop} {l : List α} {r : List β}

theorem exists_left_of_forall₂ (h : List.Forall₂ R l r) {b : β} (hb : b ∈ r) :
    ∃ a ∈ l, R a b := by
  induction h with
  | nil => cases hb
  | @cons a b' l r hab _ ih =>
    rcases List.mem_cons.mp hb with rfl | hb
    · exact ⟨a, by simp, hab⟩
    · obtain ⟨a', ha', h'⟩ := ih hb
      exact ⟨a', by simp [ha'], h'⟩

theorem exists_right_of_forall₂ (h : List.Forall₂ R l r) {a : α} (ha : a ∈ l) :
    ∃ b ∈ r, R a b := exists_left_of_forall₂ h.flip ha

theorem map_eq_of_forall₂ {f : α → γ} {g : β → γ} (h : List.Forall₂ R l r)
    (hfg : ∀ a b, R a b → g b = f a) : r.map g = l.map f := by
  induction h with
  | nil => rfl
  | cons hab _ ih => rw [List.map_cons, List.map_cons, hfg _ _ hab, ih]

theorem forall₂_trans {S : β → γ → Prop} {T : α → γ → Prop} {n : List γ}
    (h : List.Forall₂ R l r) (h' : List.Forall₂ S r n) (hT : ∀ a b c, R a b → S b c → T a c) :
    List.Forall₂ T l n := by
  induction h generalizing n with
  | nil =>
    cases h'
    exact .nil
  | cons hab _ ih =>
    obtain _ | ⟨hbc, hrest⟩ := h'
    exact .cons (hT _ _ _ hab hbc) (ih hrest)

/-- Parts that are each taken out of the part of one element. -/
theorem sublist_flatMap {f : α → List β} {parts : List (List β)}
    (h : List.Forall₂ (fun a part => part.Sublist (f a)) l parts) :
    parts.flatten.Sublist (l.flatMap f) := by
  induction h with
  | nil => exact .slnil
  | cons hpart _ ih =>
    rw [List.flatten_cons, List.flatMap_cons]
    exact hpart.append ih

end Corresponding

theorem mapM_ok_iff {f : α → Except ε β} {l : List α} {r : List β} :
    l.mapM f = .ok r ↔ List.Forall₂ (fun a b => f a = .ok b) l r := by
  induction l generalizing r with
  | nil => rw [List.mapM_nil, pure_ok_iff, List.forall₂_nil_left_iff, eq_comm]
  | cons a l ih =>
    simp only [List.mapM_cons, bind_ok_iff, pure_ok_iff, ih]
    constructor
    · rintro ⟨b, hb, r', hr', rfl⟩
      exact .cons hb hr'
    · rintro (_ | ⟨hb, hr⟩)
      exact ⟨_, hb, _, hr, rfl⟩

theorem mem_mapM_ok {f : α → Except ε β} {l : List α} {r : List β} (h : l.mapM f = .ok r)
    {b : β} : b ∈ r ↔ ∃ a ∈ l, f a = .ok b := by
  refine ⟨exists_left_of_forall₂ (mapM_ok_iff.mp h), fun ⟨a, ha, hab⟩ => ?_⟩
  obtain ⟨b', hb', hab'⟩ := exists_right_of_forall₂ (mapM_ok_iff.mp h) ha
  rw [hab] at hab'
  exact Except.ok.inj hab' ▸ hb'

theorem mapM_ok_map {α' β' : Type} {f : α → Except ε β} {g : α' → Except ε β'} {p : α → α'}
    {q : β → β'} {l : List α} {r : List β} (h : l.mapM f = .ok r)
    (hfg : ∀ a b, f a = .ok b → g (p a) = .ok (q b)) : (l.map p).mapM g = .ok (r.map q) :=
  mapM_ok_iff.mpr <| List.forall₂_map_left_iff.mpr <| List.forall₂_map_right_iff.mpr <|
    (mapM_ok_iff.mp h).imp hfg

theorem exists_of_mapM_ok {f : α → Except ε β} {l : List α} {r : List β}
    (h : l.mapM f = .ok r) {a : α} (ha : a ∈ l) : ∃ b ∈ r, f a = .ok b :=
  exists_right_of_forall₂ (mapM_ok_iff.mp h) ha

end Airtime
