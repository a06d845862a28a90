import Airtime.Arithmetic

/-!
Tables kept in ascending order of their keys. The order is part of the type, so two tables with the
same look-ups are equal (`Table.ext_get?`), whatever the order in which they were filled.
-/

namespace Airtime

/-- Keys ordered by a rank that tells them apart. -/
class Key (κ : Type) where
  rank : κ → Nat
  rank_inj : ∀ {a b : κ}, rank a = rank b → a = b

instance {κ : Type} [Word κ] : Key κ where
  rank := Word.toNat
  rank_inj := Word.toNat_inj _ _

instance {κ ν : Type} [Key κ] [Word ν] : Key (κ × ν) where
  rank p := Key.rank p.1 * Word.size ν + Word.toNat p.2
  rank_inj {a b} h := by
    have ha := Word.toNat_lt a.2
    have hb := Word.toNat_lt b.2
    have hp : 0 < Word.size ν := by omega
    have h2 := congrArg (· % Word.size ν) h
    have h1 := congrArg (· / Word.size ν) h
    simp only [Nat.mul_add_mod_self_right, Nat.mod_eq_of_lt, ha, hb] at h2
    rw [Nat.mul_comm, Nat.mul_comm (Key.rank b.1)] at h1
    simp only [Nat.mul_add_div hp, Nat.div_eq_of_lt, ha, hb] at h1
    exact Prod.ext (Key.rank_inj (by omega)) (Word.toNat_inj _ _ h2)

structure Table (κ α : Type) [Key κ] where
  entries : List (κ × α)
  ascending : (entries.map Prod.fst).Pairwise (Key.rank · < Key.rank ·)

namespace Table

variable {κ α β σ : Type} [Key κ]

def empty : Table κ α := ⟨[], .nil⟩

instance : EmptyCollection (Table κ α) := ⟨empty⟩
instance : Inhabited (Table κ α) := ⟨empty⟩

def keys (t : Table κ α) : List κ := t.entries.map Prod.fst

def values (t : Table κ α) : List α := t.entries.map Prod.snd

def size (t : Table κ α) : Nat := t.entries.length

def isEmpty (t : Table κ α) : Bool := t.entries.isEmpty

def lookup (k : κ) : List (κ × α) → Option α
  | [] => none
  | (k', v) :: rest => if Key.rank k = Key.rank k' then some v else lookup k rest

def get? (t : Table κ α) (k : κ) : Option α := lookup k t.entries

def contains (t : Table κ α) (k : κ) : Bool := (t.get? k).isSome

/-- Puts `v` under `k` in an ascending list, over the value that was there. -/
def upsert (k : κ) (v : α) : List (κ × α) → List (κ × α)
  | [] => [(k, v)]
  | (k', v') :: rest =>
    if Key.rank k < Key.rank k' then (k, v) :: (k', v') :: rest
    else if Key.rank k = Key.rank k' then (k, v) :: rest
    else (k', v') :: upsert k v rest

theorem mem_keys_upsert {k k' : κ} {v : α} {l : List (κ × α)} :
    k' ∈ (upsert k v l).map Prod.fst → k' = k ∨ k' ∈ l.map Prod.fst := by
  induction l with
  | nil => simp [upsert]
  | cons e r ih => grind [upsert]

theorem ascending_upsert (k : κ) (v : α) {l : List (κ × α)}
    (h : (l.map Prod.fst).Pairwise (Key.rank · < Key.rank ·)) :
    ((upsert k v l).map Prod.fst).Pairwise (Key.rank · < Key.rank ·) := by
  induction l with
  | nil => simp [upsert]
  | cons e r ih =>
    obtain ⟨k', v'⟩ := e
    simp only [List.map_cons, List.pairwise_cons] at h
    rw [upsert]
    split
    · next hlt =>
      simp only [List.map_cons, List.pairwise_cons, List.mem_cons]
      refine ⟨fun a ha => ?_, h⟩
      rcases ha with rfl | ha
      · exact hlt
      · exact Nat.lt_trans hlt (h.1 a ha)
    · split
      · next _ heq =>
        simp only [List.map_cons, List.pairwise_cons]
        exact ⟨fun a ha => heq ▸ h.1 a ha, h.2⟩
      · simp only [List.map_cons, List.pairwise_cons]
        refine ⟨fun a ha => ?_, ih h.2⟩
        rcases mem_keys_upsert ha with rfl | ha
        · omega
        · exact h.1 a ha

def insert (t : Table κ α) (k : κ) (v : α) : Table κ α :=
  ⟨upsert k v t.entries, ascending_upsert k v t.ascending⟩

def erase (t : Table κ α) (k : κ) : Table κ α where
  entries := t.entries.filter fun e => Key.rank e.1 ≠ Key.rank k
  ascending := t.ascending.sublist (List.filter_sublist.map _)

/-- A key given twice keeps its last value. -/
def ofList (l : List (κ × α)) : Table κ α := l.foldl (fun t e => t.insert e.1 e.2) empty

def map (f : α → β) (t : Table κ α) : Table κ β where
  entries := t.entries.map fun e => (e.1, f e.2)
  ascending := by simpa [List.map_map, Function.comp_def] using t.ascending

def walkList {m : Type → Type} [Monad m] (f : σ → κ → α → m (σ × β)) :
    σ → (l : List (κ × α)) → m (σ × { r : List (κ × β) // r.map Prod.fst = l.map Prod.fst })
  | s, [] => pure (s, ⟨[], rfl⟩)
  | s, (k, v) :: rest => do
    let (s, w) ← f s k v
    let (s, r) ← walkList f s rest
    pure (s, ⟨(k, w) :: r.1, by simp [r.2]⟩)

/-- Walks the entries in ascending order with a running state, replacing each value. -/
def walk {m : Type → Type} [Monad m] (f : σ → κ → α → m (σ × β)) (s : σ) (t : Table κ α) :
    m (σ × Table κ β) := do
  let (s, r) ← walkList f s t.entries
  pure (s, ⟨r.1, by rw [r.2]; exact t.ascending⟩)

theorem lookup_eq_none {k : κ} {l : List (κ × α)} :
    lookup k l = none ↔ k ∉ l.map Prod.fst := by
  induction l with
  | nil => simp [lookup]
  | cons e r ih =>
    have : Key.rank k = Key.rank e.1 ↔ k = e.1 := ⟨Key.rank_inj, congrArg _⟩
    grind [lookup]

theorem lookup_upsert (k k' : κ) (v : α) (l : List (κ × α)) :
    lookup k' (upsert k v l) = if Key.rank k' = Key.rank k then some v else lookup k' l := by
  induction l with
  | nil => simp [upsert, lookup]
  | cons e r ih => grind [upsert, lookup]

@[simp] theorem get?_empty (k : κ) : (empty : Table κ α).get? k = none := rfl

theorem get?_insert (t : Table κ α) (k k' : κ) (v : α) :
    (t.insert k v).get? k' = if Key.rank k' = Key.rank k then some v else t.get? k' :=
  lookup_upsert k k' v t.entries

@[simp] theorem get?_insert_self (t : Table κ α) (k : κ) (v : α) :
    (t.insert k v).get? k = some v := by simp [get?_insert]

theorem get?_erase (t : Table κ α) (k k' : κ) :
    (t.erase k).get? k' = if Key.rank k' = Key.rank k then none else t.get? k' := by
  obtain ⟨l, hl⟩ := t
  simp only [erase, get?]
  clear hl
  induction l with
  | nil => simp [lookup]
  | cons e r ih => grind [lookup]

theorem get?_map (f : α → β) (t : Table κ α) (k : κ) : (t.map f).get? k = (t.get? k).map f := by
  obtain ⟨l, hl⟩ := t
  simp only [map, get?]
  clear hl
  induction l with
  | nil => simp [lookup]
  | cons e r ih => grind [lookup]

@[simp] theorem keys_map (f : α → β) (t : Table κ α) : (t.map f).keys = t.keys := by
  simp [keys, map]

theorem mem_keys {t : Table κ α} {k : κ} : k ∈ t.keys ↔ (t.get? k).isSome := by
  have := lookup_eq_none (k := k) (l := t.entries)
  cases h : t.get? k <;> grind [keys, get?]

theorem mem_entries {t : Table κ α} {k : κ} {v : α} :
    (k, v) ∈ t.entries ↔ t.get? k = some v := by
  obtain ⟨l, hl⟩ := t
  unfold get?
  induction l with
  | nil => simp [lookup]
  | cons e r ih =>
    obtain ⟨k', v'⟩ := e
    simp only [List.map_cons, List.pairwise_cons] at hl
    have ih := ih hl.2
    simp only [List.mem_cons, Prod.mk.injEq, lookup]
    split
    · next h =>
      have hk := Key.rank_inj h
      subst hk
      constructor
      · rintro (⟨_, rfl⟩ | hm)
        · rfl
        · exact absurd (hl.1 k (List.mem_map_of_mem hm)) (by omega)
      · intro hv
        cases hv
        exact .inl ⟨rfl, rfl⟩
    · next h =>
      simp only at ih
      rw [← ih]
      exact ⟨fun hm => hm.resolve_left fun ⟨hk, _⟩ => h (congrArg _ hk), .inr⟩

theorem eq_of_lookup {l m : List (κ × α)}
    (hl : (l.map Prod.fst).Pairwise (Key.rank · < Key.rank ·))
    (hm : (m.map Prod.fst).Pairwise (Key.rank · < Key.rank ·))
    (h : ∀ k, lookup k l = lookup k m) : l = m := by
  induction l generalizing m with
  | nil =>
    cases m with
    | nil => rfl
    | cons e r => simpa [lookup] using h e.1
  | cons e r ih =>
    obtain ⟨k, v⟩ := e
    cases m with
    | nil => simpa [lookup] using h k
    | cons e' r' =>
      obtain ⟨k', v'⟩ := e'
      simp only [List.map_cons, List.pairwise_cons] at hl hm
      have hk := h k
      have hk' := h k'
      have keyed : Key.rank k = Key.rank k' := by
        simp only [lookup, if_true] at hk hk'
        split at hk
        · assumption
        · next hne =>
          have hmem : k ∈ r'.map Prod.fst := by
            rcases Classical.em (k ∈ r'.map Prod.fst) with hin | hout
            · exact hin
            · rw [lookup_eq_none.mpr hout] at hk; cases hk
          have hlt := hm.1 k hmem
          rw [if_neg (by omega)] at hk'
          have hmem' : k' ∈ r.map Prod.fst := by
            rcases Classical.em (k' ∈ r.map Prod.fst) with hin | hout
            · exact hin
            · rw [lookup_eq_none.mpr hout] at hk'; cases hk'
          have := hl.1 k' hmem'
          omega
      have hkk := Key.rank_inj keyed
      subst hkk
      have hv : v = v' := by simpa [lookup] using hk
      subst hv
      rw [ih hl.2 hm.2]
      intro j
      have hj := h j
      simp only [lookup] at hj
      split at hj
      · next heq =>
        have := Key.rank_inj heq
        subst this
        rw [lookup_eq_none.mpr fun hin => absurd (hl.1 _ hin) (by omega),
          lookup_eq_none.mpr fun hin => absurd (hm.1 _ hin) (by omega)]
      · exact hj

theorem ext_get? {s t : Table κ α} (h : ∀ k, s.get? k = t.get? k) : s = t := by
  obtain ⟨l, hl⟩ := s
  obtain ⟨m, hm⟩ := t
  have : l = m := eq_of_lookup hl hm h
  subst this
  rfl

end Table

abbrev KeySet (κ : Type) [Key κ] := Table κ Unit

end Airtime
