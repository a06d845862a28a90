import Airtime.Proofs.Table
import Airtime.Proofs.Word

/-! Computations that succeed, put together from parts that do. A loop succeeds if its rounds do as
long as an invariant holds, which may speak of the rounds that are still to come. -/

namespace Airtime

variable {ε α β κ σ : Type}

def Succeeds (x : Except ε α) : Prop := ∃ a, x = .ok a

instance (x : Except ε α) : Decidable (Succeeds x) :=
  match x with
  | .ok a => isTrue ⟨a, rfl⟩
  | .error _ => isFalse fun h => by cases h with | intro a ha => cases ha

theorem succeeds_ok (a : α) : Succeeds (.ok a : Except ε α) := ⟨a, rfl⟩

theorem Succeeds.bind {x : Except ε α} {f : α → Except ε β} (hx : Succeeds x)
    (hf : ∀ a, x = .ok a → Succeeds (f a)) : Succeeds (x >>= f) := by
  obtain ⟨a, rfl⟩ := hx
  exact hf a rfl

theorem Succeeds.lift {x : Except Fault α} (hx : Succeeds x) :
    Succeeds (liftM x : Except Failure α) := by
  obtain ⟨a, rfl⟩ := hx
  exact ⟨a, rfl⟩

theorem succeeds_foldlM {f : β → α → Except ε β} {I : List α → β → Prop} {l : List α} {b : β}
    (hb : I l b) (step : ∀ a ∈ l, ∀ rest b, I (a :: rest) b → Succeeds (f b a))
    (keep : ∀ a ∈ l, ∀ rest b b', I (a :: rest) b → f b a = .ok b' → I rest b') :
    Succeeds (l.foldlM f b) := by
  induction l generalizing b with
  | nil => exact succeeds_ok b
  | cons a l ih =>
    rw [List.foldlM_cons]
    refine (step a List.mem_cons_self l b hb).bind fun b' hb' => ?_
    exact ih (keep a List.mem_cons_self l b b' hb hb')
      (fun a ha => step a (List.mem_cons_of_mem _ ha))
      fun a ha => keep a (List.mem_cons_of_mem _ ha)

theorem succeeds_mapM {f : α → Except ε β} {l : List α} (h : ∀ a ∈ l, Succeeds (f a)) :
    Succeeds (l.mapM f) := by
  induction l with
  | nil => exact succeeds_ok []
  | cons a l ih =>
    rw [List.mapM_cons]
    exact (h a (by simp)).bind fun b _ => (ih fun a ha => h a (by simp [ha])).bind fun bs _ =>
      succeeds_ok (b :: bs)

theorem succeeds_walk [Key κ] {f : σ → κ → α → Except ε (σ × β)} {I : List (κ × α) → σ → Prop}
    {t : Table κ α} {s : σ} (hs : I t.entries s)
    (step : ∀ k v, t.get? k = some v → ∀ rest s, I ((k, v) :: rest) s → Succeeds (f s k v))
    (keep : ∀ k v, t.get? k = some v → ∀ rest s s' w, I ((k, v) :: rest) s →
      f s k v = .ok (s', w) → I rest s') : Succeeds (t.walk f s) := by
  have hlist : ∀ (l : List (κ × α)) (s : σ), (∀ e ∈ l, t.get? e.1 = some e.2) → I l s →
      Succeeds (Table.walkList f s l) := by
    intro l
    induction l with
    | nil => exact fun s _ _ => succeeds_ok _
    | cons e l ih =>
      intro s hl hs
      have he := hl e List.mem_cons_self
      apply (step e.1 e.2 he l s hs).bind
      intro x hx
      exact (ih x.1 (fun e he => hl e (List.mem_cons_of_mem _ he))
        (keep e.1 e.2 he l s x.1 x.2 hs hx)).bind fun r _ => succeeds_ok _
  exact (hlist t.entries s (fun e he => Table.mem_entries.mp he) hs).bind fun r _ => succeeds_ok _

namespace Word

variable {ω : Type} [Word ω]

/-- A computation that gives the word of one number succeeds when there is one. -/
theorem succeeds_iff_lt {x : Except ε ω} {n : Nat} (h : ∀ w, x = .ok w ↔ toNat w = n) :
    Succeeds x ↔ n < size ω := by
  simp only [Succeeds, h]
  exact ⟨fun ⟨w, hw⟩ => hw ▸ toNat_lt w, fun hn => ⟨ofNat n, toNat_ofNat n hn⟩⟩

theorem succeeds_add_iff {a b : ω} : Succeeds (add a b) ↔ toNat a + toNat b < size ω :=
  succeeds_iff_lt fun _ => add_eq_ok

theorem succeeds_mul_iff {a b : ω} : Succeeds (mul a b) ↔ toNat a * toNat b < size ω :=
  succeeds_iff_lt fun _ => mul_eq_ok

theorem succeeds_sum_iff {ws : List ω} : Succeeds (sum ws) ↔ (ws.map toNat).sum < size ω :=
  succeeds_iff_lt fun _ => sum_ok_iff

theorem succeeds_sub_iff {a b : ω} : Succeeds (sub a b) ↔ toNat b ≤ toNat a := by
  simp only [Succeeds, sub_eq_ok]
  constructor
  · rintro ⟨c, hc⟩
    omega
  · intro hle
    obtain ⟨c, hc⟩ := exists_toNat (n := toNat a - toNat b) (w := a) (by omega)
    exact ⟨c, by omega⟩

theorem succeeds_div_iff {a b : ω} : Succeeds (div a b) ↔ toNat b ≠ 0 := by
  unfold div
  split
  · next h0 => simp [Succeeds, h0]
  · next h0 => simp [Succeeds, h0]

theorem succeeds_mod_iff {a b : ω} : Succeeds (mod a b) ↔ toNat b ≠ 0 := by
  unfold mod
  split
  · next h0 => simp [Succeeds, h0]
  · next h0 => simp [Succeeds, h0]

end Word

end Airtime
