import Airtime.Proofs.Success
import Airtime.Simulator.Step

/-! Counters that a slot adds to. What is counted in a slot adds up counter by counter, so the slot can
as well be counted from zero: a table of counters can take the whole slot if and only if it can take
these totals at once. -/

namespace Airtime

def Counters.add (c d : Counters) : Except Fault Counters := do
  return {
    downlinkBytes := ← Word.add c.downlinkBytes d.downlinkBytes
    uplinkBytes := ← Word.add c.uplinkBytes d.uplinkBytes
    newBlocks := ← Word.add c.newBlocks d.newBlocks
    resent := ← Word.add c.resent d.resent
    losses := ← Word.add c.losses d.losses }

def SidelinkCounters.add (c d : SidelinkCounters) : Except Fault SidelinkCounters := do
  return {
    bytes := ← Word.add c.bytes d.bytes
    blocks := ← Word.add c.blocks d.blocks
    transmissions := ← Word.add c.transmissions d.transmissions
    missed := ← Word.add c.missed d.missed }

/-- Double words that are counted up side by side, read by their place. -/
class Meter (γ : Type) where
  read : γ → Nat → Nat
  zero : γ
  add : γ → γ → Except Fault γ
  read_lt : ∀ a i, read a i < UInt64.size
  read_zero : ∀ i, read zero i = 0
  read_add : ∀ {a b c}, add a b = .ok c → ∀ i, read c i = read a i + read b i
  succeeds_add : ∀ {a b}, (∀ i, read a i + read b i < UInt64.size) → Succeeds (add a b)

section Instances

theorem Word.add_uint64_ok_iff {a b c : UInt64} :
    Word.add a b = .ok c ↔ c.toNat = a.toNat + b.toNat := Word.add_eq_ok

theorem Word.succeeds_add_uint64 {a b : UInt64} (h : a.toNat + b.toNat < UInt64.size) :
    Succeeds (Word.add a b) := Word.succeeds_add_iff.mpr h

def Counters.read (c : Counters) : Nat → Nat
  | 0 => c.downlinkBytes.toNat
  | 1 => c.uplinkBytes.toNat
  | 2 => c.newBlocks.toNat
  | 3 => c.resent.toNat
  | 4 => c.losses.toNat
  | _ => 0

def SidelinkCounters.read (c : SidelinkCounters) : Nat → Nat
  | 0 => c.bytes.toNat
  | 1 => c.blocks.toNat
  | 2 => c.transmissions.toNat
  | 3 => c.missed.toNat
  | _ => 0

instance : Meter Counters where
  read := Counters.read
  zero := {}
  add := Counters.add
  read_lt c i := by
    unfold Counters.read
    split
    all_goals first | exact UInt64.toNat_lt_size _ | decide
  read_zero i := by
    unfold Counters.read
    split <;> rfl
  read_add {a b c} h i := by
    simp only [Counters.add, bind_ok_iff, Word.add_uint64_ok_iff, pure_ok_iff] at h
    obtain ⟨v, hv, w, hw, x, hx, y, hy, z, hz, rfl⟩ := h
    unfold Counters.read
    split <;> first | assumption | rfl
  succeeds_add {a b} h :=
    (Word.succeeds_add_uint64 (h 0)).bind fun _ _ => (Word.succeeds_add_uint64 (h 1)).bind fun _ _ =>
      (Word.succeeds_add_uint64 (h 2)).bind fun _ _ => (Word.succeeds_add_uint64 (h 3)).bind fun _ _ =>
        (Word.succeeds_add_uint64 (h 4)).bind fun _ _ => succeeds_ok _

instance : Meter SidelinkCounters where
  read := SidelinkCounters.read
  zero := {}
  add := SidelinkCounters.add
  read_lt c i := by
    unfold SidelinkCounters.read
    split
    all_goals first | exact UInt64.toNat_lt_size _ | decide
  read_zero i := by
    unfold SidelinkCounters.read
    split <;> rfl
  read_add {a b c} h i := by
    simp only [SidelinkCounters.add, bind_ok_iff, Word.add_uint64_ok_iff, pure_ok_iff] at h
    obtain ⟨v, hv, w, hw, x, hx, y, hy, rfl⟩ := h
    unfold SidelinkCounters.read
    split <;> first | assumption | rfl
  succeeds_add {a b} h :=
    (Word.succeeds_add_uint64 (h 0)).bind fun _ _ => (Word.succeeds_add_uint64 (h 1)).bind fun _ _ =>
      (Word.succeeds_add_uint64 (h 2)).bind fun _ _ => (Word.succeeds_add_uint64 (h 3)).bind fun _ _ =>
        succeeds_ok _

end Instances

def Awaited.counts (a : Awaited) : Counters :=
  if a.feedback.success then
    match a.feedback.direction with
    | .downlink => { downlinkBytes := a.blockSize.toUInt64 }
    | .uplink => { uplinkBytes := a.blockSize.toUInt64 }
  else { losses := 1 }

def Assignment.counts (a : Assignment) : Counters :=
  if a.newData then { newBlocks := 1 } else { resent := 1 }

theorem Word.add_zero_uint64 (a : UInt64) : Word.add a 0 = .ok a := Word.add_uint64_ok_iff.mpr rfl

theorem Counters.delivered_eq (c : Counters) (a : Awaited) :
    (if a.feedback.success then c.arrived a.feedback.direction a.blockSize else c.lost) =
      c.add a.counts := by
  unfold Awaited.counts
  split
  · cases a.feedback.direction with
    | downlink =>
      simp only [Counters.arrived, Counters.add, Word.add_zero_uint64]
      cases Word.add c.downlinkBytes a.blockSize.toUInt64 <;> rfl
    | uplink =>
      simp only [Counters.arrived, Counters.add, Word.add_zero_uint64]
      cases Word.add c.uplinkBytes a.blockSize.toUInt64 <;> rfl
  · simp only [Counters.lost, Counters.add, Word.add_zero_uint64]
    cases Word.add c.losses 1 <;> rfl

theorem Counters.sent_eq (c : Counters) (a : Assignment) : c.sent a.newData = c.add a.counts := by
  unfold Assignment.counts Counters.sent
  split
  · simp only [Counters.add, Word.add_zero_uint64]
    cases Word.add c.newBlocks 1 <;> rfl
  · simp only [Counters.add, Word.add_zero_uint64]
    cases Word.add c.resent 1 <;> rfl

def SidelinkCounters.arrival (bytes : Nat) : SidelinkCounters := { bytes := UInt64.ofNat bytes }

def SidelinkCounters.grant (transmissions : Nat) : SidelinkCounters :=
  { blocks := 1, transmissions := UInt64.ofNat transmissions }

theorem SidelinkCounters.add_arrival_ok {a c : SidelinkCounters} {n : Nat}
    (h : a.add (arrival n) = .ok c) :
    ∃ bytes, Word.add a.bytes (UInt64.ofNat n) = .ok bytes ∧ c = { a with bytes } := by
  simp only [add, arrival, Word.add_zero_uint64, bind_ok_iff, Except.ok.injEq,
    exists_eq_left', pure_ok_iff] at h
  obtain ⟨bytes, hbytes, rfl⟩ := h
  exact ⟨bytes, hbytes, rfl⟩

theorem SidelinkCounters.add_grant_ok {a c : SidelinkCounters} {n : Nat}
    (h : a.add (grant n) = .ok c) : ∃ blocks transmissions, Word.add a.blocks 1 = .ok blocks ∧
      Word.add a.transmissions (UInt64.ofNat n) = .ok transmissions ∧
      c = { a with blocks, transmissions } := by
  simp only [add, grant, Word.add_zero_uint64, bind_ok_iff, Except.ok.injEq,
    exists_eq_left', pure_ok_iff] at h
  obtain ⟨blocks, hblocks, transmissions, htransmissions, rfl⟩ := h
  exact ⟨blocks, transmissions, hblocks, htransmissions, rfl⟩

theorem SidelinkCounters.add_missed_ok {a c : SidelinkCounters}
    (h : a.add { missed := 1 } = .ok c) :
    ∃ missed, Word.add a.missed 1 = .ok missed ∧ c = { a with missed } := by
  simp only [add, Word.add_zero_uint64, bind_ok_iff, Except.ok.injEq,
    exists_eq_left', pure_ok_iff] at h
  obtain ⟨missed, hmissed, rfl⟩ := h
  exact ⟨missed, hmissed, rfl⟩

section Tallied

variable {κ γ : Type} [Key κ] [Meter γ]

def Table.meter (t : Table κ γ) (k : κ) : γ := (t.get? k).getD Meter.zero

def Table.tally (t : Table κ γ) (e : κ × γ) : Except Fault (Table κ γ) := do
  return t.insert e.1 (← Meter.add (t.meter e.1) e.2)

variable {t t' : Table κ γ} {l l' : List (κ × γ)}

/-- Given counters that can take a list, a computation adds the list and gives `g` of the sums. -/
def Adds {ε α : Type} (l : List (κ × γ)) (f : Table κ γ → Except ε α) (g : Table κ γ → α) : Prop :=
  ∀ counts counters, l.foldlM Table.tally counts = .ok counters → f counts = .ok (g counters)

section Adds

variable {ε α β : Type} {f : Table κ γ → Except ε α} {g : Table κ γ → α}

theorem adds_nil (h : ∀ counts, f counts = .ok (g counts)) : Adds [] f g := by
  intro counts counters hcount
  cases pure_ok_iff.mp hcount
  exact h counts

theorem adds_singleton {e : κ × γ}
    (h : ∀ counts c, Meter.add (counts.meter e.1) e.2 = .ok c →
      f counts = .ok (g (counts.insert e.1 c))) : Adds [e] f g := by
  intro counts counters hcount
  simp only [List.foldlM_cons, List.foldlM_nil, bind_pure] at hcount
  obtain ⟨c, hc, hcount⟩ := bind_ok_iff.mp hcount
  obtain rfl := pure_ok_iff.mp hcount
  exact h counts c hc

theorem Adds.bind {k : α → Except ε β} {g' : Table κ γ → β} (h : Adds l f g)
    (h' : Adds l' (fun counts => k (g counts)) g') :
    Adds (l ++ l') (fun counts => f counts >>= k) g' := by
  intro counts counters hcount
  rw [List.foldlM_append] at hcount
  obtain ⟨counts₁, hcount₁, hcount⟩ := bind_ok_iff.mp hcount
  exact bind_ok_iff.mpr ⟨_, h counts counts₁ hcount₁, h' counts₁ counters hcount⟩

end Adds

theorem Table.meter_insert [DecidableEq κ] (t : Table κ γ) (k k' : κ) (c : γ) :
    (t.insert k c).meter k' = if k' = k then c else t.meter k' := by
  rw [meter, get?_insert_if]
  split
  · rfl
  · rfl

variable [DecidableEq κ]

/-- All that a list counts for one key. -/
def counted (l : List (κ × γ)) (k : κ) (i : Nat) : Nat :=
  ((l.filter (·.1 = k)).map fun e => Meter.read e.2 i).sum

omit [Key κ] in
theorem counted_cons (e : κ × γ) (l : List (κ × γ)) (k : κ) (i : Nat) :
    counted (e :: l) k i = (if e.1 = k then Meter.read e.2 i else 0) + counted l k i := by
  unfold counted
  rw [List.filter_cons]
  split
  · next h => simp [of_decide_eq_true h]
  · next h => simp [of_decide_eq_false (Bool.eq_false_iff.mpr h)]

theorem read_tallied (h : l.foldlM Table.tally t = .ok t') (k : κ) (i : Nat) :
    Meter.read (t'.meter k) i = Meter.read (t.meter k) i + counted l k i := by
  induction l generalizing t with
  | nil =>
    cases pure_ok_iff.mp h
    rfl
  | cons e l ih =>
    rw [List.foldlM_cons] at h
    obtain ⟨t₁, h₁, h⟩ := bind_ok_iff.mp h
    obtain ⟨c, hc, h₁⟩ := bind_ok_iff.mp h₁
    obtain rfl := pure_ok_iff.mp h₁
    rw [ih h, Table.meter_insert, counted_cons]
    by_cases hk : e.1 = k
    · rw [if_pos hk.symm, if_pos hk, Meter.read_add hc, hk]
      omega
    · rw [if_neg (Ne.symm hk), if_neg hk, Nat.zero_add]

theorem succeeds_tallied (h : ∀ k i, Meter.read (t.meter k) i + counted l k i < UInt64.size) :
    Succeeds (l.foldlM Table.tally t) := by
  induction l generalizing t with
  | nil => exact succeeds_ok t
  | cons e l ih =>
    rw [List.foldlM_cons]
    have hfits : Succeeds (Meter.add (t.meter e.1) e.2) := by
      refine Meter.succeeds_add fun i => ?_
      have := h e.1 i
      rw [counted_cons, if_pos rfl] at this
      omega
    obtain ⟨c, hc⟩ := hfits
    refine Succeeds.bind ⟨t.insert e.1 c, bind_ok_iff.mpr ⟨c, hc, rfl⟩⟩ fun t₁ h₁ => ih fun k i => ?_
    obtain ⟨c', hc', h₁⟩ := bind_ok_iff.mp h₁
    obtain rfl := pure_ok_iff.mp h₁
    have := h k i
    rw [counted_cons] at this
    rw [Table.meter_insert]
    by_cases hk : e.1 = k
    · rw [if_pos hk] at this
      rw [if_pos hk.symm, Meter.read_add hc', hk]
      omega
    · rw [if_neg hk] at this
      rw [if_neg (Ne.symm hk)]
      omega

/-- What was counted from zero can be added to the counters of every key. -/
def Table.Fits (t total : Table κ γ) : Prop :=
  ∀ k ∈ total.keys, Succeeds (Meter.add (t.meter k) (total.meter k))

instance (t total : Table κ γ) : Decidable (t.Fits total) :=
  inferInstanceAs (Decidable (∀ k ∈ total.keys, Succeeds (Meter.add (t.meter k) (total.meter k))))

/-- A table can take a list if it can take, key by key, what the list counts from zero. -/
theorem succeeds_tallied_of_totals {total : Table κ γ}
    (htotal : l.foldlM Table.tally (∅ : Table κ γ) = .ok total) (h : t.Fits total) :
    Succeeds (l.foldlM Table.tally t) := by
  refine succeeds_tallied fun k i => ?_
  have hcounted := read_tallied htotal k i
  have hzero : Meter.read (Table.meter (∅ : Table κ γ) k) i = 0 := Meter.read_zero i
  by_cases hk : k ∈ total.keys
  · obtain ⟨c, hc⟩ := h k hk
    have hread := Meter.read_add hc i
    have hlt := Meter.read_lt c i
    omega
  · -- Nothing is counted for other keys.
    have hnone : total.meter k = Meter.zero := by
      rw [Table.meter, Option.not_isSome_iff_eq_none.mp fun h => hk (Table.mem_keys.mpr h)]
      rfl
    have hread : Meter.read (total.meter k) i = 0 := hnone ▸ Meter.read_zero i
    have hlt := Meter.read_lt (t.meter k) i
    omega

omit [Key κ] in
theorem counted_append (l l' : List (κ × γ)) (k : κ) (i : Nat) :
    counted (l ++ l') k i = counted l k i + counted l' k i := by
  simp [counted]

/-- Each counter of each key is counted up by at most `n`. -/
def CountsAtMost (n : Nat) (l : List (κ × γ)) : Prop := ∀ k i, counted l k i ≤ n

omit [Key κ] in
theorem countsAtMost_nil (n : Nat) : CountsAtMost n ([] : List (κ × γ)) := fun _ _ => Nat.zero_le n

omit [Key κ] in
theorem countsAtMost_singleton {n : Nat} {e : κ × γ} (h : ∀ i, Meter.read e.2 i ≤ n) :
    CountsAtMost n [e] := by
  intro k i
  have := h i
  rw [counted_cons]
  change _ + 0 ≤ n
  split <;> omega

omit [Key κ] in
theorem CountsAtMost.append {m n : Nat} (h : CountsAtMost m l)
    (h' : CountsAtMost n l') : CountsAtMost (m + n) (l ++ l') := by
  intro k i
  rw [counted_append]
  exact Nat.add_le_add (h k i) (h' k i)

omit [Key κ] in
theorem countsAtMost_of_reads {n : Nat} (h : ∀ e ∈ l, ∀ i, Meter.read e.2 i ≤ n) :
    CountsAtMost (l.length * n) l := by
  induction l with
  | nil => exact countsAtMost_nil _
  | cons e l ih =>
    have hcons := (countsAtMost_singleton (h e List.mem_cons_self)).append
      (ih fun e he => h e (List.mem_cons_of_mem _ he))
    rwa [List.length_cons, Nat.succ_mul, Nat.add_comm]

theorem CountsAtMost.succeeds {n : Nat} (h : CountsAtMost n l) (hn : n < UInt64.size) :
    Succeeds (l.foldlM Table.tally (∅ : Table κ γ)) := by
  refine succeeds_tallied fun k i => ?_
  have hzero : Meter.read (Table.meter (∅ : Table κ γ) k) i = 0 := Meter.read_zero i
  have := h k i
  omega

end Tallied

end Airtime
