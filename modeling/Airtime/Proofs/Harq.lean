import Airtime.Harq
import Airtime.Proofs.Table

/-! A pool of processes stays consistent: the free queue lists exactly the processes without a holder,
each once, and a process without a holder is empty. Each operation is read as a change to one
process, the others being left as they were. -/

namespace Airtime

namespace Process

variable {κ π : Type}

def add (p : Process κ π) (ch : ChannelId) (x : π) : Process κ π :=
  { p with channels := p.channels.insert ch (), packets := p.packets ++ [x] }

def addAll (channel : π → ChannelId) (p : Process κ π) (xs : List π) : Process κ π :=
  xs.foldl (fun p x => p.add (channel x) x) p

variable {p : Process κ π} {channel : π → ChannelId}

@[simp] theorem addAll_nil : p.addAll channel [] = p := rfl

theorem addAll_cons (x : π) (xs : List π) :
    p.addAll channel (x :: xs) = (p.add (channel x) x).addAll channel xs := rfl

@[simp] theorem holder_addAll (xs : List π) : (p.addAll channel xs).holder = p.holder := by
  induction xs generalizing p with
  | nil => rfl
  | cons x xs ih => rw [addAll_cons, ih, add]

@[simp] theorem packets_addAll (xs : List π) :
    (p.addAll channel xs).packets = p.packets ++ xs := by
  induction xs generalizing p with
  | nil => simp
  | cons x xs ih => rw [addAll_cons, ih, add, List.append_assoc, List.singleton_append]

theorem mem_keys_add {ch ch' : ChannelId} {x : π} :
    ch' ∈ (p.add ch x).channels.keys ↔ ch' = ch ∨ ch' ∈ p.channels.keys := by
  simp only [add, Table.mem_keys, Table.get?_insert_if]
  by_cases h : ch' = ch <;> simp [h]

theorem paired_add {ch : ChannelId} {x : π} (paired : p.channels.size = p.packets.length)
    (new : ch ∉ p.channels.keys) :
    (p.add ch x).channels.size = (p.add ch x).packets.length := by
  simp [add, Table.size_insert, Table.contains_iff, new, paired]

/-- A process that stores as many packets as channels takes one more for a new channel. -/
theorem paired_add_iff {ch : ChannelId} {x : π}
    (paired : p.channels.size = p.packets.length) :
    (p.add ch x).channels.size = (p.add ch x).packets.length ↔ ch ∉ p.channels.keys := by
  refine ⟨fun h hmem => ?_, paired_add paired⟩
  simp [add, Table.size_insert, Table.contains_iff, hmem, paired] at h

theorem paired_addAll {xs : List π} (paired : p.channels.size = p.packets.length)
    (nodup : (xs.map channel).Nodup) (new : ∀ x ∈ xs, channel x ∉ p.channels.keys) :
    (p.addAll channel xs).channels.size = (p.addAll channel xs).packets.length := by
  induction xs generalizing p with
  | nil => exact paired
  | cons x xs ih =>
    rw [List.map_cons, List.nodup_cons] at nodup
    rw [addAll_cons]
    apply ih (paired_add paired (new x (by simp))) nodup.2
    intro y hy
    rw [mem_keys_add, not_or]
    exact ⟨fun he => nodup.1 (he ▸ List.mem_map_of_mem hy), new y (by simp [hy])⟩

end Process

namespace HarqTable

variable {κ π : Type}

def process? (t : HarqTable κ π) (id : ProcessId) : Option (Process κ π) := t.processes[id.toNat]?

structure WellFormed (t : HarqTable κ π) : Prop where
  small : t.capacity ≤ 255
  free_nodup : t.free.Nodup
  free_iff : ∀ id, id ∈ t.free ↔ ∃ p, t.process? id = some p ∧ p.holder = none
  idle : ∀ id p, t.process? id = some p → p.holder = none → p = .empty
  paired : ∀ id p, t.process? id = some p → p.channels.size = p.packets.length

theorem process?_isSome_iff {t : HarqTable κ π} {id : ProcessId} :
    (t.process? id).isSome ↔ id.toNat < t.capacity := by
  simp [process?, capacity]

theorem toNat_number {n : Nat} (h : n ≤ 255) : (UInt8.ofNat n).toNat = n :=
  UInt8.toNat_ofNat_of_lt' (by simp [UInt8.size]; omega)

theorem isFree_iff {t : HarqTable κ π} {id : ProcessId} : t.isFree id = true ↔ id ∈ t.free := by
  simp [isFree]

theorem holder?_eq_some_iff {t : HarqTable κ π} {id : ProcessId} {k : κ} :
    t.holder? id = some k ↔ ∃ p, t.process? id = some p ∧ p.holder = some k :=
  Option.bind_eq_some_iff

section Put

variable {t : HarqTable κ π} {id : ProcessId} {p q : Process κ π}

@[simp] theorem free_put : (t.put id p).free = t.free := rfl

@[simp] theorem capacity_put : (t.put id p).capacity = t.capacity := by simp [put, capacity]

theorem process?_put (h : t.process? id = some q) (id' : ProcessId) :
    (t.put id p).process? id' = if id' = id then some p else t.process? id' := by
  have hlt : id.toNat < t.processes.length := process?_isSome_iff.mp (by simp [h])
  simp only [process?, put, List.getElem?_set]
  by_cases hid : id' = id
  · simp [hid, hlt]
  · have : id.toNat ≠ id'.toNat := fun he => hid (UInt8.toNat_inj.mp he).symm
    simp [hid, this]

theorem put_put : (t.put id p).put id q = t.put id q := by simp [put]

theorem put_self (h : t.process? id = some p) : t.put id p = t := by
  obtain ⟨hlt, rfl⟩ := List.getElem?_eq_some_iff.mp h
  simp [put]

/-- A process that keeps its holder and stays paired can be put in place of itself. -/
theorem wellFormed_put (wf : t.WellFormed) (h : t.process? id = some q)
    (held : q.holder.isSome) (same : p.holder = q.holder)
    (paired : p.channels.size = p.packets.length) : (t.put id p).WellFormed where
  small := by simpa using wf.small
  free_nodup := wf.free_nodup
  free_iff id' := by
    rw [free_put, wf.free_iff, process?_put h]
    by_cases hid : id' = id
    · subst hid
      simp only [h, if_true, Option.some.injEq, exists_eq_left', same]
    · simp only [if_neg hid]
  idle id' r hr hh := by
    rw [process?_put h] at hr
    split at hr
    · cases hr
      rw [same] at hh
      rw [hh] at held
      cases held
    · exact wf.idle id' r hr hh
  paired id' r hr := by
    rw [process?_put h] at hr
    split at hr
    · cases hr
      exact paired
    · exact wf.paired id' r hr

end Put

theorem process?_ofCapacity (n : UInt8) (id : ProcessId) :
    (ofCapacity n : HarqTable κ π).process? id =
      if id.toNat < n.toNat then some .empty else none := by
  simp [process?, ofCapacity, List.getElem?_replicate]

theorem mem_free_ofCapacity {n : UInt8} {id : ProcessId} :
    id ∈ (ofCapacity n : HarqTable κ π).free ↔ id.toNat < n.toNat := by
  simp only [ofCapacity, List.mem_map, List.mem_range]
  constructor
  · rintro ⟨i, hi, rfl⟩
    have := n.toNat_lt
    rwa [toNat_number (by omega)]
  · intro h
    exact ⟨id.toNat, h, UInt8.ofNat_toNat⟩

@[simp] theorem capacity_ofCapacity (n : UInt8) :
    (ofCapacity n : HarqTable κ π).capacity = n.toNat := by simp [capacity, ofCapacity]

theorem wellFormed_ofCapacity (n : UInt8) : (ofCapacity n : HarqTable κ π).WellFormed where
  small := by
    have := n.toNat_lt
    simp
    omega
  free_nodup := by
    refine List.Nodup.map_on ?_ List.nodup_range
    intro i hi j hj hij
    have := n.toNat_lt
    rw [List.mem_range] at hi hj
    have := congrArg UInt8.toNat hij
    rwa [toNat_number (by omega), toNat_number (by omega)] at this
  free_iff id := by
    rw [mem_free_ofCapacity, process?_ofCapacity]
    split
    · next h => simp [h, Process.empty]
    · next h => simp [h]
  idle id p hp _ := by
    rw [process?_ofCapacity] at hp
    split at hp
    · exact (Option.some.inj hp).symm
    · cases hp
  paired id p hp := by
    rw [process?_ofCapacity] at hp
    split at hp
    · cases hp
      rfl
    · cases hp

section Assign

variable {t t' : HarqTable κ π} {k : κ} {id : ProcessId}

theorem free_of_assign (h : t.assign k = .ok (id, t')) : t.free = id :: t'.free := by
  unfold assign at h
  split at h
  · cases h
  · next heq =>
    cases h
    exact heq

theorem capacity_of_assign (h : t.assign k = .ok (id, t')) : t'.capacity = t.capacity := by
  unfold assign at h
  split at h
  · cases h
  · cases h
    simp [capacity]

theorem process?_assigned (wf : t.WellFormed) (h : t.assign k = .ok (id, t')) :
    t.process? id = some .empty := by
  have hmem : id ∈ t.free := by simp [free_of_assign h]
  obtain ⟨p, hp, hh⟩ := (wf.free_iff id).mp hmem
  rw [hp, wf.idle id p hp hh]

theorem process?_assign (wf : t.WellFormed) (h : t.assign k = .ok (id, t')) (id' : ProcessId) :
    t'.process? id' = if id' = id then some ⟨some k, ∅, []⟩ else t.process? id' := by
  have hempty := process?_assigned wf h
  unfold assign at h
  split at h
  · cases h
  · cases h
    simp only [process?, List.getElem?_modify] at hempty ⊢
    by_cases hid : id' = id
    · subst hid
      simp [hempty, Process.empty]
    · have : id.toNat ≠ id'.toNat := fun he => hid (UInt8.toNat_inj.mp he).symm
      simp [hid, this]

theorem wellFormed_assign (wf : t.WellFormed) (h : t.assign k = .ok (id, t')) :
    t'.WellFormed := by
  have hfree := free_of_assign h
  have hnodup := wf.free_nodup
  rw [hfree, List.nodup_cons] at hnodup
  have hproc := process?_assign wf h
  refine ⟨capacity_of_assign h ▸ wf.small, hnodup.2, fun id' => ?_, fun id' p hp hh => ?_,
    fun id' p hp => ?_⟩
  · have := wf.free_iff id'
    rw [hfree, List.mem_cons] at this
    rw [hproc]
    by_cases hid : id' = id
    · subst hid
      simp [hnodup.1]
    · simpa [hid] using this
  · rw [hproc] at hp
    split at hp
    · cases hp
      cases hh
    · exact wf.idle id' p hp hh
  · rw [hproc] at hp
    split at hp
    · cases hp
      rfl
    · exact wf.paired id' p hp

end Assign

section Held

variable [DecidableEq κ] [Holder κ] {t t' : HarqTable κ π} {k : κ} {id : ProcessId}

theorem held_ok_iff {p : Process κ π} :
    t.held k id = .ok p ↔ t.process? id = some p ∧ p.holder = some k := by
  unfold held process?
  split
  · next h => simp [h]
  · next q h =>
    rw [h]
    split
    · next hk => simp only [Except.ok.injEq, Option.some.injEq]; grind
    · next hk => simp only [reduceCtorEq, Option.some.injEq]; grind

theorem packets_of_held {p : Process κ π} (h : t.process? id = some p) (hk : p.holder = some k) :
    t.packets k id = .ok p.packets := by
  simp [packets, held_ok_iff.mpr ⟨h, hk⟩, Functor.map, Except.map]

theorem addPacket_of_new {p : Process κ π} {ch : ChannelId} {x : π}
    (hp : t.process? id = some p) (hk : p.holder = some k)
    (paired : p.channels.size = p.packets.length) (new : ch ∉ p.channels.keys) :
    t.addPacket k ch id x = .ok (t.put id (p.add ch x)) := by
  have hh : t.held k id = .ok p := held_ok_iff.mpr ⟨hp, hk⟩
  have hs : (p.channels.insert ch ()).size = p.packets.length + 1 := by
    rw [Table.size_insert, if_neg (by rwa [Table.contains_iff]), paired]
  simp [addPacket, Process.add, hh, hs, bind, Except.bind]

/-- Packets of different channels are all taken by a process that stores none of these channels. -/
theorem addPackets_of_new {channel : π → ChannelId} {p : Process κ π} {xs : List π}
    (hp : t.process? id = some p) (hk : p.holder = some k)
    (paired : p.channels.size = p.packets.length) (nodup : (xs.map channel).Nodup)
    (new : ∀ x ∈ xs, channel x ∉ p.channels.keys) :
    xs.foldlM (fun (t : HarqTable κ π) x => t.addPacket k (channel x) id x) t =
      .ok (t.put id (p.addAll channel xs)) := by
  induction xs generalizing t p with
  | nil => simp [put_self hp, pure, Except.pure]
  | cons x xs ih =>
    rw [List.map_cons, List.nodup_cons] at nodup
    have hx := new x (by simp)
    have hp' : (t.put id (p.add (channel x) x)).process? id = some (p.add (channel x) x) := by
      rw [process?_put hp, if_pos rfl]
    have hnew : ∀ y ∈ xs, channel y ∉ (p.add (channel x) x).channels.keys := by
      intro y hy
      rw [Process.mem_keys_add, not_or]
      refine ⟨fun he => nodup.1 (he ▸ List.mem_map_of_mem hy), new y (by simp [hy])⟩
    rw [List.foldlM_cons, addPacket_of_new hp hk paired hx]
    simp only [bind, Except.bind]
    rw [ih hp' hk (Process.paired_add paired hx) nodup.2 hnew, put_put, Process.addAll_cons]

theorem release_ok_iff : t.release k id = .ok t' ↔
    id ∉ t.free ∧ (∃ p, t.process? id = some p ∧ p.holder = some k) ∧
      t' = { t.put id .empty with free := t.free ++ [id] } := by
  unfold release
  split
  · next hcap =>
    have : t.process? id = none := by
      rw [← Option.not_isSome_iff_eq_none, process?_isSome_iff]
      omega
    simp [this]
  · split
    · next hfree => simp [isFree_iff.mp hfree]
    · next hfree =>
      rw [isFree_iff] at hfree
      simp only [bind_ok_iff, held_ok_iff, Except.ok.injEq, hfree, not_false_eq_true, true_and]
      constructor
      · rintro ⟨p, hp, rfl⟩
        exact ⟨⟨p, hp⟩, rfl⟩
      · rintro ⟨⟨p, hp⟩, rfl⟩
        exact ⟨p, hp, rfl⟩

theorem process?_release (h : t.release k id = .ok t') (id' : ProcessId) :
    t'.process? id' = if id' = id then some .empty else t.process? id' := by
  obtain ⟨-, ⟨p, hp, -⟩, rfl⟩ := release_ok_iff.mp h
  exact process?_put hp id'

theorem wellFormed_release (wf : t.WellFormed) (h : t.release k id = .ok t') :
    t'.WellFormed := by
  have hproc := process?_release h
  obtain ⟨hfree, ⟨p, hp, hk⟩, rfl⟩ := release_ok_iff.mp h
  refine ⟨?_, ?_, fun id' => ?_, fun id' q hq hh => ?_, fun id' q hq => ?_⟩
  · simpa [put, capacity] using wf.small
  · rw [List.nodup_append]
    refine ⟨wf.free_nodup, by simp, ?_⟩
    rintro a ha b hb rfl
    exact hfree (List.mem_singleton.mp hb ▸ ha)
  · rw [hproc, List.mem_append, List.mem_singleton, wf.free_iff]
    by_cases hid : id' = id
    · subst hid
      simp [Process.empty]
    · simp [hid]
  · rw [hproc] at hq
    split at hq
    · cases hq
      rfl
    · exact wf.idle id' q hq hh
  · rw [hproc] at hq
    split at hq
    · cases hq
      rfl
    · exact wf.paired id' q hq

end Held

end HarqTable

/-- The redundancy versions of a block's transmissions, in turn. -/
def versions : List UInt8 := [0, 2, 3, 1]

theorem versions_redundancyVersion (n : UInt8) :
    versions[n.toNat % 4]? = some (redundancyVersion n) := by
  have hlt : n.toNat % 4 < 4 := Nat.mod_lt _ (by decide)
  unfold redundancyVersion
  generalize n.toNat % 4 = m at hlt
  match m with
  | 0 | 1 | 2 | 3 => rfl

end Airtime
