import Airtime.Proofs.Harq
import Mathlib.Data.List.Count

/-! A pool of processes under any requests, from any holder and for any process. The free queue and
the processes are two views of one thing. No request brings them apart: each one keeps the pool
well-formed, so every pool that requests lead to is consistent. -/

namespace Airtime.HarqTable

variable {κ π : Type} {t t' : HarqTable κ π} {k : κ} {id : ProcessId}

theorem process?_some_iff {p : Process κ π} :
    t.process? id = some p ↔ (p, id.toNat) ∈ t.processes.zipIdx := by
  rw [List.mem_zipIdx_iff_getElem?, process?]

theorem WellFormed.available_eq (wf : t.WellFormed) :
    t.available = t.processes.countP fun p => p.holder.isNone := by
  -- Number and process of all processes without a holder.
  let idle := t.processes.zipIdx.filter fun x => x.1.holder.isNone
  have hnodup : (idle.map Prod.snd).Nodup := by
    refine (List.filter_sublist.map Prod.snd).nodup ?_
    rw [List.zipIdx_map_snd]
    exact List.nodup_range'
  have hperm : (t.free.map UInt8.toNat).Perm (idle.map Prod.snd) := by
    refine (List.perm_ext_iff_of_nodup
      (wf.free_nodup.map fun _ _ => UInt8.toNat_inj.mp) hnodup).mpr fun n => ?_
    simp only [List.mem_map, idle, List.mem_filter, Prod.exists, exists_eq_right]
    constructor
    · rintro ⟨id, hid, rfl⟩
      obtain ⟨p, hp, hnone⟩ := (wf.free_iff id).mp hid
      exact ⟨p, process?_some_iff.mp hp, by simp [hnone]⟩
    · rintro ⟨p, hp, hnone⟩
      have hlt : n < t.capacity := List.snd_lt_of_mem_zipIdx hp
      have hn := toNat_number (Nat.le_of_lt (Nat.lt_of_lt_of_le hlt wf.small))
      have hp : t.process? (UInt8.ofNat n) = some p := process?_some_iff.mpr (by rwa [hn])
      exact ⟨UInt8.ofNat n, (wf.free_iff _).mpr ⟨p, hp, by simpa using hnone⟩, hn⟩
  have hlength := hperm.length_eq
  rw [List.length_map, List.length_map, ← List.countP_eq_length_filter] at hlength
  have hcount := List.countP_map (p := fun p : Process κ π => p.holder.isNone) (f := Prod.fst)
    (l := t.processes.zipIdx)
  rw [List.zipIdx_map_fst] at hcount
  rw [available, hlength, hcount]
  rfl

/-- Free queue and processes, side by side. -/
structure Consistent (t : HarqTable κ π) : Prop where
  free_nodup : t.free.Nodup
  free_lt : ∀ id ∈ t.free, id.toNat < t.capacity
  free_iff : ∀ id, id.toNat < t.capacity → (id ∈ t.free ↔ t.holder? id = none)
  idle : ∀ id p, t.process? id = some p → p.holder = none → p.channels = ∅ ∧ p.packets = []
  paired : ∀ id p, t.process? id = some p → p.channels.size = p.packets.length
  count : t.available + t.processes.countP (fun p => p.holder.isSome) = t.capacity

theorem WellFormed.consistent (wf : t.WellFormed) : t.Consistent where
  free_nodup := wf.free_nodup
  free_lt id hid := by
    obtain ⟨p, hp, -⟩ := (wf.free_iff id).mp hid
    exact process?_isSome_iff.mp (by simp [hp])
  free_iff id hlt := by
    obtain ⟨p, hp⟩ := Option.isSome_iff_exists.mp (process?_isSome_iff.mpr hlt)
    rw [wf.free_iff, holder?, ← process?, hp]
    simp
  idle id p hp hnone := by
    rw [wf.idle id p hp hnone]
    exact ⟨rfl, rfl⟩
  paired := wf.paired
  count := by
    rw [wf.available_eq, capacity, List.length_eq_countP_add_countP fun p : Process κ π =>
      p.holder.isNone]
    congr 2
    funext p
    cases p.holder <;> rfl

theorem available_of_assign (h : t.assign k = .ok (id, t')) :
    t.isFree id = true ∧ t'.available + 1 = t.available := by
  have hfree := free_of_assign h
  rw [isFree_iff, available, available, hfree]
  exact ⟨by simp, rfl⟩

theorem wellFormed_unsized : (unsized : HarqTable κ π).WellFormed where
  small := Nat.zero_le _
  free_nodup := .nil
  free_iff id := by simp [unsized, process?]
  idle id p hp _ := by simp [unsized, process?] at hp
  paired id p hp := by simp [unsized, process?] at hp

theorem WellFormed.setup_ok_iff (wf : t.WellFormed) {n : UInt8} :
    t.setup n = .ok t' ↔ t.capacity = 0 ∧ t' = .ofCapacity n := by
  have hfree : t.capacity = 0 → t.free = [] := fun h0 =>
    List.eq_nil_iff_forall_not_mem.mpr fun id hid =>
      absurd (wf.consistent.free_lt id hid) (by omega)
  unfold setup
  split
  · next h =>
    simp only [Bool.and_eq_true, List.isEmpty_iff] at h
    simp [capacity, h.2, eq_comm]
  · next h =>
    simp only [Bool.and_eq_true, List.isEmpty_iff] at h
    simp only [reduceCtorEq, false_iff]
    exact fun h0 => h ⟨hfree h0.1, List.eq_nil_of_length_eq_zero h0.1⟩

theorem assign_ok_iff : (∃ x, t.assign k = .ok x) ↔ 0 < t.available := by
  unfold assign available
  split
  · next h => simp [h]
  · next h => simp [h]

/-- What can be asked of a pool. -/
inductive Request (κ π : Type) where
  | setup (n : UInt8)
  | clear
  | assign (holder : κ)
  /-- Like `assign`, but having no free process is no refusal. -/
  | tryAssign (holder : κ)
  | addPacket (holder : κ) (channel : ChannelId) (id : ProcessId) (packet : π)
  | release (holder : κ) (id : ProcessId)

variable [DecidableEq κ] [Holder κ]

def attempt (t : HarqTable κ π) :
    Request κ π → Except HarqError (Option ProcessId × HarqTable κ π)
  | .setup n => do return (none, ← t.setup n)
  | .clear => .ok (none, .unsized)
  | .assign k => do
    let (id, t) ← t.assign k
    return (some id, t)
  | .tryAssign k =>
    match t.assign k with
    | .error _ => .ok (none, t)
    | .ok (id, t) => .ok (some id, t)
  | .addPacket k ch id x => do return (none, ← t.addPacket k ch id x)
  | .release k id => do return (none, ← t.release k id)

/-- Steps that change a pool. A refusal leaves behind what the steps before it have changed. -/
abbrev InPlace (κ π α : Type) := EStateM HarqError (HarqTable κ π) α

namespace InPlace

variable {α : Type}

def setup (n : UInt8) : InPlace κ π Unit := do
  let t ← get
  if !t.free.isEmpty || !t.processes.isEmpty then throw .alreadySized
  else
    modify ({ · with free := (List.range n.toNat).map UInt8.ofNat })
    modify ({ · with processes := List.replicate n.toNat .empty })

def clear : InPlace κ π Unit := do
  modify ({ · with free := [] })
  modify ({ · with processes := [] })

def assign (k : κ) : InPlace κ π ProcessId := do
  match (← get).free with
  | [] => throw .allBusy
  | id :: rest =>
    modify ({ · with free := rest })
    modify fun t =>
      { t with processes := t.processes.modify id.toNat ({ · with holder := some k }) }
    return id

def held (k : κ) (id : ProcessId) : InPlace κ π (Process κ π) := do
  match (← get).held k id with
  | .error e => throw e
  | .ok p => return p

def addPacket (k : κ) (ch : ChannelId) (id : ProcessId) (x : π) : InPlace κ π Unit := do
  let p ← held k id
  let channels := p.channels.insert ch ()
  let packets := p.packets.length + 1
  if channels.size ≠ packets then throw (.payloadMismatch id channels.size packets)
  else
    modify (·.put id { p with channels })
    modify (·.put id { p with channels, packets := p.packets ++ [x] })

def release (k : κ) (id : ProcessId) : InPlace κ π Unit := do
  let t ← get
  if t.capacity ≤ id.toNat then throw (.unknownProcess id)
  else if t.isFree id then throw (.alreadyFree id)
  else
    let _ ← held k id
    modify (·.put id .empty)
    modify fun t => { t with free := t.free ++ [id] }

def request : Request κ π → InPlace κ π (Option ProcessId)
  | .setup n => do
    setup n
    return none
  | .clear => do
    clear
    return none
  | .assign k => some <$> assign k
  | .tryAssign k => tryCatch (some <$> assign k) fun _ => return none
  | .addPacket k ch id x => do
    addPacket k ch id x
    return none
  | .release k id => do
    release k id
    return none

/-- What steps leave behind when they do what an operation gives, and are refused before they have
changed anything. -/
def done (t : HarqTable κ π) : Except HarqError (α × HarqTable κ π) →
    EStateM.Result HarqError (HarqTable κ π) α
  | .error e => .error e t
  | .ok (a, t') => .ok a t'

theorem run_held (t : HarqTable κ π) (k : κ) (id : ProcessId) :
    (held k id).run t = done t ((·, t) <$> t.held k id) := by
  simp only [held, EStateM.run_bind, EStateM.run_get]
  cases t.held k id <;> rfl

theorem run_addPacket (t : HarqTable κ π) (k : κ) (ch : ChannelId) (id : ProcessId) (x : π) :
    (addPacket k ch id x).run t = done t (((), ·) <$> t.addPacket k ch id x) := by
  rw [addPacket, EStateM.run_bind, run_held, HarqTable.addPacket]
  cases t.held k id with
  | error e => rfl
  | ok p =>
    simp only [done, Functor.map, Except.map, bind, Except.bind, List.length_append,
      List.length_singleton, ne_eq, ite_not]
    split
    · exact congrArg (EStateM.Result.ok ()) (put_put ..)
    · rfl

theorem run_release (t : HarqTable κ π) (k : κ) (id : ProcessId) :
    (release k id).run t = done t (((), ·) <$> t.release k id) := by
  unfold release HarqTable.release
  simp only [EStateM.run_bind, EStateM.run_get]
  split
  · rfl
  · split
    · rfl
    · rw [EStateM.run_bind, run_held]
      cases t.held k id <;> rfl

theorem run_request (t : HarqTable κ π) (q : Request κ π) :
    (request q).run t = done t (t.attempt q) := by
  cases q with
  | setup n =>
    obtain ⟨free, processes⟩ := t
    cases free <;> cases processes <;> rfl
  | clear => rfl
  | assign k =>
    obtain ⟨free, processes⟩ := t
    cases free <;> rfl
  | tryAssign k =>
    obtain ⟨free, processes⟩ := t
    cases free <;> rfl
  | addPacket k ch id x =>
    rw [request, EStateM.run_bind, run_addPacket, attempt]
    cases t.addPacket k ch id x <;> rfl
  | release k id =>
    rw [request, EStateM.run_bind, run_release, attempt]
    cases t.release k id <;> rfl

end InPlace

def perform (t : HarqTable κ π) (q : Request κ π) :
    HarqTable κ π × Except HarqError (Option ProcessId) :=
  match (InPlace.request q).run t with
  | .error e t => (t, .error e)
  | .ok taken t => (t, .ok taken)

/-- In place a request does what the operations of the pool give, all of it or nothing. -/
theorem perform_eq (t : HarqTable κ π) (q : Request κ π) : t.perform q =
    match t.attempt q with
    | .error e => (t, .error e)
    | .ok (taken, t) => (t, .ok taken) := by
  rw [perform, InPlace.run_request]
  cases t.attempt q <;> rfl

/-- The pools that requests lead to, from one that was not sized yet or from one of a given size. -/
inductive Reached : HarqTable κ π → Prop
  | unsized : Reached .unsized
  | ofCapacity (n : UInt8) : Reached (.ofCapacity n)
  | step {t : HarqTable κ π} (h : Reached t) (q : Request κ π) : Reached (t.perform q).1

theorem addPacket_ok_iff {ch : ChannelId} {x : π} : t.addPacket k ch id x = .ok t' ↔
    ∃ p, t.process? id = some p ∧ p.holder = some k ∧
      (p.add ch x).channels.size = (p.add ch x).packets.length ∧ t' = t.put id (p.add ch x) := by
  simp only [addPacket, bind_ok_iff, held_ok_iff, Process.add]
  constructor
  · rintro ⟨p, ⟨hp, hk⟩, h⟩
    split at h
    · next hpaired => exact ⟨p, hp, hk, hpaired, (Except.ok.inj h).symm⟩
    · cases h
  · rintro ⟨p, hp, hk, hpaired, rfl⟩
    exact ⟨p, ⟨hp, hk⟩, by rw [if_pos hpaired]⟩

theorem wellFormed_addPacket (wf : t.WellFormed) {ch : ChannelId} {x : π}
    (h : t.addPacket k ch id x = .ok t') : t'.WellFormed := by
  obtain ⟨p, hp, hk, hpaired, rfl⟩ := addPacket_ok_iff.mp h
  exact wellFormed_put wf hp (by simp [hk]) rfl hpaired

theorem wellFormed_attempt (wf : t.WellFormed) {q : Request κ π} {taken : Option ProcessId}
    (h : t.attempt q = .ok (taken, t')) : t'.WellFormed := by
  cases q with
  | setup n =>
    simp only [attempt, bind_ok_iff, pure_ok_iff, Prod.mk.injEq] at h
    obtain ⟨_, hsetup, -, rfl⟩ := h
    exact (wf.setup_ok_iff.mp hsetup).2 ▸ wellFormed_ofCapacity n
  | clear =>
    cases h
    exact wellFormed_unsized
  | assign k =>
    simp only [attempt, bind_ok_iff, pure_ok_iff, Prod.mk.injEq] at h
    obtain ⟨⟨id, _⟩, hassign, -, rfl⟩ := h
    exact wellFormed_assign wf hassign
  | tryAssign k =>
    simp only [attempt] at h
    split at h
    · cases h
      exact wf
    · next hassign =>
      cases h
      exact wellFormed_assign wf hassign
  | addPacket k ch id x =>
    simp only [attempt, bind_ok_iff, pure_ok_iff, Prod.mk.injEq] at h
    obtain ⟨_, hadd, -, rfl⟩ := h
    exact wellFormed_addPacket wf hadd
  | release k id =>
    simp only [attempt, bind_ok_iff, pure_ok_iff, Prod.mk.injEq] at h
    obtain ⟨_, hrelease, -, rfl⟩ := h
    exact wellFormed_release wf hrelease

theorem wellFormed_perform (wf : t.WellFormed) (q : Request κ π) :
    (t.perform q).1.WellFormed := by
  rw [perform_eq]
  split
  · exact wf
  · next h => exact wellFormed_attempt wf h

theorem Reached.wellFormed (h : Reached t) : t.WellFormed := by
  induction h with
  | unsized => exact wellFormed_unsized
  | ofCapacity n => exact wellFormed_ofCapacity n
  | step _ q ih => exact wellFormed_perform ih q

def Accepts (t : HarqTable κ π) : Request κ π → Prop
  | .setup _ => t.capacity = 0
  | .clear | .tryAssign _ => True
  | .assign _ => 0 < t.available
  | .addPacket k ch id _ =>
    ∃ p, t.process? id = some p ∧ p.holder = some k ∧ ch ∉ p.channels.keys
  | .release k id => t.holder? id = some k

/-- What comes of a request. -/
structure Handled (t : HarqTable κ π) (q : Request κ π) : Prop where
  accepted : (∃ o, (t.perform q).2 = .ok o) ↔ t.Accepts q
  refused : ∀ e, (t.perform q).2 = .error e → (t.perform q).1 = t
  assigned : ∀ k o, q = .assign k → (t.perform q).2 = .ok o → o.isSome
  /-- The process that is taken was free, and there is one less. -/
  taken : ∀ k id, q = .assign k ∨ q = .tryAssign k → (t.perform q).2 = .ok (some id) →
    t.isFree id = true ∧ (t.perform q).1.holder? id = some k ∧
      (t.perform q).1.available + 1 = t.available
  released : ∀ k id o, q = .release k id → (t.perform q).2 = .ok o →
    (t.perform q).1.isFree id = true ∧ (t.perform q).1.available = t.available + 1

theorem perform_ok_iff {q : Request κ π} {o : Option ProcessId} :
    (t.perform q).2 = .ok o ↔ t.attempt q = .ok (o, (t.perform q).1) := by
  rw [perform_eq]
  split
  · next h => simp [h]
  · next taken t' h => simp [h]

theorem exists_perform_ok_iff {q : Request κ π} :
    (∃ o, (t.perform q).2 = .ok o) ↔ ∃ x, t.attempt q = .ok x := by
  rw [perform_eq]
  split
  · next h => simp [h]
  · next h => simp [h]

theorem WellFormed.accepted (wf : t.WellFormed) (q : Request κ π) :
    (∃ x, t.attempt q = .ok x) ↔ t.Accepts q := by
  cases q with
  | setup n =>
    simp only [attempt, Accepts, bind_ok_iff, pure_ok_iff, wf.setup_ok_iff]
    constructor
    · rintro ⟨_, _, ⟨h0, -⟩, -⟩
      exact h0
    · intro h0
      exact ⟨_, _, ⟨h0, rfl⟩, rfl⟩
  | clear => simp [attempt, Accepts]
  | assign k =>
    rw [Accepts, ← assign_ok_iff (k := k)]
    simp only [attempt, bind_ok_iff, pure_ok_iff]
    constructor
    · rintro ⟨_, x, hassign, -⟩
      exact ⟨x, hassign⟩
    · rintro ⟨x, hassign⟩
      exact ⟨_, x, hassign, rfl⟩
  | tryAssign k =>
    simp only [attempt, Accepts, iff_true]
    split <;> exact ⟨_, rfl⟩
  | addPacket k ch id x =>
    simp only [attempt, Accepts, bind_ok_iff, pure_ok_iff, addPacket_ok_iff]
    constructor
    · rintro ⟨_, _, ⟨p, hp, hk, hpaired, -⟩, -⟩
      exact ⟨p, hp, hk, (Process.paired_add_iff (wf.paired id p hp)).mp hpaired⟩
    · rintro ⟨p, hp, hk, hnew⟩
      exact ⟨_, _, ⟨p, hp, hk, Process.paired_add (wf.paired id p hp) hnew, rfl⟩, rfl⟩
  | release k id =>
    simp only [attempt, Accepts, bind_ok_iff, pure_ok_iff, release_ok_iff, holder?_eq_some_iff]
    constructor
    · rintro ⟨_, _, ⟨-, hheld, -⟩, -⟩
      exact hheld
    · rintro ⟨p, hp, hk⟩
      refine ⟨_, _, ⟨fun hfree => ?_, ⟨p, hp, hk⟩, rfl⟩, rfl⟩
      obtain ⟨q, hq, hnone⟩ := (wf.free_iff id).mp hfree
      rw [hp, Option.some.injEq] at hq
      rw [← hq, hk] at hnone
      cases hnone

theorem WellFormed.handled (wf : t.WellFormed) (q : Request κ π) : t.Handled q where
  accepted := exists_perform_ok_iff.trans (wf.accepted q)
  refused e he := by
    rw [perform_eq] at he ⊢
    split
    · rfl
    · next h => simp [h] at he
  assigned k o hq ho := by
    subst hq
    rw [perform_ok_iff] at ho
    simp only [attempt, bind_ok_iff, pure_ok_iff, Prod.mk.injEq] at ho
    obtain ⟨⟨id, _⟩, -, rfl, -⟩ := ho
    rfl
  taken k id hq ho := by
    rw [perform_ok_iff] at ho
    have hassign : t.assign k = .ok (id, (t.perform q).1) := by
      rcases hq with rfl | rfl
      · simp only [attempt, bind_ok_iff, pure_ok_iff, Prod.mk.injEq, Option.some.injEq] at ho
        obtain ⟨⟨_, _⟩, hassign, rfl, hpool⟩ := ho
        exact hpool ▸ hassign
      · simp only [attempt] at ho
        split at ho
        · cases ho
        · next hassign =>
          simp only [Except.ok.injEq, Prod.mk.injEq, Option.some.injEq] at ho
          obtain ⟨rfl, hpool⟩ := ho
          exact hpool ▸ hassign
    obtain ⟨hfree, hcount⟩ := available_of_assign hassign
    have hproc := process?_assign wf hassign id
    rw [if_pos rfl] at hproc
    refine ⟨hfree, ?_, hcount⟩
    rw [holder?, ← process?, hproc]
    rfl
  released k id o hq ho := by
    subst hq
    rw [perform_ok_iff] at ho
    simp only [attempt, bind_ok_iff, pure_ok_iff, Prod.mk.injEq] at ho
    obtain ⟨pool, hrelease, -, hpool⟩ := ho
    obtain ⟨-, -, rfl⟩ := release_ok_iff.mp hrelease
    rw [← hpool]
    simp [isFree, available]

/-- Whatever was asked of a pool before, its two views agree, and so they do when the next request
is handled. -/
theorem pool_consistent (h : t.Reached) : t.Consistent ∧ ∀ q, t.Handled q :=
  ⟨h.wellFormed.consistent, h.wellFormed.handled⟩

/-- One of two processes is taken and stores a packet. A second packet of the same channel and the
release for another holder are refused. -/
theorem pool_consistent_sample :
    let requests : List (Request UInt32 Unit) :=
      [.assign 100, .addPacket 100 3 0 (), .addPacket 100 3 0 (), .release 200 0]
    let pool : HarqTable UInt32 Unit :=
      requests.foldl (fun t q => (t.perform q).1) (.ofCapacity 2)
    pool.free = [1] ∧ pool.Consistent ∧ ∀ q, pool.Handled q := by
  exact ⟨by decide +kernel, pool_consistent
    (.step (.step (.step (.step (.ofCapacity 2) _) _) _) _)⟩

end Airtime.HarqTable
