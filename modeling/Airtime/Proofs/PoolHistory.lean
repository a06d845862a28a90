import Airtime.Proofs.Pool

/-! What a process stores is its history: the packets that it accepted since its holder took it, in
the order in which they came, and one channel for each. Requests of other holders leave no trace in
it. -/

namespace Airtime.HarqTable

variable {κ π : Type} {t t' : HarqTable κ π} {k : κ} {id : ProcessId}

structure Exchange (κ π : Type) where
  request : Request κ π
  answer : Except HarqError (Option ProcessId)

def Request.holder? : Request κ π → Option κ
  | .setup _ | .clear => none
  | .assign k | .tryAssign k | .addPacket k _ _ _ | .release k _ => some k

def Exchange.accepted? (id : ProcessId) (e : Exchange κ π) : Option (ChannelId × π) :=
  match e.request, e.answer with
  | .addPacket _ ch id' x, .ok _ => if id' = id then some (ch, x) else none
  | _, _ => none

def acceptedIn (id : ProcessId) (log : List (Exchange κ π)) : List (ChannelId × π) :=
  log.filterMap (Exchange.accepted? id)

/-- The exchanges of a log after `k` took the process, when nobody has taken it since. -/
def TakenSince (log : List (Exchange κ π)) (id : ProcessId) (k : κ)
    (since : List (Exchange κ π)) : Prop :=
  ∃ before q, log = before ++ ⟨q, .ok (some id)⟩ :: since ∧ (q = .assign k ∨ q = .tryAssign k) ∧
    ∀ e ∈ since, e.answer ≠ .ok (some id)

/-- A process stores what it accepted since `k` took it. -/
def Stores (log : List (Exchange κ π)) (id : ProcessId) (k : κ) (p : Process κ π) : Prop :=
  ∃ since, TakenSince log id k since ∧ p.packets = (acceptedIn id since).map Prod.snd ∧
    ∀ ch, ch ∈ p.channels.keys ↔ ch ∈ (acceptedIn id since).map Prod.fst

/-- Every process that somebody holds stores what it accepted. -/
def Recorded (log : List (Exchange κ π)) (t : HarqTable κ π) : Prop :=
  ∀ id p k, t.process? id = some p → p.holder = some k → Stores log id k p

variable [DecidableEq κ] [Holder κ]

/-- The pools that requests lead to, with the requests made and their answers. -/
inductive History : List (Exchange κ π) → HarqTable κ π → Prop
  | unsized : History [] .unsized
  | ofCapacity (n : UInt8) : History [] (.ofCapacity n)
  | step {log : List (Exchange κ π)} {t : HarqTable κ π} (h : History log t) (q : Request κ π) :
      History (log ++ [⟨q, (t.perform q).2⟩]) (t.perform q).1

theorem History.reached {log : List (Exchange κ π)} (h : History log t) : t.Reached := by
  induction h with
  | unsized => exact .unsized
  | ofCapacity n => exact .ofCapacity n
  | step _ q ih => exact .step ih q

section Concat

omit [DecidableEq κ] [Holder κ]

variable {log since : List (Exchange κ π)} {e : Exchange κ π}

theorem TakenSince.concat (h : TakenSince log id k since) (he : e.answer ≠ .ok (some id)) :
    TakenSince (log ++ [e]) id k (since ++ [e]) := by
  obtain ⟨before, q, rfl, hq, hlast⟩ := h
  refine ⟨before, q, by simp, hq, fun e' he' => ?_⟩
  rcases List.mem_append.mp he' with hmem | hmem
  · exact hlast e' hmem
  · rwa [List.mem_singleton.mp hmem]

theorem takenSince_last {q : Request κ π} (hq : q = .assign k ∨ q = .tryAssign k) :
    TakenSince (log ++ [⟨q, .ok (some id)⟩]) id k [] :=
  ⟨log, q, rfl, hq, fun _ he => by cases he⟩

theorem acceptedIn_concat :
    acceptedIn id (since ++ [e]) = acceptedIn id since ++ (e.accepted? id).toList := by
  rw [acceptedIn, List.filterMap_append]
  cases h : e.accepted? id <;> simp [acceptedIn, h]

theorem Stores.spared {p : Process κ π} (h : Stores log id k p)
    (htakes : e.answer ≠ .ok (some id)) (hadds : e.accepted? id = none) :
    Stores (log ++ [e]) id k p := by
  obtain ⟨since, hsince, hpackets, hchannels⟩ := h
  refine ⟨since ++ [e], hsince.concat htakes, ?_, ?_⟩
  · rw [acceptedIn_concat, hadds, Option.toList_none, List.append_nil, hpackets]
  · rw [acceptedIn_concat, hadds, Option.toList_none, List.append_nil]
    exact hchannels

theorem Recorded.assigned (h : Recorded log t) (wf : t.WellFormed)
    (hassign : t.assign k = .ok (id, t')) {q : Request κ π}
    (hq : q = .assign k ∨ q = .tryAssign k) :
    Recorded (log ++ [⟨q, .ok (some id)⟩]) t' := by
  intro id' p k' hp hk
  rw [process?_assign wf hassign] at hp
  split at hp
  · next he =>
    subst he
    cases hp
    obtain rfl : k = k' := Option.some.inj hk
    exact ⟨[], takenSince_last hq, rfl, fun _ => Iff.rfl⟩
  · next hne =>
    refine (h id' p k' hp hk).spared (fun he => hne ?_) ?_
    · simpa using he.symm
    · rcases hq with rfl | rfl <;> rfl

theorem Recorded.refused (h : Recorded log t) (q : Request κ π) (e : HarqError) :
    Recorded (log ++ [⟨q, .error e⟩]) t := fun id p k hp hk =>
  (h id p k hp hk).spared (by simp) (by cases q <;> rfl)

theorem recorded_ofCapacity (n : UInt8) : Recorded log (ofCapacity n : HarqTable κ π) := by
  intro id p k hp hk
  rw [process?_ofCapacity] at hp
  split at hp
  · cases hp
    cases hk
  · cases hp

theorem recorded_unsized : Recorded log (unsized : HarqTable κ π) := by
  intro id p k hp
  simp [unsized, process?] at hp

end Concat

section Perform

variable {log : List (Exchange κ π)}

theorem Recorded.added (h : Recorded log t) {ch : ChannelId} {x : π}
    (hadd : t.addPacket k ch id x = .ok t') :
    Recorded (log ++ [⟨.addPacket k ch id x, .ok none⟩]) t' := by
  obtain ⟨p, hp, hholder, -, rfl⟩ := addPacket_ok_iff.mp hadd
  intro id' p' k' hp' hk'
  rw [process?_put hp] at hp'
  split at hp'
  · next he =>
    subst he
    cases hp'
    obtain ⟨since, hsince, hpackets, hchannels⟩ := h id' p k' hp hk'
    refine ⟨_, hsince.concat (by simp), ?_, fun ch' => ?_⟩
    · rw [acceptedIn_concat, List.map_append, ← hpackets]
      simp [Exchange.accepted?, Process.add]
    · rw [Process.mem_keys_add, hchannels, acceptedIn_concat, List.map_append, List.mem_append,
        or_comm]
      simp [Exchange.accepted?]
  · next hne =>
    exact (h id' p' k' hp' hk').spared (by simp) (by simp [Exchange.accepted?, Ne.symm hne])

theorem Recorded.released (h : Recorded log t) (hrelease : t.release k id = .ok t') :
    Recorded (log ++ [⟨.release k id, .ok none⟩]) t' := by
  intro id' p k' hp hk
  rw [process?_release hrelease] at hp
  split at hp
  · cases hp
    cases hk
  · exact (h id' p k' hp hk).spared (by simp) rfl

theorem Recorded.perform (h : Recorded log t) (wf : t.WellFormed) (q : Request κ π) :
    Recorded (log ++ [⟨q, (t.perform q).2⟩]) (t.perform q).1 := by
  rw [perform_eq]
  split
  · next e _ => exact h.refused q e
  · next taken t' hattempt =>
    cases q with
    | setup n =>
      simp only [attempt, bind_ok_iff, pure_ok_iff, Prod.mk.injEq] at hattempt
      obtain ⟨_, hsetup, -, rfl⟩ := hattempt
      rw [(wf.setup_ok_iff.mp hsetup).2]
      exact recorded_ofCapacity n
    | clear =>
      cases hattempt
      exact recorded_unsized
    | assign k =>
      simp only [attempt, bind_ok_iff, pure_ok_iff, Prod.mk.injEq] at hattempt
      obtain ⟨⟨id, _⟩, hassign, rfl, rfl⟩ := hattempt
      exact h.assigned wf hassign (.inl rfl)
    | tryAssign k =>
      simp only [attempt] at hattempt
      split at hattempt
      · cases hattempt
        exact fun id p k hp hk => (h id p k hp hk).spared (by simp) rfl
      · next hassign =>
        cases hattempt
        exact h.assigned wf hassign (.inr rfl)
    | addPacket k ch id x =>
      simp only [attempt, bind_ok_iff, pure_ok_iff, Prod.mk.injEq] at hattempt
      obtain ⟨_, hadd, rfl, rfl⟩ := hattempt
      exact h.added hadd
    | release k id =>
      simp only [attempt, bind_ok_iff, pure_ok_iff, Prod.mk.injEq] at hattempt
      obtain ⟨_, hrelease, rfl, rfl⟩ := hattempt
      exact h.released hrelease

theorem History.recorded (h : History log t) : Recorded log t := by
  induction h with
  | unsized => exact recorded_unsized
  | ofCapacity n => exact recorded_ofCapacity n
  | step h q ih => exact ih.perform h.reached.wellFormed q

end Perform

theorem WellFormed.process?_of_other (wf : t.WellFormed) (hk : t.holder? id = some k)
    {q : Request κ π} {k' : κ} (hq : q.holder? = some k') (hne : k' ≠ k) :
    (t.perform q).1.process? id = t.process? id := by
  obtain ⟨p, hp, hholder⟩ := holder?_eq_some_iff.mp hk
  -- A process that is taken was free before.
  have hassigned : ∀ {id' t'}, t.assign k' = .ok (id', t') → t'.process? id = t.process? id := by
    intro id' t' hassign
    rw [process?_assign wf hassign, if_neg]
    rintro rfl
    rw [process?_assigned wf hassign, Option.some.injEq] at hp
    rw [← hp] at hholder
    cases hholder
  -- A process that is changed belongs to the holder who asks.
  have hchanged : ∀ {id' p'}, t.process? id' = some p' → p'.holder = some k' → id ≠ id' := by
    rintro id' p' hp' hholder' rfl
    obtain rfl : p = p' := Option.some.inj (hp.symm.trans hp')
    exact hne (Option.some.inj (hholder'.symm.trans hholder))
  rw [perform_eq]
  split
  · rfl
  · next hattempt =>
    cases q with
    | setup n => cases hq
    | clear => cases hq
    | assign k₁ =>
      obtain rfl : k₁ = k' := Option.some.inj hq
      simp only [attempt, bind_ok_iff, pure_ok_iff, Prod.mk.injEq] at hattempt
      obtain ⟨_, hassign, -, rfl⟩ := hattempt
      exact hassigned hassign
    | tryAssign k₁ =>
      obtain rfl : k₁ = k' := Option.some.inj hq
      simp only [attempt] at hattempt
      split at hattempt
      · cases hattempt
        rfl
      · next hassign =>
        cases hattempt
        exact hassigned hassign
    | addPacket k₁ ch id' x =>
      obtain rfl : k₁ = k' := Option.some.inj hq
      simp only [attempt, bind_ok_iff, pure_ok_iff, Prod.mk.injEq] at hattempt
      obtain ⟨_, hadd, -, rfl⟩ := hattempt
      obtain ⟨p', hp', hholder', -, rfl⟩ := addPacket_ok_iff.mp hadd
      rw [process?_put hp', if_neg (hchanged hp' hholder')]
    | release k₁ id' =>
      obtain rfl : k₁ = k' := Option.some.inj hq
      simp only [attempt, bind_ok_iff, pure_ok_iff, Prod.mk.injEq] at hattempt
      obtain ⟨_, hrelease, -, rfl⟩ := hattempt
      obtain ⟨-, ⟨p', hp', hholder'⟩, -⟩ := release_ok_iff.mp hrelease
      rw [process?_release hrelease, if_neg (hchanged hp' hholder')]

theorem held_of_other (hk : t.holder? id = some k) {k' : κ} (hne : k' ≠ k) :
    t.held k' id = .error (.wrongHolder id (Holder.label k')) := by
  obtain ⟨p, hp, hholder⟩ := holder?_eq_some_iff.mp hk
  rw [process?] at hp
  unfold held
  rw [hp]
  exact if_neg fun h => hne (Option.some.inj (h.symm.trans hholder))

theorem channels_of_held {p : Process κ π} (hp : t.process? id = some p)
    (hk : p.holder = some k) : t.channels k id = .ok p.channels.keys := by
  simp [channels, held_ok_iff.mpr ⟨hp, hk⟩, Functor.map, Except.map]

/-- What others learn of a process that they do not hold, and what they can do to it: nothing. -/
structure ClosedTo (t : HarqTable κ π) (id : ProcessId) (k' : κ) : Prop where
  packets : t.packets k' id = .error (.wrongHolder id (Holder.label k'))
  channels : t.channels k' id = .error (.wrongHolder id (Holder.label k'))
  addPacket : ∀ ch x, t.perform (.addPacket k' ch id x) =
    (t, .error (.wrongHolder id (Holder.label k')))
  release : t.perform (.release k' id) = (t, .error (.wrongHolder id (Holder.label k')))
  unchanged : ∀ q : Request κ π, q.holder? = some k' →
    (t.perform q).1.process? id = t.process? id

theorem WellFormed.closedTo (wf : t.WellFormed) (hk : t.holder? id = some k) {k' : κ}
    (hne : k' ≠ k) : t.ClosedTo id k' := by
  have hheld := held_of_other hk hne
  refine ⟨?_, ?_, fun ch x => ?_, ?_, fun q hq => wf.process?_of_other hk hq hne⟩
  · rw [packets, hheld]
    rfl
  · rw [channels, hheld]
    rfl
  · rw [perform_eq, attempt, HarqTable.addPacket, hheld]
    rfl
  · obtain ⟨p, hp, hholder⟩ := holder?_eq_some_iff.mp hk
    have hlt : ¬ t.capacity ≤ id.toNat := Nat.not_le.mpr (process?_isSome_iff.mp (by simp [hp]))
    have hfree : ¬ t.isFree id = true := by
      rw [isFree_iff, wf.free_iff]
      rintro ⟨q, hq, hnone⟩
      obtain rfl : p = q := Option.some.inj (hp.symm.trans hq)
      rw [hholder] at hnone
      cases hnone
    rw [perform_eq, attempt, HarqTable.release, if_neg hlt, if_neg hfree, hheld]
    rfl

/-- A process that somebody holds stores exactly the packets that it accepted since it was taken, in
order, and lists their channels; it accepts a packet of its holder exactly if the channel is new to
it. To everybody else it is closed. -/
theorem processes_store_their_history {log : List (Exchange κ π)} (h : History log t) :
    (∀ id k, t.holder? id = some k →
      (∃ since chs, TakenSince log id k since ∧
        t.packets k id = .ok ((acceptedIn id since).map Prod.snd) ∧
        t.channels k id = .ok chs ∧ chs.Nodup ∧
        ∀ ch, ch ∈ chs ↔ ch ∈ (acceptedIn id since).map Prod.fst) ∧
      ∀ k', k' ≠ k → t.ClosedTo id k') ∧
    ∀ id k ch x, (∃ o, (t.perform (.addPacket k ch id x)).2 = .ok o) ↔
      t.holder? id = some k ∧ ∃ chs, t.channels k id = .ok chs ∧ ch ∉ chs := by
  have wf := h.reached.wellFormed
  refine ⟨fun id k hk => ⟨?_, fun k' hne => wf.closedTo hk hne⟩, fun id k ch x => ?_⟩
  · obtain ⟨p, hp, hholder⟩ := holder?_eq_some_iff.mp hk
    obtain ⟨since, hsince, hpackets, hchannels⟩ := h.recorded id p k hp hholder
    exact ⟨since, p.channels.keys, hsince, hpackets ▸ packets_of_held hp hholder,
      channels_of_held hp hholder, p.channels.keys_nodup, hchannels⟩
  · rw [exists_perform_ok_iff, wf.accepted, Accepts]
    constructor
    · rintro ⟨p, hp, hk, hnew⟩
      exact ⟨holder?_eq_some_iff.mpr ⟨p, hp, hk⟩, _, channels_of_held hp hk, hnew⟩
    · rintro ⟨hk, chs, hchs, hnew⟩
      obtain ⟨p, hp, hholder⟩ := holder?_eq_some_iff.mp hk
      rw [channels_of_held hp hholder, Except.ok.injEq] at hchs
      exact ⟨p, hp, hholder, hchs ▸ hnew⟩

/-- A process is taken, released with what it stored, and taken again by another holder. -/
theorem processes_store_their_history_sample :
    let requests : List (Request UInt32 Nat) :=
      [.assign 100, .addPacket 100 3 0 7, .release 100 0, .assign 200, .addPacket 200 5 0 8,
        .addPacket 100 6 0 9, .addPacket 200 5 0 9, .addPacket 200 4 0 9]
    let pool : HarqTable UInt32 Nat := requests.foldl (fun t q => (t.perform q).1) (.ofCapacity 1)
    pool.holder? 0 = some 200 ∧ pool.packets 200 0 = .ok [8, 9] ∧
      (∃ log since, History log pool ∧ TakenSince log 0 200 since ∧
        pool.packets 200 0 = .ok ((acceptedIn 0 since).map Prod.snd)) ∧
      pool.ClosedTo 0 100 := by
  intro requests pool
  have hk : pool.holder? 0 = some 200 := by decide +kernel
  have hhistory : ∃ log, History log pool := ⟨_, .step (.step (.step (.step (.step (.step (.step
    (.step (.ofCapacity 1) _) _) _) _) _) _) _) _⟩
  obtain ⟨log, hlog⟩ := hhistory
  obtain ⟨⟨since, chs, hsince, hpackets, -⟩, hclosed⟩ :=
    (processes_store_their_history hlog).1 0 200 hk
  exact ⟨hk, by decide +kernel, ⟨log, since, hlog, hsince, hpackets⟩, hclosed 100 (by decide)⟩

end Airtime.HarqTable
