import Airtime.Proofs.Reachable
import Airtime.Proofs.Refused

/-! Operations that are refused leave the cell as it was. Setting up a channel and answering for a
block change the state before they can be refused; there the invariant of the state says that they
put back what was there. -/

namespace Airtime

/-- The refusals of a cell: who or what is named is not there, or is there already, or has no block
to answer for. -/
def Refusal.Stray : Refusal → Prop
  | .unknownUser _ | .unknownChannel _ | .unknownGroup _ | .duplicateChannel .. => True
  | .harq (.unknownProcess _) | .harq (.alreadyFree _) => True
  | _ => False

namespace Cell

/-- The outcome of an operation that never sends a confirmation. -/
def unconfirmed (outcome : Except Refusal Unit) : Except Failure (Option Confirmation) := do
  let () ← outcome
  return none

/-- What an operation answers: why it is refused, or the confirmation that it sends, if any. -/
def answer (c : Cell) : Operation → Except Failure (Option Confirmation)
  | .configureUser .. => .ok none
  | .moveUser rnti beam => unconfirmed (c.moveUser rnti beam).2
  | .removeUser rnti => unconfirmed (c.removeUser rnti).2
  | .configureChannel r => liftM (c.configureChannel r).2
  | .reportBuffer r => unconfirmed (c.reportBuffer r).2
  | .reportGroup r => unconfirmed (c.reportGroup r).2
  | .reportQuality r => unconfirmed (c.reportQuality r).2
  | .feedback f => unconfirmed (c.feedback f).2
  | .slot time => do
    let _ ← c.scheduleSlot time
    return none

/-- State and outcome of an operation on a cell: if it is refused, the state is the one before. -/
def Atomic {α : Type} (c : Cell) (x : Cell × Except Refusal α) : Prop :=
  ∀ why, x.2 = .error why → x.1 = c ∧ why.Stray

variable {c : Cell}

theorem lift_refused_iff {α : Type} {x : Except Refusal α} {why : Refusal} :
    (liftM x : Except Failure α) = .error (.refused why) ↔ x = .error why := by
  cases x <;> simp [liftM, monadLift, MonadLift.monadLift, Except.mapError]

theorem unconfirmed_refused_iff {x : Except Refusal Unit} {why : Refusal} :
    unconfirmed x = .error (.refused why) ↔ x = .error why := by
  cases x <;> simp [unconfirmed, liftM, monadLift, MonadLift.monadLift, Except.mapError, bind,
    Except.bind, pure, Except.pure]

theorem put_of_user? {u : User} (h : c.user? u.rnti = some u) : c.put u = c := by
  rw [put, Table.insert_of_get? h]

theorem atomic_moveUser (c : Cell) (r : Rnti) (beam : BeamId) : c.Atomic (c.moveUser r beam) := by
  unfold moveUser
  split
  · rintro why ⟨⟩
    exact ⟨rfl, trivial⟩
  · rintro why ⟨⟩

theorem atomic_removeUser (c : Cell) (r : Rnti) : c.Atomic (c.removeUser r) := by
  unfold removeUser
  split
  · rintro why ⟨⟩
    exact ⟨rfl, trivial⟩
  · rintro why ⟨⟩

theorem atomic_reportQuality (c : Cell) (r : QualityReport) : c.Atomic (c.reportQuality r) := by
  unfold reportQuality
  split
  · rintro why ⟨⟩
    exact ⟨rfl, trivial⟩
  · rintro why ⟨⟩

theorem stray_of_update {κ : Type} {g : Group} {r : BufferReport κ} {why : Refusal}
    (h : g.update r = .error why) : why.Stray := by
  unfold Group.update at h
  split at h
  · cases h
    trivial
  · cases h

theorem stray_of_updates {κ : Type} {gs : Groups} {r : BufferReport κ} {why : Refusal}
    (h : gs.update r = .error why) : why.Stray := by
  unfold Groups.update at h
  split at h
  · cases h
    trivial
  · next key g _ =>
    cases hg : g.update r with
    | error e =>
      rw [hg] at h
      cases h
      exact stray_of_update hg
    | ok g' =>
      rw [hg] at h
      cases h

theorem atomic_reportBuffer (c : Cell) (r : BufferReport Rnti) : c.Atomic (c.reportBuffer r) := by
  unfold reportBuffer
  split
  · rintro why ⟨⟩
    exact ⟨rfl, trivial⟩
  · split
    · next e hupdate =>
      rintro why ⟨⟩
      exact ⟨rfl, stray_of_updates hupdate⟩
    · rintro why ⟨⟩

theorem atomic_reportGroup (c : Cell) (r : GroupReport) : c.Atomic (c.reportGroup r) := by
  unfold reportGroup
  split
  · rintro why ⟨⟩
    exact ⟨rfl, trivial⟩
  · split
    · rintro why ⟨⟩
      exact ⟨rfl, trivial⟩
    · split
      · next e hupdate =>
        rintro why ⟨⟩
        exact ⟨rfl, stray_of_update hupdate⟩
      · rintro why ⟨⟩

theorem insert_fresh {gs : Groups} (wf : gs.WellFormed) (k : GroupId) (ch : ChannelId)
    (priority : UInt8) (hnew : gs.channel? (k, ch) = none) :
    ∃ g, ((gs.get? k).getD (.empty k)).insert (.fresh ch k priority) = .ok g := by
  have hid : ((gs.get? k).getD (.empty k)).id = k := by
    cases hk : gs.get? k with
    | none => rfl
    | some g => exact wf.group_id k g hk
  have hout : ((gs.get? k).getD (.empty k)).channels.get? ch = none := by
    cases hk : gs.get? k with
    | none => rfl
    | some g => rwa [Groups.channel?_of_get? hk] at hnew
  unfold Group.insert
  rw [if_neg (by simp [Channel.fresh, hid]), if_neg (by simp [Channel.fresh, Table.contains, hout])]
  exact ⟨_, rfl⟩

theorem addDownlink_refused {gs : Groups} (wf : gs.WellFormed) {r : ChannelRequest} {why : Refusal}
    (h : (addDownlink gs r).2 = .error why) :
    (addDownlink gs r).1 = gs ∧ (gs.holding? r.channel).isSome ∧ why.Stray := by
  unfold addDownlink at h ⊢
  split
  · next hheld =>
    rw [hheld] at h
    cases h
    exact ⟨rfl, by rw [hheld]; rfl, trivial⟩
  -- Where no group holds the channel, the group of its number takes it.
  · next hnone =>
    have hnew : gs.channel? (r.group, r.channel) = none := by
      by_contra hsome
      exact Groups.holding?_none hnone _ (Option.isSome_iff_ne_none.mpr hsome) rfl
    obtain ⟨g, hg⟩ := insert_fresh wf r.group r.channel r.priority hnew
    simp [hnone, hg] at h

theorem addUplink_ok {gs : Groups} (wf : gs.WellFormed) (r : ChannelRequest) :
    (addUplink gs r).2 = .ok () := by
  unfold addUplink
  simp only
  split
  · rfl
  · next hout =>
    have hnew : gs.channel? (r.group, r.group) = none := by
      cases hk : gs.get? r.group with
      | none => simp [Groups.channel?, hk]
      | some g =>
        rw [Groups.channel?_of_get? hk]
        simpa [hk, Group.contains, Table.contains] using hout
    obtain ⟨g, hg⟩ := insert_fresh wf r.group r.group r.priority hnew
    rw [hg]

theorem addChannel_uplink_ok {config : CellConfig} {u : User} (hu : u.Sound config)
    (r : ChannelRequest) : (addChannel u .uplink r).2 = .ok () := by
  unfold addChannel
  split
  · exact addUplink_ok (hu .uplink).groups r
  · rfl

theorem addChannel_downlink_refused {config : CellConfig} {u : User} (hu : u.Sound config)
    {r : ChannelRequest} {why : Refusal} (h : (addChannel u .downlink r).2 = .error why) :
    (addChannel u .downlink r).1 = u ∧ ((u.link .downlink).groups.holding? r.channel).isSome ∧
      why.Stray := by
  unfold addChannel at h ⊢
  split
  · next hcarries =>
    rw [if_pos hcarries] at h
    obtain ⟨hsame, hheld, hstray⟩ := addDownlink_refused (hu .downlink).groups h
    refine ⟨?_, hheld, hstray⟩
    simp only [hsame]
    exact u.setLink_link .downlink
  · next hcarries =>
    rw [if_neg hcarries] at h
    cases h

theorem configureChannel_cases (hc : c.Sound) (r : ChannelRequest) :
    (∃ why, (c.configureChannel r).2 = .error why ∧ (c.configureChannel r).1 = c ∧ why.Stray) ∨
      (c.configureChannel r).2 =
        .ok (if c.confirming then some ⟨r.group, r.channel⟩ else none) := by
  obtain ⟨-, hu⟩ := sound_ensureUser hc r.rnti ⟨0⟩
  have hconfirming : (c.ensureUser r.rnti ⟨0⟩).2.confirming = c.confirming := by
    unfold ensureUser
    split <;> rfl
  unfold configureChannel
  simp only
  split
  · next u why hadd =>
    left
    have herror : (addChannel (c.ensureUser r.rnti ⟨0⟩).1 .downlink r).2 = .error why := by
      rw [hadd]
    obtain ⟨hsame, hheld, hstray⟩ := addChannel_downlink_refused hu herror
    rw [hadd] at hsame
    simp only at hsame
    refine ⟨why, rfl, ?_, hstray⟩
    subst hsame
    unfold ensureUser at hheld ⊢
    split at hheld
    · next u hknown => exact put_of_user? (by rwa [hc.user_rnti hknown])
    · cases hheld
  · next u hadd =>
    have hu' := sound_addChannel hu .downlink r
    rw [hadd] at hu'
    have hok := addChannel_uplink_ok hu' r
    split
    · next hadd' =>
      rw [hadd'] at hok
      cases hok
    · next hadd' => exact .inr (by rw [hconfirming])

theorem atomic_configureChannel (hc : c.Sound) (r : ChannelRequest) :
    c.Atomic (c.configureChannel r) := by
  intro why h
  rcases configureChannel_cases hc r with ⟨why', h', hsame, hstray⟩ | hok
  · rw [h, Except.error.injEq] at h'
    subst h'
    exact ⟨hsame, hstray⟩
  · rw [h] at hok
    cases hok

theorem release_refused {config : CellConfig} {r : Rnti} {d : Direction} {s : LinkState}
    (hs : s.Sound config r d) {id : ProcessId} {e : HarqError}
    (h : s.harq.release r id = .error e) :
    e = .unknownProcess id ∧ s.harq.capacity ≤ id.toNat ∨
      e = .alreadyFree id ∧ s.harq.isFree id = true := by
  unfold HarqTable.release at h
  split at h
  · next hcap => exact .inl ⟨(Except.error.inj h).symm, hcap⟩
  · next hcap =>
    split at h
    · next hfree => exact .inr ⟨(Except.error.inj h).symm, hfree⟩
    · next hfree =>
      rw [HarqTable.isFree_iff, hs.mem_free_iff, not_and, not_not] at hfree
      obtain ⟨p, hp, hk⟩ := HarqTable.holder?_eq_some_iff.mp
        (hs.holder_of_mem (hfree (Nat.lt_of_not_le hcap)))
      have hheld : s.harq.held r id = .ok p := HarqTable.held_ok_iff.mpr ⟨hp, hk⟩
      rw [hheld] at h
      cases h

theorem release_refused_iff {config : CellConfig} {r : Rnti} {d : Direction} {s : LinkState}
    (hs : s.Sound config r d) {id : ProcessId} :
    (∃ e, s.harq.release r id = .error e) ↔
      config.processes.toNat ≤ id.toNat ∨ s.harq.isFree id = true := by
  rw [← hs.capacity]
  constructor
  · rintro ⟨e, he⟩
    exact (release_refused hs he).imp And.right And.right
  · intro h
    unfold HarqTable.release
    split
    · exact ⟨_, rfl⟩
    · next hcap =>
      rw [if_pos (h.resolve_left hcap)]
      exact ⟨_, rfl⟩

theorem get?_of_release_refused {config : CellConfig} {r : Rnti} {d : Direction} {s : LinkState}
    (hs : s.Sound config r d) {id : ProcessId} {e : HarqError}
    (h : s.harq.release r id = .error e) : s.inFlight.get? id = none := by
  rw [← inFlight_of_not_released hs h, Table.get?_erase_if, if_pos rfl]

theorem feedback_refused_iff (hc : c.Sound) (f : Feedback) :
    (∃ why, (c.feedback f).2 = .error why) ↔ c.user? f.rnti = none ∨
      ∃ u, c.user? f.rnti = some u ∧ (c.config.processes.toNat ≤ f.process.toNat ∨
        (u.link f.direction).harq.isFree f.process = true) := by
  cases hu : c.user? f.rnti with
  | none => simp [feedback, hu]
  | some u =>
    have hs := (hc.user f.rnti u hu).2 f.direction
    simp only [reduceCtorEq, Option.some.injEq, exists_eq_left', false_or]
    rw [← release_refused_iff hs]
    unfold feedback
    simp only [hu]
    split
    -- A block that is lost once more is on its way, so its process could be released.
    · next b hretry =>
      obtain ⟨hb, -⟩ := Option.filter_eq_some_iff.mp hretry
      refine ⟨(nomatch ·), fun ⟨e, he⟩ => ?_⟩
      rw [get?_of_release_refused hs he] at hb
      cases hb
    · split
      · next e he => exact ⟨fun _ => ⟨e, he⟩, fun _ => ⟨_, rfl⟩⟩
      · next harq hok =>
        refine ⟨(nomatch ·), fun ⟨e, he⟩ => ?_⟩
        rw [he] at hok
        cases hok

theorem atomic_feedback (hc : c.Sound) (f : Feedback) : c.Atomic (c.feedback f) := by
  unfold feedback
  split
  · rintro why ⟨⟩
    exact ⟨rfl, trivial⟩
  · next u hu =>
    have hs := (hc.user f.rnti u hu).2 f.direction
    simp only
    split
    · rintro why ⟨⟩
    · split
      · next e he =>
        rintro why ⟨⟩
        refine ⟨?_, ?_⟩
        · simp only [inFlight_of_not_released hs he]
          rw [u.setLink_link f.direction]
          exact put_of_user? (by rwa [hc.user_rnti hu])
        · rcases release_refused hs he with ⟨rfl, -⟩ | ⟨rfl, -⟩ <;> trivial
      · rintro why ⟨⟩

end Cell

/-- A refused operation leaves the cell as it was, and names somebody or something that is not there
or is there already. A slot is never refused. Setting up a channel sends a confirmation if somebody
waits for one, and feedback is refused exactly where there is no block to answer for. -/
theorem refused_operations_change_nothing {c : Cell} (hc : c.Reachable) (op : Operation) :
    (∀ why, c.answer op = .error (.refused why) → c.perform op = .ok (c, none) ∧ why.Stray) ∧
    (∀ r o, op = .configureChannel r → c.answer op = .ok o →
      o = if c.confirming then some ⟨r.group, r.channel⟩ else none) ∧
    ∀ f, op = .feedback f → ((∃ e, c.answer op = .error e) ↔ c.user? f.rnti = none ∨
      ∃ u, c.user? f.rnti = some u ∧ (c.config.processes.toNat ≤ f.process.toNat ∨
        (u.link f.direction).harq.isFree f.process = true)) := by
  refine ⟨fun why h => ?_, ?_, ?_⟩
  · -- All operations but a slot perform what they answer for.
    have hatomic : ∀ {α : Type} {x : Cell × Except Refusal α}, c.Atomic x → x.2 = .error why →
        (.ok (x.1, none) : Except Failure (Cell × Option SlotAllocation)) = .ok (c, none) ∧
          why.Stray := by
      intro α x hx hwhy
      obtain ⟨hsame, hstray⟩ := hx why hwhy
      exact ⟨by rw [hsame], hstray⟩
    cases op with
    | configureUser rnti beam => cases h
    | moveUser rnti beam =>
      exact hatomic (Cell.atomic_moveUser c rnti beam) (Cell.unconfirmed_refused_iff.mp h)
    | removeUser rnti =>
      exact hatomic (Cell.atomic_removeUser c rnti) (Cell.unconfirmed_refused_iff.mp h)
    | configureChannel r =>
      exact hatomic (Cell.atomic_configureChannel hc.sound r) (Cell.lift_refused_iff.mp h)
    | reportBuffer r =>
      exact hatomic (Cell.atomic_reportBuffer c r) (Cell.unconfirmed_refused_iff.mp h)
    | reportGroup r =>
      exact hatomic (Cell.atomic_reportGroup c r) (Cell.unconfirmed_refused_iff.mp h)
    | reportQuality r =>
      exact hatomic (Cell.atomic_reportQuality c r) (Cell.unconfirmed_refused_iff.mp h)
    | feedback f =>
      exact hatomic (Cell.atomic_feedback hc.sound f) (Cell.unconfirmed_refused_iff.mp h)
    | slot time =>
      exact absurd h (((Cell.unrefused_scheduleSlot hc.sound time).bind
        fun _ _ => unrefused_ok none) why)
  · rintro r o rfl h
    have h : (c.configureChannel r).2 = .ok o := lift_refusal_ok_iff.mp h
    rcases Cell.configureChannel_cases hc.sound r with ⟨why, herror, -⟩ | hok
    · rw [h] at herror
      cases herror
    · rw [h] at hok
      exact Except.ok.inj hok
  · rintro f rfl
    rw [← Cell.feedback_refused_iff hc.sound]
    constructor
    · rintro ⟨e, he⟩
      cases hfeedback : (c.feedback f).2 with
      | error why => exact ⟨why, rfl⟩
      | ok x =>
        rw [Cell.answer, hfeedback] at he
        cases he
    · rintro ⟨why, hwhy⟩
      exact ⟨.refused why, Cell.unconfirmed_refused_iff.mpr hwhy⟩

/-- A channel that the user has in another group already. -/
theorem refused_operations_change_nothing_sample :
    let again : ChannelRequest := ⟨⟨1⟩, 4, 2, .both, 1⟩
    ∃ c : Cell, c.Reachable ∧
      c.answer (.configureChannel again) = .error (.refused (.duplicateChannel 1 4)) ∧
      c.perform (.configureChannel again) = .ok (c, none) := by
  have hrun : (sampleCell.performAll sampleOperations).toOption.any (fun x =>
      (x.2.configureChannel ⟨⟨1⟩, 4, 2, .both, 1⟩).2 = .error (.duplicateChannel 1 4)) = true := by
    decide +kernel
  obtain ⟨⟨events, c⟩, hops, hwhy⟩ := exists_ok_of_any hrun
  have hc : c.Reachable := ⟨_, _, _, _, run_sample hops⟩
  have hanswer := Cell.lift_refused_iff.mpr (of_decide_eq_true hwhy)
  have hsame := (refused_operations_change_nothing hc (.configureChannel ⟨⟨1⟩, 4, 2, .both, 1⟩)).1 _
    hanswer
  exact ⟨c, hc, hanswer, hsame.1⟩

/-- Where nobody waits for confirmations, a channel is set up without one. -/
theorem channel_set_up_unconfirmed :
    ¬ ∀ (c : Cell) (r : ChannelRequest) (o : Option Confirmation), c.Reachable →
      c.answer (.configureChannel r) = .ok o → o = some ⟨r.group, r.channel⟩ := by
  intro h
  have hrun : sampleCell.performAll [] = .ok ([], sampleCell) := rfl
  have hc : sampleCell.Reachable := ⟨_, _, _, _, run_sample hrun⟩
  have hnone := h sampleCell ⟨⟨1⟩, 4, 1, .both, 1⟩ none hc rfl
  cases hnone

end Airtime
