import Airtime.Proofs.SidelinkInPlace

/-! What one operation of the sidelink scheduler leaves behind. What is refused leaves the scheduler
as it was, and so does a trigger that sends no block. A process belongs to the destination it was
taken for until feedback of that destination comes in, through any run. -/

namespace Airtime

theorem Refusal.Stray.ne_allBusy {why : Refusal} (h : why.Stray) : why ≠ .harq .allBusy := by
  rintro rfl
  exact h

namespace HarqTable

variable {κ π : Type} {t t' : HarqTable κ π} {k : κ} {id : ProcessId}

theorem holder?_assign (wf : t.WellFormed) (h : t.assign k = .ok (id, t')) (id' : ProcessId) :
    t'.holder? id' = if id' = id then some k else t.holder? id' := by
  rw [holder?, ← process?, process?_assign wf h]
  split <;> rfl

variable [DecidableEq κ] [Holder κ]

theorem holder?_addPacket {ch : ChannelId} {x : π} (h : t.addPacket k ch id x = .ok t')
    (id' : ProcessId) : t'.holder? id' = t.holder? id' := by
  obtain ⟨p, hp, hk, -, rfl⟩ := addPacket_ok_iff.mp h
  rw [holder?, ← process?, process?_put hp]
  split
  · next he => rw [he, holder?, ← process?, hp]; rfl
  · rfl

theorem holder?_release (h : t.release k id = .ok t') (id' : ProcessId) :
    t'.holder? id' = if id' = id then none else t.holder? id' := by
  rw [holder?, ← process?, process?_release h]
  split <;> rfl

theorem held_ne_allBusy : t.held k id ≠ .error .allBusy := by
  unfold held
  split
  · simp
  · split <;> simp

theorem addPacket_ne_allBusy {ch : ChannelId} {x : π} :
    t.addPacket k ch id x ≠ .error .allBusy := by
  unfold addPacket
  cases h : t.held k id with
  | error e =>
    rintro ⟨⟩
    exact held_ne_allBusy h
  | ok p =>
    simp only [ok_bind]
    split <;> simp

theorem release_ne_allBusy : t.release k id ≠ .error .allBusy := by
  unfold release
  split
  · simp
  · split
    · simp
    · cases h : t.held k id with
      | error e =>
        rintro ⟨⟩
        exact held_ne_allBusy h
      | ok p => simp [ok_bind]

theorem WellFormed.release_ok (wf : t.WellFormed) (hk : t.holder? id = some k) :
    ∃ t', t.release k id = .ok t' ∧ t'.isFree id = true := by
  obtain ⟨⟨o, t'⟩, h⟩ := (wf.accepted (.release k id)).mpr hk
  simp only [attempt, bind_ok_iff, pure_ok_iff, Prod.mk.injEq] at h
  obtain ⟨t', h, -⟩ := h
  obtain ⟨-, -, rfl⟩ := release_ok_iff.mp h
  exact ⟨_, h, by simp [isFree]⟩

end HarqTable

def SidelinkOperation.tells : SidelinkOperation → Bool
  | .configureChannel _ | .reportBuffer _ | .reportQuality .. => true
  | _ => false

namespace Sidelink

variable {s s' : Sidelink} {id : DestinationId}

def Configured (s : Sidelink) (id : DestinationId) : Prop :=
  ∃ d who, s.destination? id = some d ∧ (d.groups.channel? who).isSome

/-- Every process in use belongs to a destination that was set up. -/
def Owned (s : Sidelink) : Prop :=
  ∀ process id, s.harq.holder? process = some id → s.Configured id

/-- A free process is taken for a destination, empty, and no other one changes. -/
structure Binds (s : Sidelink) (id : DestinationId) (process : ProcessId) (s' : Sidelink) :
    Prop where
  free : s.harq.isFree process = true
  empty : s'.harq.process? process = some ⟨some id, ∅, []⟩
  others : ∀ other, other ≠ process → s'.harq.process? other = s.harq.process? other

theorem Configured.put {id' : DestinationId} {d : Destination} (h : s.Configured id)
    (hkept : ∀ d', s.destination? id' = some d' →
      ∀ who, (d'.groups.channel? who).isSome → (d.groups.channel? who).isSome) :
    (s.put id' d).Configured id := by
  obtain ⟨d', who, hd', hwho⟩ := h
  by_cases he : id = id'
  · subst he
    exact ⟨d, who, by rw [destination?_put, if_pos rfl], hkept d' hd' who hwho⟩
  · exact ⟨d', who, by rw [destination?_put, if_neg he, hd'], hwho⟩

/-- What an operation can do. -/
inductive Step (s : Sidelink) : SidelinkOperation → Progress →
    Except Refusal (Option (List Grant)) → Prop
  | refused {op : SidelinkOperation} {why : Refusal} (hfree : why ≠ .harq .allBusy)
      (hstranger : ∀ id process, op = .feedback id process → s.harq.holder? process ≠ some id) :
      Step s op ⟨s, []⟩ (.error why)
  | unsent {id : DestinationId} {cs : List Candidate} : Step s (.trigger id cs) ⟨s, []⟩ (.ok none)
  | sent {id : DestinationId} {cs chosen : List Candidate} {first : Grant} {s' : Sidelink}
      (hchosen : chosen ≠ []) (h : s.Sent id first s') :
      Step s (.trigger id cs) ⟨s', []⟩ (.ok (some (grants chosen first)))
  | stored {op : SidelinkOperation} {id : DestinationId} {d : Destination}
      {sent : List Confirmation}
      (hop : op.tells = true)
      (hkept : ∀ d', s.destination? id = some d' →
        ∀ who, (d'.groups.channel? who).isSome → (d.groups.channel? who).isSome) :
      Step s op ⟨s.put id d, sent⟩ (.ok none)
  | packet {id : DestinationId} {channel : ChannelId} {process : ProcessId} {packet : Packet}
      {harq : HarqTable DestinationId Packet}
      (h : s.harq.addPacket id channel process packet = .ok harq) :
      Step s (.addPacket id channel process packet) ⟨{ s with harq }, []⟩ (.ok none)
  | released {id : DestinationId} {process : ProcessId} {harq : HarqTable DestinationId Packet}
      (h : s.harq.release id process = .ok harq) :
      Step s (.feedback id process) ⟨{ s with harq }, []⟩ (.ok none)

theorem step_configureChannel (hs : s.Sound) (r : SidelinkRequest) :
    s.Step (.configureChannel r)
      ⟨(s.configureChannel r).1, (s.configureChannel r).2.toOption.join.toList⟩
      ((s.configureChannel r).2.map fun _ => none) := by
  have wf := hs.ensured r.destination
  unfold Sidelink.configureChannel
  simp only
  split
  · next k g hheld =>
    -- A destination that is new has no channel.
    cases hd : s.destination? r.destination with
    | none =>
      rw [hd] at hheld
      cases hheld
    | some d =>
      simp only [Option.getD_some, put_of_destination? hd]
      exact .refused (by simp) (by simp)
  · next hnone =>
    have hnew : ((s.destination? r.destination).getD
        (.fresh s.config.initialMcs)).groups.channel? (r.group, r.channel) = none := by
      by_contra hsome
      exact Groups.holding?_none hnone _ (Option.isSome_iff_ne_none.mpr hsome) rfl
    obtain ⟨g, hg⟩ := Cell.insert_fresh wf r.group r.channel r.priority hnew
    simp only [hg]
    refine .stored rfl fun d' hd' who hwho => ?_
    have hadded := Groups.channel?_add_channel wf rfl hg who
    simp only [hd', Option.getD_some] at hadded ⊢
    rw [hadded]
    split
    · rfl
    · exact hwho

theorem step_reportBuffer (s : Sidelink) (r : BufferReport DestinationId) :
    s.Step (.reportBuffer r) (quiet (s.reportBuffer r)).1 (quiet (s.reportBuffer r)).2 := by
  unfold Sidelink.reportBuffer
  split
  · exact .refused (by simp) (by simp)
  · next d hd =>
    split
    · next e hupdate => exact .refused (Cell.stray_of_updates hupdate).ne_allBusy (by simp)
    · next k gs hupdate =>
      obtain ⟨g, g', hg, hg', rfl⟩ := Groups.updates_ok hupdate
      refine .stored rfl fun d' hd' who hwho => ?_
      obtain rfl : d = d' := Option.some.inj (hd.symm.trans hd')
      rwa [Groups.isSome_channel?_update hg hg']

theorem step_reportQuality (s : Sidelink) (id : DestinationId) (cqi : UInt8) :
    s.Step (.reportQuality id cqi) (quiet (s.reportQuality id cqi)).1
      (quiet (s.reportQuality id cqi)).2 := by
  unfold Sidelink.reportQuality
  split
  · exact .refused (by simp) (by simp)
  · next d hd =>
    refine .stored rfl fun d' hd' who hwho => ?_
    obtain rfl : d = d' := Option.some.inj (hd.symm.trans hd')
    exact hwho

theorem step_addPacket (s : Sidelink) (id : DestinationId) (channel : ChannelId)
    (process : ProcessId) (packet : Packet) :
    s.Step (.addPacket id channel process packet) (quiet (s.addPacket id channel process packet)).1
      (quiet (s.addPacket id channel process packet)).2 := by
  unfold Sidelink.addPacket
  split
  · next e he =>
    refine .refused (fun hbusy => ?_) (by simp)
    cases hbusy
    exact HarqTable.addPacket_ne_allBusy he
  · next harq hadd => exact .packet hadd

theorem step_feedback (hs : s.Sound) (id : DestinationId) (process : ProcessId) :
    s.Step (.feedback id process) (quiet (s.feedback id process)).1
      (quiet (s.feedback id process)).2 := by
  unfold Sidelink.feedback
  split
  · next e he =>
    refine .refused (fun hbusy => ?_) ?_
    · cases hbusy
      exact HarqTable.release_ne_allBusy he
    · rintro _ _ ⟨⟩ hk
      obtain ⟨harq, hrelease, -⟩ := hs.harq.release_ok hk
      rw [he] at hrelease
      cases hrelease
  · next harq hrelease => exact .released hrelease

/-- A process that is free can be taken, so a trigger is refused for its destination only. -/
theorem trigger_refused {cs : List Candidate} {why : Refusal}
    (h : s.trigger id cs = .ok (s', .error why)) : why = .unknownDestination id := by
  rw [trigger_eq] at h
  split at h
  · cases h
    rfl
  · next d hd =>
    obtain ⟨backlog, -, h⟩ := bind_ok_iff.mp h
    split at h
    · cases h
    · next hready =>
      obtain ⟨p, -, h⟩ := bind_ok_iff.mp h
      split at h
      · cases h
      · split at h
        · next e he =>
          obtain ⟨x, hx⟩ := HarqTable.assign_ok_iff (k := id).mpr
            (Nat.pos_of_ne_zero fun h0 => hready (.inr (.inr h0)))
          rw [he] at hx
          cases hx
        · obtain ⟨y, -, h⟩ := bind_ok_iff.mp h
          cases h

theorem step_trigger {cs : List Candidate} {answer : Except Refusal (Option (List Grant))}
    (h : s.trigger id cs = .ok (s', answer)) : s.Step (.trigger id cs) ⟨s', []⟩ answer := by
  rcases trigger_cases h with ⟨rfl, rfl | ⟨why, rfl⟩⟩ | ⟨chosen, first, hchosen, -, rfl, hsent⟩
  · exact .unsent
  · exact .refused (by simp [trigger_refused h]) (by simp)
  · exact .sent hchosen hsent

theorem step_of_handle (hs : s.Sound) {op : SidelinkOperation} {p : Progress}
    {answer : Except Refusal (Option (List Grant))} (h : s.handle op = .ok (p, answer)) :
    s.Step op p answer := by
  rw [handle_eq] at h
  cases op with
  | configureChannel r =>
    cases h
    exact step_configureChannel hs r
  | reportBuffer r =>
    cases h
    exact step_reportBuffer s r
  | reportQuality id cqi =>
    cases h
    exact step_reportQuality s id cqi
  | trigger id cs =>
    simp only [outcome, bind_ok_iff, pure_ok_iff, Prod.mk.injEq] at h
    obtain ⟨⟨s', _⟩, htrigger, rfl, rfl⟩ := h
    exact step_trigger htrigger
  | addPacket id channel process packet =>
    cases h
    exact step_addPacket s id channel process packet
  | feedback id process =>
    cases h
    exact step_feedback hs id process

/-- An operation is done as a whole or not at all. -/
structure Whole (s : Sidelink) (op : SidelinkOperation) (p : Progress)
    (answer : Except Refusal (Option (List Grant))) : Prop where
  refused : ∀ why, answer = .error why → p = ⟨s, []⟩ ∧ why ≠ .harq .allBusy
  unsent : ∀ id cs, op = .trigger id cs → answer = .ok none → p = ⟨s, []⟩
  binds : ∀ grants, answer = .ok (some grants) → ∃ id cs process, op = .trigger id cs ∧
    s.Binds id process p.scheduler ∧ grants ≠ [] ∧
    ∀ g ∈ grants, g.destination = id ∧ g.process = process
  /-- A process keeps its holder until that one's feedback. -/
  kept : ∀ id process, s.harq.holder? process = some id → op ≠ .feedback id process →
    p.scheduler.harq.holder? process = some id
  released : ∀ id process, s.harq.holder? process = some id → op = .feedback id process →
    answer = .ok none ∧ p.scheduler.harq.isFree process = true

theorem Sent.binds (hs : s.Sound) {first : Grant} (h : s.Sent id first s') :
    s.Binds id first.process s' := by
  obtain ⟨d, harq, groups, -, -, hassign, -, rfl⟩ := h.stored
  have hprocess := HarqTable.process?_assign hs.harq hassign
  refine ⟨(HarqTable.available_of_assign hassign).1, (hprocess _).trans (if_pos rfl), ?_⟩
  exact fun other hne => (hprocess other).trans (if_neg hne)

theorem grants_ne_nil {chosen : List Candidate} (h : chosen ≠ []) (first : Grant) :
    grants chosen first ≠ [] := by
  rw [grants, ne_eq, List.map_eq_nil_iff, List.zipIdx_eq_nil_iff]
  exact h

theorem of_mem_grants {chosen : List Candidate} {first g : Grant} (h : g ∈ grants chosen first) :
    g.destination = first.destination ∧ g.process = first.process := by
  obtain ⟨⟨c, n⟩, -, rfl⟩ := List.mem_map.mp h
  exact ⟨rfl, rfl⟩

namespace Step

variable {op : SidelinkOperation} {p : Progress} {answer : Except Refusal (Option (List Grant))}

theorem undone {why : Refusal} (h : s.Step op p (.error why)) :
    p = ⟨s, []⟩ ∧ why ≠ .harq .allBusy := by
  cases h with
  | refused hfree _ => exact ⟨rfl, hfree⟩

theorem idle {cs : List Candidate} (h : s.Step (.trigger id cs) p (.ok none)) : p = ⟨s, []⟩ := by
  cases h with
  | unsent => rfl
  | stored hop _ => cases hop

theorem binds (hs : s.Sound) {granted : List Grant} (h : s.Step op p (.ok (some granted))) :
    ∃ id cs process, op = .trigger id cs ∧ s.Binds id process p.scheduler ∧ granted ≠ [] ∧
      ∀ g ∈ granted, g.destination = id ∧ g.process = process := by
  cases h with
  | @sent id cs chosen first s' hchosen hsent =>
    refine ⟨id, cs, _, rfl, hsent.binds hs, grants_ne_nil hchosen first, fun g hg => ?_⟩
    rw [← hsent.destination]
    exact of_mem_grants hg

theorem binds_of_mem (hs : s.Sound) (h : s.Step op p answer) {g : Grant}
    (hg : g ∈ handedOut answer) :
    ∃ cs, op = .trigger g.destination cs ∧ s.Binds g.destination g.process p.scheduler := by
  obtain why | granted := answer
  · cases hg
  · obtain - | granted := granted
    · cases hg
    · obtain ⟨id, cs, process, rfl, hbinds, -, hprocess⟩ := h.binds hs
      obtain ⟨rfl, rfl⟩ := hprocess g hg
      exact ⟨cs, rfl, hbinds⟩

theorem kept (hs : s.Sound) (h : s.Step op p answer) {process : ProcessId}
    (hk : s.harq.holder? process = some id) (hop : op ≠ .feedback id process) :
    p.scheduler.harq.holder? process = some id := by
  cases h with
  | refused _ _ => exact hk
  | unsent => exact hk
  | sent _ hsent =>
    obtain ⟨d, harq, groups, -, -, hassign, -, rfl⟩ := hsent.stored
    refine (HarqTable.holder?_assign hs.harq hassign process).trans ((if_neg ?_).trans hk)
    -- What is taken had no holder.
    rintro rfl
    rw [HarqTable.holder?, ← HarqTable.process?, HarqTable.process?_assigned hs.harq hassign] at hk
    cases hk
  | stored _ _ => exact hk
  | packet hadd => exact (HarqTable.holder?_addPacket hadd process).trans hk
  | @released id' process' _ hrelease =>
    refine (HarqTable.holder?_release hrelease process).trans ((if_neg ?_).trans hk)
    rintro rfl
    obtain ⟨-, hheld, -⟩ := HarqTable.release_ok_iff.mp hrelease
    rw [HarqTable.holder?_eq_some_iff.mpr hheld, Option.some.injEq] at hk
    exact hop (by rw [hk])

theorem released_ok {process : ProcessId} (h : s.Step (.feedback id process) p answer)
    (hk : s.harq.holder? process = some id) :
    answer = .ok none ∧ p.scheduler.harq.isFree process = true := by
  cases h with
  | refused _ hstranger => exact absurd hk (hstranger id process rfl)
  | stored hop _ => cases hop
  | released hrelease =>
    obtain ⟨-, -, rfl⟩ := HarqTable.release_ok_iff.mp hrelease
    exact ⟨rfl, by simp [HarqTable.isFree]⟩

theorem whole (hs : s.Sound) (h : s.Step op p answer) : s.Whole op p answer where
  refused := by
    rintro why rfl
    exact h.undone
  unsent := by
    rintro id cs rfl rfl
    exact h.idle
  binds := by
    rintro granted rfl
    exact h.binds hs
  kept id process := h.kept hs
  released := by
    rintro id process hk rfl
    exact h.released_ok hk

theorem configured (hs : s.Sound) (h : s.Step op p answer) (hconfigured : s.Configured id) :
    p.scheduler.Configured id := by
  cases h with
  | refused _ _ => exact hconfigured
  | unsent => exact hconfigured
  | sent _ hsent =>
    obtain ⟨d, harq, groups, hd, -, -, hfill, rfl⟩ := hsent.stored
    refine Configured.put (s := { s with harq }) hconfigured fun d' hd' who hwho => ?_
    obtain rfl : d = d' := Option.some.inj (hd.symm.trans hd')
    rwa [(Groups.filled_of_fill (hs.groups _ d hd) hfill).exists_channel who]
  | stored _ hkept => exact hconfigured.put hkept
  | packet _ => exact hconfigured
  | released _ => exact hconfigured

/-- Only a destination with waiting bytes takes a process, and these wait on a channel. -/
theorem owned (hs : s.Sound) (ho : s.Owned) (h : s.Step op p answer) : p.scheduler.Owned := by
  intro process id hk
  refine h.configured hs ?_
  cases h with
  | refused _ _ => exact ho process id hk
  | unsent => exact ho process id hk
  | @sent id' cs chosen first s' _ hsent =>
    obtain ⟨d, harq, groups, hd, ⟨n, hn, hne⟩, hassign, -, rfl⟩ := hsent.stored
    have hk : (if process = first.process then some id' else s.harq.holder? process) = some id :=
      (HarqTable.holder?_assign hs.harq hassign process).symm.trans hk
    split at hk
    · -- Bytes wait for the destination, so it has a channel.
      obtain rfl := Option.some.inj hk
      have hbytes : d.groups.bytes ≠ 0 := fun h0 => hne <| UInt32.toNat_inj.mp <|
        (Groups.total_ok_iff.mp hn).trans h0
      rw [ne_eq, Groups.bytes_eq_zero_iff] at hbytes
      push Not at hbytes
      obtain ⟨who, c, hc, -⟩ := hbytes
      exact ⟨d, who, hd, by rw [hc]; rfl⟩
    · exact ho process id hk
  | stored _ _ => exact ho process id hk
  | packet hadd => exact ho process id ((HarqTable.holder?_addPacket hadd process).symm.trans hk)
  | released hrelease =>
    have hk := (HarqTable.holder?_release hrelease process).symm.trans hk
    split at hk
    · cases hk
    · exact ho process id hk

end Step

theorem step_of_perform (hs : s.Sound) {op : SidelinkOperation} {granted : List Grant}
    (h : s.perform op = .ok (s', granted)) : ∃ p answer, s.Step op p answer ∧ p.scheduler = s' ∧
      handedOut answer = granted := by
  rw [perform_eq] at h
  cases hx : s.handle op with
  | error f =>
    rw [hx] at h
    cases h
  | ok x =>
    rw [hx] at h
    cases h
    exact ⟨x.1, x.2, step_of_handle hs hx, rfl, rfl⟩

theorem succeeds_handle (s : Sidelink) {op : SidelinkOperation}
    (hop : ∀ id cs, op ≠ .trigger id cs) : Succeeds (s.handle op) := by
  rw [handle_eq]
  cases op with
  | trigger id cs => exact absurd rfl (hop id cs)
  | _ => exact succeeds_ok _

theorem owned_create {config : SidelinkConfig} {link : LinkModel} {confirming : Bool}
    (h : create config link confirming = .ok s) : s.Owned := by
  intro process id hk
  obtain ⟨-, rfl⟩ := of_create h
  obtain ⟨p, hp, hholder⟩ := HarqTable.holder?_eq_some_iff.mp hk
  rw [HarqTable.process?_ofCapacity] at hp
  split at hp
  · cases hp
    cases hholder
  · cases hp

end Sidelink

namespace SidelinkRun

variable {config : SidelinkConfig} {link : LinkModel} {confirming : Bool}
  {events : List SidelinkEvent} {s : Sidelink}

theorem owned (h : SidelinkRun config link confirming events s) : s.Owned := by
  induction h with
  | start h => exact Sidelink.owned_create h
  | step run h ih =>
    obtain ⟨p, answer, hstep, rfl, -⟩ := Sidelink.step_of_perform run.sound h
    exact hstep.owned run.sound ih

theorem kept (h : SidelinkRun config link confirming events s) {before after : List SidelinkEvent}
    {e : SidelinkEvent} (hevents : events = before ++ e :: after) {id : DestinationId}
    {cs : List Candidate} (hop : e.operation = .trigger id cs) {g : Grant} (hg : g ∈ e.grants) :
    s.harq.holder? g.process = some id ∨
      ∃ later ∈ after, later.operation = .feedback id g.process := by
  induction h generalizing after with
  | start h => simp at hevents
  | @step events s s' op granted run h ih =>
    obtain ⟨p, answer, hstep, rfl, hgranted⟩ := Sidelink.step_of_perform run.sound h
    rcases split_of_concat hevents with ⟨-, rfl, rfl⟩ | ⟨between, hbefore, rfl⟩
    · -- The trigger is the last operation.
      obtain ⟨cs', hop', hbinds⟩ := hstep.binds_of_mem run.sound (hgranted ▸ hg)
      obtain ⟨rfl, -⟩ := SidelinkOperation.trigger.inj (hop'.symm.trans hop)
      exact .inl (HarqTable.holder?_eq_some_iff.mpr ⟨_, hbinds.empty, rfl⟩)
    · rcases ih hbefore with hk | ⟨later, hlater, hfeedback⟩
      · by_cases hop' : op = .feedback id g.process
        · exact .inr ⟨_, List.mem_append_right between (List.mem_singleton_self _), hop'⟩
        · exact .inl (hstep.kept run.sound hk hop')
      · exact .inr ⟨later, List.mem_append_left _ hlater, hfeedback⟩

end SidelinkRun

/-- Handled step by step, an operation does what it gives: all of it, or nothing if it is refused or
a trigger that sends no block. Running out of processes is never a refusal. Every process in use
belongs to a destination that was set up. A block takes one free process, and only feedback of its
destination on that process releases it. -/
theorem sidelink_operations_are_whole {config : SidelinkConfig} {link : LinkModel}
    {confirming : Bool} {events : List SidelinkEvent} {s : Sidelink}
    (h : SidelinkRun config link confirming events s) :
    s.Owned ∧
    (∀ op, s.handle op = s.outcome op ∧
      ((∀ id cs, op ≠ .trigger id cs) → ∃ p answer, s.handle op = .ok (p, answer)) ∧
      ∀ p answer, s.handle op = .ok (p, answer) → s.Whole op p answer) ∧
    ∀ before e after, events = before ++ e :: after →
      ∀ id cs, e.operation = .trigger id cs → ∀ g ∈ e.grants,
        s.harq.holder? g.process = some id ∨
          ∃ later ∈ after, later.operation = .feedback id g.process := by
  refine ⟨h.owned, fun op => ⟨s.handle_eq op, fun hop => ?_, fun p answer hhandle => ?_⟩, ?_⟩
  · obtain ⟨⟨p, answer⟩, hhandle⟩ := s.succeeds_handle hop
    exact ⟨p, answer, hhandle⟩
  · exact (Sidelink.step_of_handle h.sound hhandle).whole h.sound
  · exact fun before e after hevents id cs hop g hg => h.kept hevents hop hg

/-- A channel that its destination has in another group already. -/
theorem sidelink_operations_are_whole_sample :
    let again : SidelinkOperation := .configureChannel
      { destination := ⟨255⟩, channel := 4, group := 9, priority := 1, delayBudget := 20,
        repeated := true }
    ∃ (s : Sidelink) (p : Sidelink.Progress), s.Reachable ∧ s.harq.holder? 0 = some ⟨255⟩ ∧
      s.Configured ⟨255⟩ ∧ s.handle again = .ok (p, .error (.duplicateChannel 3 4)) ∧
      p = ⟨s, []⟩ := by
  intro again
  have hrun : (sampleSidelink.performAll sampleSidelinkOperations).toOption.any (fun x =>
      x.2.harq.holder? 0 = some ⟨255⟩ &&
        (x.2.handle again).toOption.any fun y => y.2 = .error (.duplicateChannel 3 4)) = true := by
    decide +kernel
  obtain ⟨⟨events, s⟩, hops, htest⟩ := exists_ok_of_any hrun
  obtain ⟨hholder, hrefused⟩ := Bool.and_eq_true_iff.mp htest
  obtain ⟨⟨p, answer⟩, hhandle, hanswer⟩ := exists_ok_of_any hrefused
  simp only [decide_eq_true_eq] at hholder hanswer
  subst hanswer
  have h := sidelinkRun_sample hops
  obtain ⟨howned, hwhole, -⟩ := sidelink_operations_are_whole h
  exact ⟨s, p, ⟨_, _, _, _, h⟩, hholder, howned 0 _ hholder, hhandle,
    (((hwhole again).2.2 p _ hhandle).refused _ rfl).1⟩

end Airtime
