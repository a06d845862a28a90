import Airtime.Proofs.Load
import Airtime.Proofs.Stages

/-! The queues of a simulation and the channels of its cell. After every slot as many bytes wait on the
channel of a flow as in the flow's queue. Each side takes the bytes of a new block out by itself, the
channels by filling the block and the queue by its size; reports make both the same again when new
bytes come in. Blocks that are sent again and feedback change neither side. -/

namespace Airtime

namespace Groups

variable {gs gs' : Groups} {who : GroupId × ChannelId} {n bytes : UInt32} {pdus : List Pdu}

/-- There is a channel with `n` bytes of new data waiting, and nothing else. -/
def Queued (gs : Groups) (who : GroupId × ChannelId) (n : UInt32) : Prop :=
  ∃ c, gs.channel? who = some c ∧ c.tx = n ∧ c.retx = 0 ∧ c.status = 0

theorem queued_of_update {κ : Type} {destination : κ} {ch : ChannelId} {k : GroupId} {g g' : Group}
    (hg : gs.get? k = some g) (h : g.update (.newData destination ch n) = .ok g') :
    Queued (gs.insert k g') (k, ch) n := by
  obtain ⟨c, -, rfl⟩ := update_ok h
  refine ⟨c.update (.newData destination ch n), ?_, rfl, rfl, rfl⟩
  exact (channel?_insert hg ch _ (k, ch)).trans (if_pos rfl)

theorem Queued.filled (h : gs.Queued who n) (honly : gs.OnlyAt who)
    (hf : gs.Filled bytes pdus gs') : gs'.Queued who (Word.subSat n bytes) := by
  obtain ⟨c, hc, rfl, hretx, hstatus⟩ := h
  have hdrained : ∃ m, gs'.channel? who = some (c.drain m).1 := by
    by_cases hw : who ∈ pdus.map source
    · obtain ⟨p, hp, rfl⟩ := List.mem_map.mp hw
      obtain ⟨c', hc', -, hafter⟩ := hf.taken p hp
      rw [hc, Option.some.injEq] at hc'
      exact ⟨p.size, by rw [hafter, hc']⟩
    · exact ⟨0, by rw [hf.spared who hw, hc, Channel.drain_zero]⟩
  obtain ⟨m, hm⟩ := hdrained
  obtain ⟨hstatus', hretx', htx', -⟩ := Channel.toNat_drain c m
  rw [hstatus] at hstatus'
  rw [hretx] at hretx'
  have hs : (c.drain m).1.status = 0 := UInt32.toNat_inj.mp (by simpa using hstatus')
  have hr : (c.drain m).1.retx = 0 := UInt32.toNat_inj.mp (by simpa using hretx')
  refine ⟨_, hm, ?_, hr, hs⟩
  -- All bytes before and after wait on this channel.
  have hbefore := honly.bytes_eq hc
  have hafter := (honly.filled hf).bytes_eq hm
  have hleft := hf.bytes_left
  have hsub := Word.toNat_subSat c.tx bytes
  simp only [Channel.bytes, hretx, hstatus, hr, hs, UInt32.toNat_zero] at hbefore hafter
  simp only [Word.toNat_uint32] at hsub
  exact UInt32.toNat_inj.mp (by omega)

end Groups

namespace Flow

variable {f f' : Flow} {gs gs' : Groups} {d : Direction} {n bytes : UInt32} {pdus : List Pdu}

/-- The channel of a flow in one direction has `n` bytes of new data waiting, and nothing else. -/
def Waits (f : Flow) (gs : Groups) (n : UInt32) : Direction → Prop
  | .downlink => ∃ k, gs.Queued (k, f.channel) n
  | .uplink => gs.Queued (f.group, f.group) n

def InStep (f : Flow) (gs : Groups) (d : Direction) : Prop := f.Waits gs (f.queue d).waiting d

theorem Waits.congr (h : f.Waits gs n d) (hchannel : f'.channel = f.channel)
    (hgroup : f'.group = f.group) : f'.Waits gs n d := by
  cases d with
  | downlink =>
    unfold Waits
    rw [hchannel]
    exact h
  | uplink =>
    unfold Waits
    rw [hgroup]
    exact h

theorem Waits.place (h : f.Waits gs n d) (wf : gs.WellFormed) (huses : f.Uses gs d) :
    ∃ who, gs.Queued who n ∧ gs.OnlyAt who ∧ ∀ gs' m, Groups.Queued gs' who m → f.Waits gs' m d := by
  cases d with
  | downlink =>
    obtain ⟨k, hk⟩ := h
    obtain ⟨k', honly⟩ := huses
    -- The channel is in one group only.
    obtain rfl : k = k' := by
      obtain ⟨c, hc, -⟩ := hk
      exact congrArg Prod.fst (wf.once (k, f.channel) (k', f.channel) (by rw [hc]; rfl) honly.there rfl)
    exact ⟨_, hk, honly, fun gs' m hm => ⟨k, hm⟩⟩
  | uplink => exact ⟨_, h, huses, fun gs' m hm => hm⟩

theorem Waits.filled (wf : gs.WellFormed) (h : f.Waits gs n d) (huses : f.Uses gs d)
    (hf : gs.Filled bytes pdus gs') : f.Waits gs' (Word.subSat n bytes) d := by
  obtain ⟨who, hqueued, honly, hwaits⟩ := h.place wf huses
  exact hwaits gs' _ (hqueued.filled honly hf)

theorem Waits.bytes_eq (h : f.Waits gs n d) (wf : gs.WellFormed) (huses : f.Uses gs d) :
    gs.bytes = n.toNat := by
  obtain ⟨who, ⟨c, hc, rfl, hretx, hstatus⟩, honly, -⟩ := h.place wf huses
  rw [honly.bytes_eq hc, Channel.bytes, hretx, hstatus]
  rfl

theorem queue_sent (l : List Assignment) (f : Flow) (d : Direction) :
    (l.foldl Flow.sent f).queue d = (l.filter fun a => a.direction = d && a.newData).foldl
      (fun q a => q.remove a.blockSize) (f.queue d) := by
  induction l generalizing f with
  | nil => rfl
  | cons a l ih =>
    rw [List.foldl_cons, ih, List.filter_cons]
    have hqueue : (f.sent a).queue d =
        if a.direction = d && a.newData then (f.queue d).remove a.blockSize else f.queue d := by
      unfold Flow.sent
      cases a.newData <;> cases a.direction <;> cases d <;> rfl
    rw [hqueue]
    split
    · rfl
    · rfl

end Flow

namespace Cell

variable {c c' : Cell} {r : Rnti} {d : Direction}

theorem groupsOf_feedback (hc : c.Sound) (f : Feedback) (r : Rnti) (d : Direction) :
    (c.feedback f).1.groupsOf r d = c.groupsOf r d := by
  rcases feedback_cases c f with ⟨-, hsame⟩ | ⟨u, s, hu, hput, hanswered⟩
  · rw [hsame]
  · rw [hput, groupsOf_put_setLink hu (hc.user_rnti hu)]
    split
    · next hrd =>
      rw [hrd.1, hrd.2, groupsOf_of_user hu]
      rcases hanswered with ⟨b, -, -, -, rfl⟩ | ⟨-, harq, rfl, -⟩
      · rfl
      · rfl
    · rfl

theorem queued_of_reportBuffer (hc : c.Sound) {ch : ChannelId} {n : UInt32}
    (h : (c.reportBuffer (.newData r ch n)).2 = .ok ()) :
    (∃ k, ((c.reportBuffer (.newData r ch n)).1.groupsOf r .downlink).Queued (k, ch) n) ∧
      ∀ r' d, ¬ (r' = r ∧ d = .downlink) →
        (c.reportBuffer (.newData r ch n)).1.groupsOf r' d = c.groupsOf r' d := by
  unfold Cell.reportBuffer at h ⊢
  split
  · next hnone =>
    rw [hnone] at h
    cases h
  · next u hu =>
    have hu : c.user? r = some u := hu
    have hr : u.rnti = r := hc.user_rnti hu
    simp only [BufferReport.newData, hu] at h
    split
    · next herror =>
      simp only [BufferReport.newData] at herror
      rw [herror] at h
      cases h
    · next k _ hupdate =>
      obtain ⟨g, g', hg, hg', rfl⟩ := Groups.updates_ok hupdate
      refine ⟨⟨k, ?_⟩, fun r' d hne => ?_⟩
      · rw [User.modify, groupsOf_put_setLink hu hr, if_pos ⟨rfl, rfl⟩]
        exact Groups.queued_of_update hg hg'
      · rw [User.modify, groupsOf_put_setLink hu hr, if_neg hne]

theorem queued_of_reportGroup (hc : c.Sound) {k : GroupId} {n : UInt32}
    (h : (c.reportGroup ⟨r, k, n⟩).2 = .ok ()) :
    ((c.reportGroup ⟨r, k, n⟩).1.groupsOf r .uplink).Queued (k, k) n ∧
      ∀ r' d, ¬ (r' = r ∧ d = .uplink) →
        (c.reportGroup ⟨r, k, n⟩).1.groupsOf r' d = c.groupsOf r' d := by
  unfold Cell.reportGroup at h ⊢
  simp only at h ⊢
  split
  · next hnone =>
    rw [hnone] at h
    cases h
  · next u hu =>
    have hr : u.rnti = r := hc.user_rnti hu
    simp only [hu] at h
    split
    · next hnone =>
      rw [hnone] at h
      cases h
    · next g hg =>
      simp only [hg] at h
      split
      · next herror =>
        rw [herror] at h
        cases h
      · next hupdate =>
        refine ⟨?_, fun r' d hne => ?_⟩
        · rw [User.modify, groupsOf_put_setLink hu hr, if_pos ⟨rfl, rfl⟩]
          exact Groups.queued_of_update hg hupdate
        · rw [User.modify, groupsOf_put_setLink hu hr, if_neg hne]

/-- A slot starts no block for a user in one direction and leaves its channels alone, or it starts one,
which is filled from them. -/
theorem new_of_slot (hc : c.Sound) {time : SlotTime} {slot : SlotAllocation}
    (h : c.scheduleSlot time = .ok (c', slot)) (r : Rnti) (d : Direction) :
    (slot.assignments d).filter (fun a => a.rnti = r && a.newData) = [] ∧
        c'.groupsOf r d = c.groupsOf r d ∨
      ∃ a pdus, (slot.assignments d).filter (fun a => a.rnti = r && a.newData) = [a] ∧
        (c.groupsOf r d).Filled a.blockSize pdus (c'.groupsOf r d) := by
  rcases hc.carried_of_slot h r d with ⟨hnone, hsame, -⟩ | ⟨a, pdus, hone, hfilled, -⟩
  · exact .inl ⟨hnone, hsame⟩
  · exact .inr ⟨a, pdus, hone, hfilled⟩

end Cell

namespace Simulator

variable {s t : Simulator} {chance : Chance} {slot : SlotAllocation}

/-- After its report, a flow is in step, and nobody else's channels changed. -/
theorem waits_of_reportFlow {c c' : Cell} (hc : c.Sound) {r : Rnti} {f f' : Flow}
    (h : reportFlow c r f = .ok (c', f')) : c'.Sound ∧ (∀ d, f'.InStep (c'.groupsOf r d) d) ∧
      ∀ r' d, r' ≠ r → c'.groupsOf r' d = c.groupsOf r' d := by
  simp only [reportFlow, bind_ok_iff, pure_ok_iff, Prod.mk.injEq, lift_refusal_ok_iff] at h
  obtain ⟨⟨c₁, x⟩, hbuffer, ⟨c₂, y⟩, hgroup, rfl, rfl⟩ := h
  obtain ⟨hok, rfl⟩ := accepted_ok_iff.mp hbuffer
  obtain ⟨hok', rfl⟩ := accepted_ok_iff.mp hgroup
  have hc₁ := hc.notes (c.notes_reportBuffer (.newData r f.channel (arrived f).downlink.waiting))
  obtain ⟨⟨k, hqueued⟩, hother⟩ := Cell.queued_of_reportBuffer hc hok
  obtain ⟨hqueued', hother'⟩ := Cell.queued_of_reportGroup hc₁ hok'
  refine ⟨hc₁.notes (Cell.notes_reportGroup _ _), fun d => ?_, fun r' d hne => ?_⟩
  · cases d with
    | downlink =>
      rw [hother' r .downlink fun h => by cases h.2]
      exact ⟨k, hqueued⟩
    | uplink => exact hqueued'
  · rw [hother' r' d fun h => hne h.1, hother r' d fun h => hne h.1]

theorem inStep_of_walked {c c' : Cell} {l l' : List (Rnti × Flow)} (hc : c.Sound)
    (h : Table.Walked reportFlow c l c' l') (hnodup : (l.map Prod.fst).Nodup) :
    (∀ e ∈ l', ∀ d, e.2.InStep (c'.groupsOf e.1 d) d) ∧
      ∀ r d, r ∉ l.map Prod.fst → c'.groupsOf r d = c.groupsOf r d := by
  induction h with
  | nil c => exact ⟨fun e he => (by cases he), fun r d _ => rfl⟩
  | @cons c c₁ c' r f f' l l' first rest ih =>
    rw [List.map_cons, List.nodup_cons] at hnodup
    obtain ⟨hc₁, hhere, hother⟩ := waits_of_reportFlow hc first
    obtain ⟨hrest, hkept⟩ := ih hc₁ hnodup.2
    refine ⟨fun e he d => ?_, fun r' d hr' => ?_⟩
    · rcases List.mem_cons.mp he with rfl | he
      · rw [hkept r d hnodup.1]
        exact hhere d
      · exact hrest e he d
    · rw [List.map_cons, List.mem_cons, not_or] at hr'
      rw [hkept r' d hr'.2, hother r' d hr'.1]

def QueuesInStep (s : Simulator) : Prop :=
  ∀ r f d, s.flows.get? r = some f → f.InStep (s.cell.groupsOf r d) d

theorem InOrder.deliver_idle (h : s.InOrder) (hok : s.deliver = .ok t) :
    t.flows = s.flows ∧ ∀ r d, t.cell.groupsOf r d = s.cell.groupsOf r d := by
  obtain ⟨⟨-, hgroups⟩, -⟩ := deliver_keeps
    (I := fun _ c _ => c.Sound ∧ ∀ r d, c.groupsOf r d = s.cell.groupsOf r d) hok
    ⟨h.sound, fun _ _ => rfl⟩ fun a rest c _ _ hc _ _ => ⟨hc.1.feedback _, fun r d => by
      rw [Cell.groupsOf_feedback hc.1, hc.2]⟩
  exact ⟨(h.deliver hok).2.2.1, hgroups⟩

theorem InOrder.fillQueues_inStep (h : s.InOrder) (hok : s.fillQueues = .ok t) :
    t.QueuesInStep := by
  obtain ⟨hwalked, -⟩ := fillQueues_cases hok
  intro r f d hf
  exact (inStep_of_walked h.sound hwalked s.flows.keys_nodup).1 (r, f)
    (Table.mem_entries.mpr hf) d

/-- What a slot sends for user `r` in direction `d` as new blocks. -/
theorem InOrder.queue_send (h : s.InOrder) {cell : Cell}
    (hslot : s.cell.scheduleSlot s.time = .ok (cell, slot))
    (hsend : (slot.downlink ++ slot.uplink).foldlM (transmit chance) { s with cell } = .ok t)
    (r : Rnti) : ∃ sent : Flow → Flow, t.flows.get? r = (s.flows.get? r).map sent ∧
      ∀ f, (sent f).channel = f.channel ∧ (sent f).group = f.group ∧
        ∀ d, (sent f).queue d = ((slot.assignments d).filter fun a => a.rnti = r && a.newData).foldl
          (fun q a => q.remove a.blockSize) (f.queue d) := by
  obtain ⟨-, -, -, -, -, hflows⟩ := transmitAll_cases hsend
  refine ⟨_, hflows r, fun f => ⟨(Flow.channel_sent _ f).1, (Flow.channel_sent _ f).2, fun d => ?_⟩⟩
  rw [Flow.queue_sent]
  congr 1
  have hdirection : ∀ e, (slot.assignments e).filter (fun a => a.direction = d && a.newData) =
      if e = d then (slot.assignments e).filter (·.newData) else [] := by
    intro e
    split
    · next he =>
      refine List.filter_congr fun a ha => ?_
      simp [h.sound.direction_of_slot hslot ha, he]
    · next he =>
      refine List.filter_eq_nil_iff.mpr fun a ha => ?_
      simp [h.sound.direction_of_slot hslot ha, he]
  have hswap : ∀ l : List Assignment, (l.filter (·.rnti = r)).filter
      (fun a => a.direction = d && a.newData) =
        (l.filter fun a => a.direction = d && a.newData).filter (·.rnti = r) := by
    intro l
    simp [List.filter_filter, Bool.and_comm]
  have hdown := hdirection .downlink
  have hup := hdirection .uplink
  simp only [SlotAllocation.assignments] at hdown hup
  rw [hswap, List.filter_append, hdown, hup]
  cases d <;> simp [List.filter_filter, SlotAllocation.assignments]

theorem InOrder.inStep_send (h : s.InOrder) (hstep : s.QueuesInStep) {cell : Cell}
    (hslot : s.cell.scheduleSlot s.time = .ok (cell, slot))
    (hsend : (slot.downlink ++ slot.uplink).foldlM (transmit chance) { s with cell } = .ok t) :
    t.QueuesInStep := by
  intro r f' d hf'
  obtain ⟨sent, hflows, hsent⟩ := h.queue_send hslot hsend r
  obtain ⟨-, hcell, -⟩ := transmitAll_cases hsend
  rw [hflows] at hf'
  obtain ⟨f, hf, rfl⟩ := Option.map_eq_some_iff.mp hf'
  obtain ⟨hchannel, hgroup, hqueue⟩ := hsent f
  have hwaits := hstep r f d hf
  unfold Flow.InStep at hwaits ⊢
  rw [hcell, hqueue]
  refine Flow.Waits.congr ?_ hchannel hgroup
  rcases Cell.new_of_slot h.sound hslot r d with ⟨hnone, hsame⟩ | ⟨a, pdus, hone, hfilled⟩
  · rw [hnone]
    exact hsame ▸ hwaits
  · rw [hone]
    exact hwaits.filled (h.sound.groups_wellFormed r d) (h.carries.uses r f d hf) hfilled

theorem InOrder.inStep_step (h : s.InOrder) (hok : s.step chance = .ok (t, slot)) :
    t.QueuesInStep := by
  obtain ⟨s₁, s₂, s₃, cell, hdeliver, hfill, hslot, hsend, hsidelink⟩ := step_cases hok
  have h₁ := (h.deliver hdeliver).1
  have h₂ := (h₁.fillQueues hfill).1
  have h₃ := h₂.inStep_send (h₁.fillQueues_inStep hfill) hslot hsend
  obtain ⟨time, -, hframe, -⟩ := stepSidelink_cases hsidelink
  rw [hframe]
  exact h₃

theorem inStep_start {scenario : Scenario} (h : (start scenario).2 = .ok s) : s.QueuesInStep := by
  obtain ⟨hs, hblank, -, hsilent, -⟩ := inOrder_start h
  intro r f d hf
  have hempty : ∀ who, (s.cell.groupsOf r d).OnlyAt who → (s.cell.groupsOf r d).Queued who 0 := by
    intro who honly
    obtain ⟨c, hc⟩ := Option.isSome_iff_exists.mp honly.there
    have hbytes := Groups.bytes_eq_zero_iff.mp (hsilent r d) who c hc
    unfold Channel.bytes at hbytes
    exact ⟨c, hc, UInt32.toNat_inj.mp (by simpa using by omega),
      UInt32.toNat_inj.mp (by simpa using by omega), UInt32.toNat_inj.mp (by simpa using by omega)⟩
  unfold Flow.InStep
  rw [hblank.waiting r f d hf]
  have huses := hs.carries.uses r f d hf
  cases d with
  | downlink =>
    obtain ⟨k, honly⟩ := huses
    exact ⟨k, hempty _ honly⟩
  | uplink => exact hempty _ huses

end Simulator

/-- After any number of slots, the channel of every user has in each direction as many bytes of new
data waiting as its queue, and nothing else. Feedback changes neither side, nor does a slot that sends
no new block of the user in that direction. -/
theorem queues_stay_in_step {scenario : Scenario} {s t : Simulator} {chance : Chance} {n : Nat}
    {slots : List SlotAllocation} (h : (Simulator.start scenario).2 = .ok s)
    (hrun : s.run chance n = .ok (t, slots)) :
    (∀ r u, t.cell.user? r = some u → ∃ f, t.flows.get? r = some f ∧
      ∀ d, f.InStep (u.link d).groups d) ∧
    (∀ t', t.deliver = .ok t' →
      t'.flows = t.flows ∧ ∀ r d, t'.cell.groupsOf r d = t.cell.groupsOf r d) ∧
    ∀ t₁ t₂ t' slot, t.deliver = .ok t₁ → t₁.fillQueues = .ok t₂ →
      t.step chance = .ok (t', slot) →
      ∀ r d, (∀ a ∈ slot.assignments d, a.rnti = r → a.newData = false) →
        t'.cell.groupsOf r d = t₂.cell.groupsOf r d ∧
        (t'.flows.get? r).map (·.queue d) = (t₂.flows.get? r).map (·.queue d) := by
  obtain ⟨hs, -⟩ := Simulator.inOrder_start h
  obtain ⟨ht, hstep⟩ := Simulator.run_keeps (I := fun s => s.InOrder ∧ s.QueuesInStep) hrun
    ⟨hs, Simulator.inStep_start h⟩ fun s t slot hs hok => ⟨hs.1.step hok, hs.1.inStep_step hok⟩
  refine ⟨fun r u hu => ?_, fun t' hok => ht.deliver_idle hok, ?_⟩
  · obtain ⟨f, hf⟩ := Option.isSome_iff_exists.mp
      (show (t.flows.get? r).isSome by rw [← ht.carries.known, hu]; rfl)
    refine ⟨f, hf, fun d => ?_⟩
    rw [← Cell.groupsOf_of_user hu]
    exact hstep r f d hf
  · intro t₁ t₂ t' slot hdeliver hfill hok r d hold
    obtain ⟨s₁, s₂, s₃, cell, hdeliver', hfill', hslot, hsend, hsidelink⟩ :=
      Simulator.step_cases hok
    obtain rfl := Except.ok.inj (hdeliver.symm.trans hdeliver')
    obtain rfl := Except.ok.inj (hfill.symm.trans hfill')
    have h₂ := ((ht.deliver hdeliver).1.fillQueues hfill).1
    obtain ⟨sent, hflows, hsent⟩ := h₂.queue_send hslot hsend r
    obtain ⟨-, hcell, -⟩ := Simulator.transmitAll_cases hsend
    obtain ⟨time, -, hframe, -⟩ := Simulator.stepSidelink_cases hsidelink
    have hnone : (slot.assignments d).filter (fun a => a.rnti = r && a.newData) = [] :=
      List.filter_eq_nil_iff.mpr fun a ha => by
        by_cases hr : a.rnti = r
        · simp [hold a ha hr]
        · simp [hr]
    rw [hframe]
    refine ⟨?_, ?_⟩
    · show s₃.cell.groupsOf r d = _
      rw [hcell]
      rcases Cell.new_of_slot h₂.sound hslot r d with ⟨-, hsame⟩ | ⟨a, pdus, hone, -⟩
      · exact hsame
      · rw [hnone] at hone
        cases hone
    · show (s₃.flows.get? r).map _ = _
      rw [hflows, Option.map_map]
      refine congrArg (Option.map · _) (funext fun f => ?_)
      rw [Function.comp_apply, (hsent f).2.2 d, hnone]
      rfl

def busyScenario : Scenario where
  users := [{ rnti := ⟨1⟩, downlinkRate := 300, uplinkRate := 9 }]

def lossyChance : Chance := ⟨fun _ => 0, fun _ _ => 0, fun _ _ h => h⟩

/-- Both queues grow while a block of each direction is sent again. -/
theorem queues_stay_in_step_sample : ∃ s t slots u f,
    (Simulator.start busyScenario).2 = .ok s ∧ s.run lossyChance 3 = .ok (t, slots) ∧
    t.cell.user? ⟨1⟩ = some u ∧ t.flows.get? ⟨1⟩ = some f ∧ f.downlink.waiting = 686 ∧
    f.uplink.waiting = 18 ∧ ∀ d, f.InStep (u.link d).groups d := by
  have hstarted : (Simulator.start busyScenario).2.toOption.any (fun s =>
      (s.run lossyChance 3).toOption.any fun x => (x.1.cell.user? ⟨1⟩).any fun _ =>
        (x.1.flows.get? ⟨1⟩).any fun f => f.downlink.waiting = 686 ∧ f.uplink.waiting = 18) = true := by
    decide +kernel
  obtain ⟨s, hstart, htest⟩ := exists_ok_of_any hstarted
  obtain ⟨⟨t, slots⟩, hrun, htest⟩ := exists_ok_of_any htest
  obtain ⟨u, hu, htest⟩ := (Option.any_eq_true _ _).mp htest
  obtain ⟨f, hf, htest⟩ := (Option.any_eq_true _ _).mp htest
  obtain ⟨hdown, hup⟩ := of_decide_eq_true htest
  obtain ⟨f', hf', hstep⟩ := (queues_stay_in_step hstart hrun).1 ⟨1⟩ u hu
  obtain rfl : f = f' := Option.some.inj (hf.symm.trans hf')
  exact ⟨s, t, slots, u, f, hstart, hrun, hu, hf, hdown, hup, hstep⟩

end Airtime
