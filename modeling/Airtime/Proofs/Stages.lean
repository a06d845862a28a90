import Airtime.Proofs.Simulation

/-! The stages of a slot that succeeded, each read backwards from what it gave: what it did to the
cell, to the queues, to the feedback that is due and to the counters. What is in order before a slot
is in order after it (`Simulator.InOrder`), whatever the counters and the sidelink are. -/

namespace Airtime

/-- A block that was sent takes its bytes from the queue of its direction, if it is a new one. -/
def Flow.sent (f : Flow) (a : Assignment) : Flow :=
  if a.newData then f.modify a.direction (·.remove a.blockSize) else f

theorem Flow.channel_sent (l : List Assignment) (f : Flow) :
    (l.foldl Flow.sent f).channel = f.channel ∧ (l.foldl Flow.sent f).group = f.group := by
  induction l generalizing f with
  | nil => exact ⟨rfl, rfl⟩
  | cons a l ih =>
    have hsent : (f.sent a).channel = f.channel ∧ (f.sent a).group = f.group := by
      unfold Flow.sent
      split
      · cases a.direction <;> exact ⟨rfl, rfl⟩
      · exact ⟨rfl, rfl⟩
    obtain ⟨hchannel, hgroup⟩ := ih (f.sent a)
    exact ⟨hchannel.trans hsent.1, hgroup.trans hsent.2⟩

def Assignment.due (a : Assignment) : ProcessRef × UInt32 := (a.ref, a.blockSize)

def Awaited.due (a : Awaited) : ProcessRef × UInt32 := (a.feedback.ref, a.blockSize)

namespace Simulator

variable {s s' t : Simulator} {chance : Chance} {slot : SlotAllocation} {n : Nat}
  {slots : List SlotAllocation}

theorem deliverOne_cases {a : Awaited} (h : deliverOne s a = .ok s') :
    (s.cell.feedback a.feedback).2 = .ok () ∧ ∃ counters,
      s.counters.tally (a.feedback.rnti, a.counts) = .ok counters ∧
      s' = { s with cell := (s.cell.feedback a.feedback).1, counters } := by
  have hcounts := Counters.delivered_eq (s.counters.meter a.feedback.rnti) a
  obtain ⟨⟨cell, x⟩, haccepted, h⟩ := bind_ok_iff.mp h
  obtain ⟨hok, rfl⟩ := accepted_ok_iff.mp (lift_refusal_ok_iff.mp haccepted)
  refine ⟨hok, ?_⟩
  simp only at h
  split at h
  · next hsuccess =>
    obtain ⟨c, hc, h⟩ := bind_ok_iff.mp h
    rw [if_pos hsuccess] at hcounts
    exact ⟨_, bind_ok_iff.mpr ⟨c, hcounts.symm.trans (lift_fault_ok_iff.mp hc), rfl⟩,
      (pure_ok_iff.mp h).symm⟩
  · next hsuccess =>
    obtain ⟨c, hc, h⟩ := bind_ok_iff.mp h
    rw [if_neg hsuccess] at hcounts
    exact ⟨_, bind_ok_iff.mpr ⟨c, hcounts.symm.trans (lift_fault_ok_iff.mp hc), rfl⟩,
      (pure_ok_iff.mp h).symm⟩

theorem deliver_cases (h : s.deliver = .ok t) : ∃ s₁,
    s.pending.foldlM deliverOne { s with pending := [] } = .ok s₁ ∧
    t = { s₁ with sidelink := t.sidelink } ∧
    (s₁.sidelink = none ∧ t.sidelink = none ∨ ∃ x x', s₁.sidelink = some x ∧
      x.deliver = .ok x' ∧ t.sidelink = some x') := by
  obtain ⟨s₁, hfold, h⟩ := bind_ok_iff.mp h
  refine ⟨s₁, hfold, ?_⟩
  split at h
  · next hnone =>
    cases pure_ok_iff.mp h
    exact ⟨rfl, .inl ⟨hnone, hnone⟩⟩
  · next x hx =>
    obtain ⟨x', hdeliver, h⟩ := bind_ok_iff.mp h
    cases pure_ok_iff.mp h
    exact ⟨rfl, .inr ⟨x, x', hx, hdeliver, rfl⟩⟩

/-- What each feedback keeps, all of it keeps; the list is what is still to be delivered. -/
theorem deliverAll_keeps {I : List Awaited → Cell → Table Rnti Counters → Prop} {l : List Awaited}
    (h : l.foldlM deliverOne s = .ok t) (hs : I l s.cell s.counters)
    (step : ∀ a rest c counters counters', I (a :: rest) c counters →
      (c.feedback a.feedback).2 = .ok () →
      counters.tally (a.feedback.rnti, a.counts) = .ok counters' →
      I rest (c.feedback a.feedback).1 counters') :
    I [] t.cell t.counters ∧ t = { s with cell := t.cell, counters := t.counters } := by
  induction l generalizing s with
  | nil =>
    cases pure_ok_iff.mp h
    exact ⟨hs, rfl⟩
  | cons a l ih =>
    rw [List.foldlM_cons] at h
    obtain ⟨s₁, hfirst, h⟩ := bind_ok_iff.mp h
    obtain ⟨hok, counters, hcounters, rfl⟩ := deliverOne_cases hfirst
    exact ih (s := { s with cell := (s.cell.feedback a.feedback).1, counters }) h
      (step a l _ _ _ hs hok hcounters)

theorem deliver_keeps {I : List Awaited → Cell → Table Rnti Counters → Prop}
    (h : s.deliver = .ok t) (hs : I s.pending s.cell s.counters)
    (step : ∀ a rest c counters counters', I (a :: rest) c counters →
      (c.feedback a.feedback).2 = .ok () →
      counters.tally (a.feedback.rnti, a.counts) = .ok counters' →
      I rest (c.feedback a.feedback).1 counters') :
    I [] t.cell t.counters ∧ t = { s with
      cell := t.cell, counters := t.counters, pending := [], sidelink := t.sidelink } := by
  obtain ⟨s₁, hfold, hlast, -⟩ := deliver_cases h
  obtain ⟨hI, hframe⟩ := deliverAll_keeps hfold hs step
  rw [hlast, hframe]
  exact ⟨hI, rfl⟩

theorem fillQueues_cases (h : s.fillQueues = .ok t) :
    Table.Walked reportFlow s.cell s.flows.entries t.cell t.flows.entries ∧
      t = { s with cell := t.cell, flows := s.flows.map arrived } := by
  rw [fillQueues_eq] at h
  obtain ⟨⟨cell, flows⟩, hwalk, h⟩ := bind_ok_iff.mp h
  cases pure_ok_iff.mp h
  rw [← Table.eq_map_of_walk hwalk fun _ _ _ _ _ => flow_of_report]
  exact ⟨Table.walk_ok hwalk, rfl⟩

/-- Reports keep the users in order and leave the blocks on their way alone. -/
theorem refilled_fillQueues (hc : s.cell.Sound) (hcarries : s.cell.Carries s.flows)
    (h : s.fillQueues = .ok t) : s.cell.Refilled s.flows t.cell := by
  obtain ⟨cell, hrefilled, hfill⟩ := fillQueues_ok hc hcarries
  rw [hfill s.sidelink s.counters] at h
  cases h
  exact hrefilled

theorem get?_flows_dispatched (s : Simulator) (a : Assignment) (r : Rnti) :
    (dispatched chance s a).flows.get? r =
      (s.flows.get? r).map fun f => if a.rnti = r then f.sent a else f := by
  unfold dispatched Flow.sent
  simp only
  split
  · next f hnew hf =>
    rw [Table.get?_insert_if, hnew]
    by_cases hr : r = a.rnti
    · subst hr
      simp [hf]
    · simp [hr, Ne.symm hr]
  · next hold =>
    cases hf : s.flows.get? r with
    | none => rfl
    | some f =>
      by_cases hr : a.rnti = r
      · subst hr
        have hnew : ¬ a.newData = true := fun hnew => hold f hnew hf
        simp [hnew]
      · simp [hr]

theorem transmit_cases {a : Assignment} (h : transmit chance s a = .ok s') :
    ∃ counters, s.counters.tally (a.rnti, a.counts) = .ok counters ∧
      s' = { dispatched chance s a with counters } := by
  have hcounts := Counters.sent_eq (s.counters.meter a.rnti) a
  obtain ⟨c, hc, h⟩ := bind_ok_iff.mp h
  exact ⟨_, bind_ok_iff.mpr ⟨c, hcounts.symm.trans (lift_fault_ok_iff.mp hc), rfl⟩,
      (pure_ok_iff.mp h).symm⟩

theorem transmitAll_cases {l : List Assignment} (h : l.foldlM (transmit chance) s = .ok t) :
    (l.map fun a => (a.rnti, a.counts)).foldlM Table.tally s.counters = .ok t.counters ∧
      t.cell = s.cell ∧ t.sidelink = s.sidelink ∧ t.time = s.time ∧
      t.pending.map Awaited.due = s.pending.map Awaited.due ++ l.map Assignment.due ∧
      ∀ r, t.flows.get? r =
        (s.flows.get? r).map fun f => (l.filter (·.rnti = r)).foldl Flow.sent f := by
  induction l generalizing s with
  | nil =>
    cases pure_ok_iff.mp h
    exact ⟨rfl, rfl, rfl, rfl, by simp, fun r => by simp⟩
  | cons a l ih =>
    rw [List.foldlM_cons] at h
    obtain ⟨s₁, hfirst, h⟩ := bind_ok_iff.mp h
    obtain ⟨counters, hcounters, rfl⟩ := transmit_cases hfirst
    obtain ⟨hcounts, hcell, hside, htime, hpending, hflows⟩ := ih h
    refine ⟨?_, hcell, hside, htime, ?_, fun r => ?_⟩
    · rw [List.map_cons, List.foldlM_cons]
      exact bind_ok_iff.mpr ⟨counters, hcounters, hcounts⟩
    · rw [hpending]
      simp [dispatched, Awaited.due, Assignment.due, Feedback.ref, Assignment.ref]
    · rw [hflows, get?_flows_dispatched, Option.map_map, List.filter_cons]
      refine congrArg (Option.map · _) (funext fun f => ?_)
      by_cases hr : a.rnti = r
      · simp [hr]
      · simp [hr]

theorem stepSidelink_cases (h : s.stepSidelink chance = .ok t) : ∃ time, s.time.next = .ok time ∧
    t = { s with sidelink := t.sidelink, drawn := t.drawn, time } ∧
    (s.sidelink = none ∧ t.sidelink = none ∨ ∃ x x', s.sidelink = some x ∧
      x.step chance s.drawn s.time = .ok (x', t.drawn) ∧ t.sidelink = some x') := by
  unfold stepSidelink at h
  split at h
  · next hnone =>
    obtain ⟨s₁, hs₁, h⟩ := bind_ok_iff.mp h
    cases pure_ok_iff.mp hs₁
    obtain ⟨time, htime, h⟩ := bind_ok_iff.mp h
    cases pure_ok_iff.mp h
    exact ⟨time, lift_fault_ok_iff.mp htime, rfl, .inl ⟨hnone, hnone⟩⟩
  · next x hx =>
    obtain ⟨⟨x', drawn⟩, hstep, h⟩ := bind_ok_iff.mp h
    obtain ⟨s₁, hs₁, h⟩ := bind_ok_iff.mp h
    cases pure_ok_iff.mp hs₁
    obtain ⟨time, htime, h⟩ := bind_ok_iff.mp h
    cases pure_ok_iff.mp h
    exact ⟨time, lift_fault_ok_iff.mp htime, rfl, .inr ⟨x, x', hx, hstep, rfl⟩⟩

theorem step_cases (h : s.step chance = .ok (t, slot)) : ∃ s₁ s₂ s₃ cell, s.deliver = .ok s₁ ∧
    s₁.fillQueues = .ok s₂ ∧ s₂.cell.scheduleSlot s₂.time = .ok (cell, slot) ∧
    (slot.downlink ++ slot.uplink).foldlM (transmit chance) { s₂ with cell } = .ok s₃ ∧
    s₃.stepSidelink chance = .ok t := by
  obtain ⟨⟨s₃, slot'⟩, hcell, h⟩ := bind_ok_iff.mp h
  obtain ⟨t', hsidelink, h⟩ := bind_ok_iff.mp h
  cases pure_ok_iff.mp h
  obtain ⟨s₁, hdeliver, hcell⟩ := bind_ok_iff.mp hcell
  obtain ⟨s₂, hfill, hcell⟩ := bind_ok_iff.mp hcell
  obtain ⟨⟨cell, slot'⟩, hslot, hcell⟩ := bind_ok_iff.mp hcell
  obtain ⟨s₄, hsend, hcell⟩ := bind_ok_iff.mp hcell
  cases pure_ok_iff.mp hcell
  exact ⟨s₁, s₂, s₃, cell, hdeliver, hfill, hslot, hsend, hsidelink⟩

theorem run_last (h : s.run chance (n + 1) = .ok (t, slots)) : ∃ s₁ past slot,
    s.run chance n = .ok (s₁, past) ∧ s₁.step chance = .ok (t, slot) ∧ slots = past ++ [slot] := by
  induction n generalizing s slots with
  | zero =>
    obtain ⟨⟨s₁, slot⟩, hstep, h⟩ := bind_ok_iff.mp h
    cases h
    exact ⟨s, [], slot, rfl, hstep, rfl⟩
  | succ n ih =>
    obtain ⟨⟨s₁, slot⟩, hstep, h⟩ := bind_ok_iff.mp h
    obtain ⟨⟨t', slots'⟩, hrest, h⟩ := bind_ok_iff.mp h
    cases pure_ok_iff.mp h
    obtain ⟨s₂, past, last, hrun, hlast, rfl⟩ := ih hrest
    exact ⟨s₂, slot :: past, last, bind_ok_iff.mpr ⟨_, hstep, bind_ok_iff.mpr ⟨_, hrun, rfl⟩⟩,
      hlast, rfl⟩

theorem length_of_run (h : s.run chance n = .ok (t, slots)) : slots.length = n := by
  induction n generalizing t slots with
  | zero =>
    cases h
    rfl
  | succ n ih =>
    obtain ⟨s₁, past, slot, hrun, -, rfl⟩ := run_last h
    rw [List.length_append, ih hrun, List.length_singleton]

theorem run_keeps {I : Simulator → Prop} (h : s.run chance n = .ok (t, slots)) (hs : I s)
    (step : ∀ s t slot, I s → s.step chance = .ok (t, slot) → I t) : I t := by
  induction n generalizing t slots with
  | zero =>
    cases h
    exact hs
  | succ n ih =>
    obtain ⟨s₁, past, slot, hrun, hlast, -⟩ := run_last h
    exact step s₁ t slot (ih hrun) hlast

/-- The cell, its traffic and the feedback that is due fit together. -/
structure InOrder (s : Simulator) : Prop where
  sound : s.cell.Sound
  carries : s.cell.Carries s.flows
  matched : s.Matched

theorem InOrder.deliver (h : s.InOrder) (hok : s.deliver = .ok t) :
    t.InOrder ∧ t.pending = [] ∧ t.flows = s.flows ∧ t.cell.config = s.cell.config := by
  obtain ⟨⟨hsound, hcarries, hmatches, hconfig⟩, hframe⟩ := deliver_keeps
    (I := fun rest c _ => c.Sound ∧ c.Carries s.flows ∧
      c.Matches (rest.map fun a : Awaited => a.feedback.ref) ∧ c.config = s.cell.config)
    hok ⟨h.sound, h.carries, h.matched, rfl⟩ fun a rest c _ _ hc _ _ =>
      ⟨hc.1.feedback _, hc.2.1.feedback hc.1 _, hc.2.2.1.feedback hc.1, by
        rw [Cell.perform_frame (show c.perform (.feedback a.feedback) = .ok (_, none) from rfl)]
        exact hc.2.2.2⟩
  have hpending : t.pending = [] := by rw [hframe]
  have hflows : t.flows = s.flows := by rw [hframe]
  exact ⟨⟨hsound, hflows ▸ hcarries, by rwa [Matched, hpending]⟩, hpending, hflows, hconfig⟩

theorem InOrder.fillQueues (h : s.InOrder) (hok : s.fillQueues = .ok t) :
    t.InOrder ∧ t.pending = s.pending ∧ t.cell.config = s.cell.config := by
  have hrefilled := refilled_fillQueues h.sound h.carries hok
  obtain ⟨-, hframe⟩ := fillQueues_cases hok
  have hpending : t.pending = s.pending := by rw [hframe]
  have hflows : t.flows = s.flows.map arrived := by rw [hframe]
  refine ⟨⟨hrefilled.sound, hrefilled.carries.congr fun r => ?_, ?_⟩, hpending, hrefilled.config⟩
  · rw [hflows, Table.get?_map, Option.map_map]
    rfl
  · rw [Matched, hpending]
    exact h.matched.congr fun p => by
      rw [hrefilled.sound.block?_eq, h.sound.block?_eq, hrefilled.held]

theorem sameChannels_sent {l : List Assignment} {flows : Table Rnti Flow}
    (h : ∀ r, flows.get? r =
      (s.flows.get? r).map fun f => (l.filter (·.rnti = r)).foldl Flow.sent f) :
    SameChannels s.flows flows := by
  intro r
  rw [h, Option.map_map]
  exact congrArg (Option.map · _) (funext fun f =>
    Prod.ext (Flow.channel_sent _ f).1 (Flow.channel_sent _ f).2)

/-- A slot is scheduled and sent when nothing is due any more. -/
theorem InOrder.send (h : s.InOrder) (hpending : s.pending = []) {cell : Cell}
    (hslot : s.cell.scheduleSlot s.time = .ok (cell, slot))
    (hsend : (slot.downlink ++ slot.uplink).foldlM (transmit chance) { s with cell } = .ok t) :
    t.InOrder := by
  obtain ⟨-, hcell, -, -, hdue, hflows⟩ := transmitAll_cases hsend
  have hempty : s.cell.Matches [] := by
    have := h.matched
    rwa [Matched, hpending] at this
  have hrefs := congrArg (List.map Prod.fst) hdue
  simp only [hpending, List.map_nil, List.nil_append, List.map_map] at hrefs
  refine ⟨hcell ▸ h.sound.scheduleSlot hslot, hcell ▸ ?_, ?_⟩
  · exact (h.carries.scheduleSlot h.sound hslot).congr (sameChannels_sent hflows)
  · rw [Matched, hcell]
    have hmatched := hempty.scheduleSlot h.sound hslot
    exact (show t.pending.map (fun a => a.feedback.ref) = _ from hrefs) ▸ hmatched

theorem InOrder.stepSidelink (h : s.InOrder) (hok : s.stepSidelink chance = .ok t) :
    t.InOrder := by
  obtain ⟨time, -, hframe, -⟩ := stepSidelink_cases hok
  rw [hframe]
  exact ⟨h.sound, h.carries, h.matched⟩

theorem InOrder.step (h : s.InOrder) (hok : s.step chance = .ok (t, slot)) : t.InOrder := by
  obtain ⟨s₁, s₂, s₃, cell, hdeliver, hfill, hslot, hsend, hsidelink⟩ := step_cases hok
  obtain ⟨h₁, hnone, -, -⟩ := h.deliver hdeliver
  obtain ⟨h₂, hsame, -⟩ := h₁.fillQueues hfill
  exact (h₂.send (hsame.trans hnone) hslot hsend).stepSidelink hsidelink

theorem connect_frame {u : UserSetup} {o : Option Confirmation}
    (hconnect : s.connect u = .ok (s', o)) : s' = { s with
      cell := s'.cell
      flows := s.flows.insert u.rnti ⟨u.channel, u.group, ⟨u.downlinkRate, 0⟩, ⟨u.uplinkRate, 0⟩⟩
      counters := s.counters.insert u.rnti {} } := by
  obtain ⟨⟨c, confirmation⟩, -, hrest⟩ := bind_ok_iff.mp hconnect
  simp only at hrest
  split at hrest
  · obtain ⟨c, -, hlast⟩ := bind_ok_iff.mp hrest
    cases hlast
    rfl
  · cases hrest
    rfl

structure Blank (s : Simulator) : Prop where
  waiting : ∀ r f d, s.flows.get? r = some f → (f.queue d).waiting = 0
  counted : ∀ r, s.counterOf r = {}

theorem Blank.connect (h : s.Blank) {u : UserSetup} {o : Option Confirmation}
    (hconnect : s.connect u = .ok (s', o)) : s'.Blank := by
  rw [connect_frame hconnect]
  constructor
  · intro r f d hf
    rw [Table.get?_insert_if] at hf
    split at hf
    · cases hf
      cases d <;> rfl
    · exact h.waiting r f d hf
  · intro r
    have hold := h.counted r
    unfold counterOf at hold ⊢
    rw [Table.get?_insert_if]
    split
    · rfl
    · exact hold

/-- A simulation starts in order, and with everything at zero. -/
theorem inOrder_start {scenario : Scenario} (h : (start scenario).2 = .ok s) :
    s.InOrder ∧ s.Blank ∧ s.pending = [] ∧ (∀ r d, (s.cell.groupsOf r d).bytes = 0) ∧
      (∀ p, s.cell.held? p = none) := by
  obtain ⟨f, cell, s₁, side, -, hcell, hconnected, rfl, -⟩ := start_ok h
  have hall := connected_start hcell hconnected
  have hblank : s₁.Blank := collect_keeps (I := Blank) hconnected
    ⟨fun r f d hf => (by cases hf), fun r => rfl⟩ fun s u s' o hs hconnect => hs.connect hconnect
  refine ⟨⟨hall.quiet.sound, hall.quiet.carries, ?_⟩, ⟨hblank.waiting, hblank.counted⟩,
    hall.pending, hall.quiet.silent, hall.quiet.idle⟩
  rw [Matched, hall.pending]
  exact hall.quiet.matches_nil

end Simulator

end Airtime
