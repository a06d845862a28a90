import Airtime.Proofs.Traffic

/-! The cell's part of a simulated slot. The feedback that is due and the blocks on their way fit
together (`Cell.Matches`): while feedback is delivered every answer takes its block off the list, until
all blocks that are left are known to be lost; what the slot sends then puts each block on the list of
the next one. -/

namespace Airtime

deriving instance DecidableEq for ProcessRef

def Feedback.ref (f : Feedback) : ProcessRef := ⟨f.rnti, f.direction, f.process⟩

def Assignment.ref (a : Assignment) : ProcessRef := ⟨a.rnti, a.direction, a.process⟩

def Cell.block? (c : Cell) (p : ProcessRef) : Option Block :=
  (c.user? p.rnti).bind fun u => (u.link p.direction).inFlight.get? p.id

/-- Each block on its way is either lost or listed once as due, and nothing else is listed. -/
structure Cell.Matches (c : Cell) (due : List ProcessRef) : Prop where
  block : ∀ p b, c.block? p = some b → due.count p = if b.lost then 0 else 1
  named : ∀ p ∈ due, (c.block? p).isSome

theorem LinkState.Turn.direction {config : CellConfig} {r : Rnti} {d : Direction} {beam : BeamId}
    {s s' : LinkState} {sent : List Assignment} (hs : s.Sound config r d)
    (h : s.Turn r beam d s' sent) : ∀ a ∈ sent, a.direction = d := by
  obtain ⟨s₁, again, new, hresent, rfl, ⟨-, rfl⟩ | ⟨a, hopened, rfl⟩⟩ := h
  · intro a ha
    obtain ⟨id, b, sym, hb, -, rfl⟩ := hresent.mem (by simpa using ha)
    exact (hs.block id b hb).1.direction
  · intro a' ha'
    rcases List.mem_append.mp ha' with ha' | ha'
    · obtain ⟨id, b, sym, hb, -, rfl⟩ := hresent.mem ha'
      exact (hs.block id b hb).1.direction
    · rw [List.mem_singleton.mp ha']
      exact hopened.direction

namespace Cell

variable {c c' : Cell}

theorem Sound.block?_eq (hc : c.Sound) (p : ProcessRef) :
    c.block? p = (c.held? p).map Prod.fst := by
  rw [block?, held?]
  cases hu : c.user? p.rnti with
  | none => rfl
  | some u =>
    simp only [Option.bind_some]
    cases hb : (u.link p.direction).inFlight.get? p.id with
    | none => rw [LinkState.held?_of_none hb, Option.map_none]
    | some b =>
      obtain ⟨pdus, hheld⟩ := LinkState.held?_of_block ((hc.user _ u hu).2 p.direction) hb
      rw [hheld, Option.map_some]

theorem Matches.congr {due : List ProcessRef} (h : c.Matches due)
    (hblock : ∀ p, c'.block? p = c.block? p) : c'.Matches due where
  block p b hb := h.block p b (hblock p ▸ hb)
  named p hp := hblock p ▸ h.named p hp

theorem Sound.feedback_ok (hc : c.Sound) (f : Feedback) (hb : (c.block? f.ref).isSome) :
    (c.feedback f).2 = .ok () := by
  obtain ⟨b, hb⟩ := Option.isSome_iff_exists.mp hb
  obtain ⟨u, hu, hb⟩ := Option.bind_eq_some_iff.mp hb
  have hs := (hc.user f.rnti u hu).2 f.direction
  have hmem : f.process ∈ (u.link f.direction).inFlight.keys := Table.mem_keys.mpr (by
    rw [show (u.link f.direction).inFlight.get? f.process = some b from hb]
    rfl)
  cases houtcome : (c.feedback f).2 with
  | ok x => rfl
  | error why =>
    rcases (feedback_refused_iff hc f).mp ⟨why, houtcome⟩ with hnone | ⟨u', hu', hfree⟩
    · rw [show c.user? f.rnti = some u from hu] at hnone
      cases hnone
    · obtain rfl : u = u' := Option.some.inj (hu.symm.trans hu')
      rcases hfree with hcap | hfree
      · have := hs.lt_capacity_of_mem hmem
        rw [hs.capacity] at this
        omega
      · exact absurd hmem ((hs.mem_free_iff _).mp (HarqTable.isFree_iff.mp hfree)).2

/-- Feedback takes its process off the list. -/
theorem Matches.feedback (hc : c.Sound) {f : Feedback} {due : List ProcessRef}
    (h : c.Matches (f.ref :: due)) : (c.feedback f).1.Matches due := by
  have hheld := hc.held?_feedback f
  have hsound := hc.feedback f
  have hother : ∀ p, f.ref ≠ p → (c.feedback f).1.block? p = c.block? p := by
    intro p hp
    rw [hsound.block?_eq, hc.block?_eq, hheld, if_neg]
    rintro ⟨hr, hd, hid⟩
    exact hp (by rw [Feedback.ref, hr, hd, hid])
  constructor
  · intro p b hb
    by_cases hp : f.ref = p
    · subst hp
      rw [hsound.block?_eq, hheld, if_pos ⟨rfl, rfl, rfl⟩] at hb
      obtain ⟨⟨b', pdus⟩, hreported, rfl⟩ := Option.map_eq_some_iff.mp hb
      obtain ⟨⟨b₀, pdus₀⟩, hheld₀, hreported⟩ := Option.bind_eq_some_iff.mp hreported
      have hcount := h.block f.ref b₀ (by rw [hc.block?_eq, hheld₀]; rfl)
      rw [List.count_cons_self] at hcount
      unfold reported at hreported
      split at hreported
      · cases hreported
        rw [if_pos rfl]
        split at hcount <;> omega
      · cases hreported
    · rw [hother p hp] at hb
      rw [← h.block p b hb, List.count_cons_of_ne hp]
  · intro p hp
    by_cases he : f.ref = p
    · subst he
      obtain ⟨b, hb⟩ := Option.isSome_iff_exists.mp (h.named f.ref List.mem_cons_self)
      have hcount := h.block f.ref b hb
      have hpos := List.count_pos_iff.mpr hp
      rw [List.count_cons_self] at hcount
      split at hcount <;> omega
    · rw [hother p he]
      exact h.named p (List.mem_cons_of_mem _ hp)

theorem Sound.direction_of_slot (hc : c.Sound) {time : SlotTime} {slot : SlotAllocation}
    (h : c.scheduleSlot time = .ok (c', slot)) {d : Direction} {a : Assignment}
    (ha : a ∈ slot.assignments d) : a.direction = d := by
  have hmem : a ∈ (slot.assignments d).filter (·.rnti = a.rnti) :=
    List.mem_filter.mpr ⟨ha, by simp⟩
  rcases scheduleSlot_user hc h a.rnti with ⟨-, -, hempty⟩ | ⟨u, u', hu, -, -, hturn⟩
  · rw [hempty d] at hmem
    cases hmem
  · exact (hturn d).direction ((hc.user _ u hu).2 d) a hmem

theorem Sound.count_of_slot (hc : c.Sound) {time : SlotTime} {slot : SlotAllocation}
    (h : c.scheduleSlot time = .ok (c', slot)) (p : ProcessRef) :
    ((slot.downlink ++ slot.uplink).map Assignment.ref).count p =
      (Event.sent ⟨c, .slot time, some slot, c'⟩ p).length := by
  have hdirection : ∀ d, ((slot.assignments d).map Assignment.ref).count p =
      if d = p.direction then (Event.sent ⟨c, .slot time, some slot, c'⟩ p).length else 0 := by
    intro d
    rw [List.count, List.countP_map, Event.sent, Option.elim_some, ← List.countP_eq_length_filter]
    split
    · next hd =>
      subst hd
      refine List.countP_congr fun a ha => ?_
      have had := hc.direction_of_slot h ha
      simp only [Function.comp_apply, beq_iff_eq, Bool.and_eq_true, decide_eq_true_eq,
        Assignment.ref, had]
      exact ⟨fun he => he ▸ ⟨rfl, rfl⟩, fun he => by rw [he.1, he.2]⟩
    · next hd =>
      refine List.countP_eq_zero.mpr fun a ha he => hd ?_
      rw [Function.comp_apply, beq_iff_eq] at he
      rw [← he, Assignment.ref, hc.direction_of_slot h ha]
  rw [List.map_append, List.count_append]
  have hdown := hdirection .downlink
  have hup := hdirection .uplink
  simp only [SlotAllocation.assignments] at hdown hup
  rw [hdown, hup]
  cases p.direction <;> simp

/-- When all blocks on their way are lost, a slot lists each block that it sends. -/
theorem Matches.scheduleSlot (h : c.Matches []) (hc : c.Sound) {time : SlotTime}
    {slot : SlotAllocation} (hslot : c.scheduleSlot time = .ok (c', slot)) :
    c'.Matches ((slot.downlink ++ slot.uplink).map Assignment.ref) := by
  have hsound := hc.scheduleSlot hslot
  have hcount := hc.count_of_slot hslot
  have hlost : ∀ p b pdus, c.held? p = some (b, pdus) → b.lost = true := by
    intro p b pdus hheld
    have hzero := h.block p b (by rw [hc.block?_eq, hheld]; rfl)
    by_contra hb
    rw [if_neg hb] at hzero
    cases hzero
  -- What is sent over a process, and the block that it then carries.
  have hsent : ∀ p, c'.held? p = none ∧ Event.sent ⟨c, .slot time, some slot, c'⟩ p = [] ∨
      ∃ b pdus, c'.held? p = some (b, pdus) ∧
        (Event.sent ⟨c, .slot time, some slot, c'⟩ p).length = if b.lost then 0 else 1 := by
    intro p
    have heffect := hc.effect_slot hslot p
    generalize hbefore : c.held? p = before at heffect
    generalize c'.held? p = after at heffect ⊢
    cases heffect with
    | kept silent stays sent =>
      cases before with
      | none => exact .inl ⟨rfl, sent⟩
      | some x =>
        refine .inr ⟨x.1, x.2, rfl, ?_⟩
        rw [sent, hlost p x.1 x.2 hbefore]
        rfl
    | removed leaves sent => cases leaves
    | stray sent => exact .inl ⟨rfl, sent⟩
    | lost report => cases report
    | released report => cases report
    | again silent stays lost count sent => exact .inr ⟨_, _, rfl, by rw [sent]; rfl⟩
    | opened free new first sent => exact .inr ⟨_, _, rfl, by rw [sent]; rfl⟩
  constructor
  · intro p b hb
    rw [hsound.block?_eq] at hb
    rw [hcount]
    rcases hsent p with ⟨hnone, -⟩ | ⟨b', pdus, hheld, hlength⟩
    · rw [hnone] at hb
      cases hb
    · rw [hheld] at hb
      cases hb
      exact hlength
  · intro p hp
    have hpos := List.count_pos_iff.mpr hp
    rw [hcount] at hpos
    rw [hsound.block?_eq]
    rcases hsent p with ⟨-, hempty⟩ | ⟨b', pdus, hheld, -⟩
    · rw [hempty] at hpos
      cases hpos
    · rw [hheld]
      rfl

end Cell

namespace Simulator

variable {s : Simulator} {counters : Table Rnti Counters}

theorem deliverOne_ok {a : Awaited} (hfeedback : (s.cell.feedback a.feedback).2 = .ok ()) :
    Adds [(a.feedback.rnti, a.counts)] (fun counters => deliverOne { s with counters } a)
      fun counters => { s with cell := (s.cell.feedback a.feedback).1, counters } := by
  refine adds_singleton fun counts c hc => ?_
  have hcounted := (Counters.delivered_eq (counts.meter a.feedback.rnti) a).trans hc
  have haccepted := accepted_ok_iff.mpr ⟨hfeedback, rfl⟩
  refine bind_ok_iff.mpr ⟨_, lift_refusal_ok_iff.mpr haccepted, ?_⟩
  simp only
  split
  · next hsuccess =>
    rw [if_pos hsuccess] at hcounted
    exact bind_ok_iff.mpr ⟨c, lift_fault_ok_iff.mpr hcounted, rfl⟩
  · next hsuccess =>
    rw [if_neg hsuccess] at hcounted
    exact bind_ok_iff.mpr ⟨c, lift_fault_ok_iff.mpr hcounted, rfl⟩

/-- All feedback that fits the blocks on their way is delivered, if the counters can take it. Then all
blocks on their way are lost. The sidelink does not matter. -/
theorem deliverAll_ok {l : List Awaited} (hc : s.cell.Sound) (hcarries : s.cell.Carries s.flows)
    (hmatches : s.cell.Matches (l.map fun a => a.feedback.ref)) :
    ∃ cell, cell.Sound ∧ cell.Carries s.flows ∧ cell.config = s.cell.config ∧ cell.Matches [] ∧
      ∀ sidelink, Adds (l.map fun a => (a.feedback.rnti, a.counts))
        (fun counters => l.foldlM deliverOne { s with sidelink, counters })
        fun counters => { s with cell, sidelink, counters } := by
  induction l generalizing s with
  | nil => exact ⟨s.cell, hc, hcarries, rfl, hmatches, fun _ => adds_nil fun _ => rfl⟩
  | cons a l ih =>
    rw [List.map_cons] at hmatches
    have hok := hc.feedback_ok a.feedback (hmatches.named _ List.mem_cons_self)
    obtain ⟨cell, hsound, hcarries', hconfig, hempty, hrest⟩ :=
      ih (s := { s with cell := (s.cell.feedback a.feedback).1 }) (hc.feedback a.feedback)
        (hcarries.feedback hc a.feedback) (hmatches.feedback hc)
    have hframe : (s.cell.feedback a.feedback).1.config = s.cell.config := by
      rw [Cell.perform_frame (show s.cell.perform (.feedback a.feedback) =
        .ok ((s.cell.feedback a.feedback).1, none) from rfl)]
    refine ⟨cell, hsound, hcarries', hconfig.trans hframe, hempty, fun sidelink => ?_⟩
    simp only [List.map_cons, List.foldlM_cons]
    exact (deliverOne_ok (s := { s with sidelink }) hok).bind (hrest sidelink)

def arrived (f : Flow) : Flow :=
  { f with downlink := f.downlink.arrive, uplink := f.uplink.arrive }

def reportFlow (c : Cell) (r : Rnti) (f : Flow) : Except Failure (Cell × Flow) := do
  let (c, _) ← accepted (c.reportBuffer (.newData r f.channel (arrived f).downlink.waiting))
  let (c, _) ← accepted (c.reportGroup ⟨r, f.group, (arrived f).uplink.waiting⟩)
  return (c, arrived f)

theorem fillQueues_eq (s : Simulator) : s.fillQueues = do
    let (cell, flows) ← s.flows.walk reportFlow s.cell
    return { s with cell, flows } := rfl

theorem reportFlow_ok {c : Cell} {flows : Table Rnti Flow} (hc : c.Sound)
    (hcarries : c.Carries flows) {r : Rnti} {f : Flow} (hf : flows.get? r = some f) :
    ∃ c', reportFlow c r f = .ok (c', arrived f) ∧ c.Refilled flows c' := by
  obtain ⟨c₁, hbuffer, h₁⟩ := Cell.reportBuffer_ok hc hcarries hf (arrived f).downlink.waiting
  obtain ⟨c₂, hgroup, h₂⟩ := Cell.reportGroup_ok h₁.sound h₁.carries hf (arrived f).uplink.waiting
  refine ⟨c₂, bind_ok_iff.mpr ⟨_, lift_refusal_ok_iff.mpr hbuffer, ?_⟩, h₁.trans h₂⟩
  exact bind_ok_iff.mpr ⟨_, lift_refusal_ok_iff.mpr hgroup, rfl⟩

theorem flow_of_report {c c' : Cell} {r : Rnti} {f f' : Flow}
    (h : reportFlow c r f = .ok (c', f')) : f' = arrived f := by
  simp only [reportFlow, bind_ok_iff, pure_ok_iff, Prod.mk.injEq] at h
  obtain ⟨_, -, _, -, -, rfl⟩ := h
  rfl

theorem fillQueues_ok (hc : s.cell.Sound) (hcarries : s.cell.Carries s.flows) :
    ∃ cell, s.cell.Refilled s.flows cell ∧ ∀ sidelink counters,
      fillQueues { s with sidelink, counters } =
        .ok { s with cell, flows := s.flows.map arrived, sidelink, counters } := by
  have hstep : ∀ c r f c' f', s.flows.get? r = some f → s.cell.Refilled s.flows c →
      reportFlow c r f = .ok (c', f') → s.cell.Refilled s.flows c' := by
    intro c r f c' f' hf hc h
    obtain ⟨c₁, hok, hrefilled⟩ := reportFlow_ok hc.sound hc.carries hf
    rw [hok] at h
    cases h
    exact hc.trans hrefilled
  have hstart : s.cell.Refilled s.flows s.cell := ⟨hc, hcarries, rfl, fun _ => rfl⟩
  obtain ⟨⟨cell, flows⟩, hwalk⟩ : Succeeds (s.flows.walk reportFlow s.cell) :=
    succeeds_walk (I := fun _ c => s.cell.Refilled s.flows c) hstart
      (fun r f hf _ c hc => by
        obtain ⟨c₁, hok, -⟩ := reportFlow_ok hc.sound hc.carries hf
        exact ⟨_, hok⟩)
      fun r f hf _ c c' f' => hstep c r f c' f' hf
  have hrefilled : s.cell.Refilled s.flows cell := (Table.walk_ok hwalk).keeps
    (I := s.cell.Refilled s.flows) hstart
    fun c r f c' f' hm => hstep c r f c' f' (Table.mem_entries.mp hm)
  refine ⟨cell, hrefilled, fun sidelink counters => ?_⟩
  rw [fillQueues_eq, ← Table.eq_map_of_walk hwalk fun _ _ _ _ _ => flow_of_report]
  exact bind_ok_iff.mpr ⟨_, hwalk, rfl⟩

variable {chance : Chance}

def dispatched (chance : Chance) (s : Simulator) (a : Assignment) : Simulator :=
  { s with
    flows := match a.newData, s.flows.get? a.rnti with
      | true, some f => s.flows.insert a.rnti (f.modify a.direction (·.remove a.blockSize))
      | _, _ => s.flows
    pending := s.pending ++
      [⟨⟨a.rnti, a.process, a.direction, s.errorRate ≤ chance.unit s.drawn⟩, a.blockSize⟩]
    drawn := s.drawn + 1 }

theorem sameChannels_dispatched (s : Simulator) (a : Assignment) :
    SameChannels s.flows (dispatched chance s a).flows := by
  intro r
  unfold dispatched
  simp only
  split
  · next f _ hf =>
    rw [Table.get?_insert_if]
    split
    · next hr =>
      rw [hr, hf]
      cases a.direction <;> rfl
    · rfl
  · rfl

theorem transmit_ok (s : Simulator) (a : Assignment) : Adds [(a.rnti, a.counts)]
    (fun counters => transmit chance { s with counters } a)
    fun counters => { dispatched chance s a with counters } :=
  adds_singleton fun counts c hc => bind_ok_iff.mpr
    ⟨c, lift_fault_ok_iff.mpr ((Counters.sent_eq (counts.meter a.rnti) a).trans hc), rfl⟩

/-- All blocks of a slot are sent, if the counters can take it. Feedback is then due for each. The
sidelink does not matter. -/
theorem transmitAll_ok (chance : Chance) (s : Simulator) (l : List Assignment) :
    ∃ flows pending drawn, SameChannels s.flows flows ∧
      pending.map (fun a => a.feedback.ref) =
        s.pending.map (fun a => a.feedback.ref) ++ l.map Assignment.ref ∧
      ∀ sidelink, Adds (l.map fun a => (a.rnti, a.counts))
        (fun counters => l.foldlM (transmit chance) { s with sidelink, counters })
        fun counters => { s with flows, pending, drawn, sidelink, counters } := by
  induction l generalizing s with
  | nil =>
    exact ⟨s.flows, s.pending, s.drawn, fun _ => rfl, by simp, fun _ => adds_nil fun _ => rfl⟩
  | cons a l ih =>
    obtain ⟨flows, pending, drawn, hflows, hpending, hrest⟩ := ih (dispatched chance s a)
    refine ⟨flows, pending, drawn,
      fun r => (hflows r).trans (sameChannels_dispatched s a r), ?_, fun sidelink => ?_⟩
    · rw [hpending]
      simp [dispatched, Feedback.ref, Assignment.ref]
    · simp only [List.map_cons, List.foldlM_cons]
      exact (transmit_ok { s with sidelink } a).bind (hrest sidelink)

end Simulator

end Airtime
