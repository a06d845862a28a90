import Airtime.Proofs.Parallel

/-! The two directions of a cell do not interfere. What is laid out in a direction depends on that
direction alone, whatever the other one holds. Reports of the other direction that come in or stay
out change nothing in this one, slot after slot. -/

namespace Airtime

def Operation.direction? : Operation → Option Direction
  | .reportBuffer _ => some .downlink
  | .reportGroup _ => some .uplink
  | .reportQuality r => some r.direction
  | .feedback f => some f.direction
  | _ => none

def SlotAllocation.inDirection (d : Direction) (slot : SlotAllocation) :
    List Assignment × List (BeamId × UInt32) := (slot.assignments d, slot.symbols d)

namespace Cell

variable {c c' c₁ c₁' : Cell} {d : Direction}

theorem Sound.parallel_perform (hc : c.Sound) {op : Operation} {e : Direction}
    (hop : op.direction? = some e) (hne : d ≠ e) {slot : Option SlotAllocation}
    (h : c.perform op = .ok (c₁, slot)) : c.Parallel d c₁ ∧ slot = none := by
  cases op with
  | reportBuffer r =>
    cases h
    cases hop
    exact ⟨parallel_notes hc hne (c.notes_reportBuffer r), rfl⟩
  | reportGroup r =>
    cases h
    cases hop
    exact ⟨parallel_notes hc hne (c.notes_reportGroup r), rfl⟩
  | reportQuality r =>
    cases h
    cases hop
    exact ⟨parallel_notes hc hne (c.notes_reportQuality r), rfl⟩
  | feedback f =>
    cases h
    cases hop
    exact ⟨parallel_feedback hc hne, rfl⟩
  | _ => cases hop

theorem Parallel.perform (hc : c.Sound) (hc' : c'.Sound) (hp : c.Parallel d c') {op : Operation}
    {slot slot' : Option SlotAllocation} (h : c.perform op = .ok (c₁, slot))
    (h' : c'.perform op = .ok (c₁', slot')) :
    c₁.Parallel d c₁' ∧
      slot.map (SlotAllocation.inDirection d) = slot'.map (SlotAllocation.inDirection d) := by
  -- A report of the other direction is no news on either side.
  have hforeign : ∀ e, op.direction? = some e → d ≠ e → c₁.Parallel d c₁' ∧
      slot.map (SlotAllocation.inDirection d) = slot'.map (SlotAllocation.inDirection d) := by
    intro e hop hne
    obtain ⟨hstill, rfl⟩ := hc.parallel_perform hop hne h
    obtain ⟨hstill', rfl⟩ := hc'.parallel_perform hop hne h'
    exact ⟨hstill.symm.trans (hp.trans hstill'), rfl⟩
  cases op with
  | configureUser rnti beam =>
    cases h
    cases h'
    exact ⟨hp.configureUser rnti beam, rfl⟩
  | moveUser rnti beam =>
    cases h
    cases h'
    exact ⟨hp.moveUser rnti beam, rfl⟩
  | removeUser rnti =>
    cases h
    cases h'
    exact ⟨hp.removeUser rnti, rfl⟩
  | configureChannel r =>
    cases h
    cases h'
    exact ⟨hp.configureChannel hc hc' r, rfl⟩
  | reportBuffer r =>
    cases d with
    | downlink =>
      cases h
      cases h'
      exact ⟨hp.reportBuffer r, rfl⟩
    | uplink => exact hforeign .downlink rfl (by decide)
  | reportGroup r =>
    cases d with
    | downlink => exact hforeign .uplink rfl (by decide)
    | uplink =>
      cases h
      cases h'
      exact ⟨hp.reportGroup r, rfl⟩
  | reportQuality r =>
    by_cases hr : r.direction = d
    · cases h
      cases h'
      exact ⟨hp.reportQuality hr, rfl⟩
    · exact hforeign r.direction rfl (Ne.symm hr)
  | feedback f =>
    by_cases hf : f.direction = d
    · cases h
      cases h'
      exact ⟨hp.feedback hf, rfl⟩
    · exact hforeign f.direction rfl (Ne.symm hf)
  | slot time =>
    simp only [Cell.perform, bind_ok_iff, pure_ok_iff, Prod.mk.injEq] at h h'
    obtain ⟨⟨c₂, laid⟩, hslot, rfl, rfl⟩ := h
    obtain ⟨⟨c₂', laid'⟩, hslot', rfl, rfl⟩ := h'
    obtain ⟨hassignments, hsymbols, -⟩ := hp.alike.scheduleSlot hc hc' hslot hslot'
    refine ⟨hp.scheduleSlot hc hc' hslot hslot', ?_⟩
    rw [Option.map_some, Option.map_some, SlotAllocation.inDirection, SlotAllocation.inDirection,
      hassignments, hsymbols]

end Cell

/-- Two lists of operations that differ in reports of the other direction than `d`. -/
inductive Edited (d : Direction) : List Operation → List Operation → Prop
  | nil : Edited d [] []
  | same {ops ops' : List Operation} (op : Operation) (rest : Edited d ops ops') :
      Edited d (op :: ops) (op :: ops')
  | inserted {ops ops' : List Operation} {op : Operation} {e : Direction}
      (hop : op.direction? = some e) (hne : d ≠ e) (rest : Edited d ops ops') :
      Edited d ops (op :: ops')
  | deleted {ops ops' : List Operation} {op : Operation} {e : Direction}
      (hop : op.direction? = some e) (hne : d ≠ e) (rest : Edited d ops ops') :
      Edited d (op :: ops) ops'

/-- Two slots that are the same in a direction, from states that are alike in it to such states. -/
structure Event.SameIn (d : Direction) (e e' : Event) : Prop where
  slot : e.slot.map (SlotAllocation.inDirection d) = e'.slot.map (SlotAllocation.inDirection d)
  before : e.before.AlikeIn d e'.before
  after : e.after.AlikeIn d e'.after

def slotEvents (events : List Event) : List Event := events.filter (·.slot.isSome)

theorem Cell.Parallel.performAll {c c' last last' : Cell} {d : Direction}
    {ops ops' : List Operation} {events events' : List Event} (hc : c.Sound) (hc' : c'.Sound)
    (hp : c.Parallel d c') (hedited : Edited d ops ops')
    (h : c.performAll ops = .ok (events, last)) (h' : c'.performAll ops' = .ok (events', last')) :
    List.Forall₂ (Event.SameIn d) (slotEvents events) (slotEvents events') ∧
      last.Parallel d last' := by
  induction hedited generalizing c c' events events' with
  | nil =>
    cases h
    cases h'
    exact ⟨.nil, hp⟩
  | same op rest ih =>
    simp only [Cell.performAll, bind_ok_iff, pure_ok_iff, Prod.mk.injEq] at h h'
    obtain ⟨⟨c₁, slot⟩, hstep, ⟨more, last₁⟩, hrest, rfl, rfl⟩ := h
    obtain ⟨⟨c₁', slot'⟩, hstep', ⟨more', last₁'⟩, hrest', rfl, rfl⟩ := h'
    obtain ⟨hp₁, hslot⟩ := hp.perform hc hc' hstep hstep'
    obtain ⟨hsame, hlast⟩ := ih (hc.perform hstep) (hc'.perform hstep') hp₁ hrest hrest'
    refine ⟨?_, hlast⟩
    unfold slotEvents at hsame ⊢
    rw [List.filter_cons, List.filter_cons]
    have hlaid : slot.isSome = slot'.isSome := by
      simpa only [Option.isSome_map] using congrArg Option.isSome hslot
    simp only [hlaid]
    split
    · exact .cons ⟨hslot, hp.alike, hp₁.alike⟩ hsame
    · exact hsame
  | inserted hop hne rest ih =>
    simp only [Cell.performAll, bind_ok_iff, pure_ok_iff, Prod.mk.injEq] at h'
    obtain ⟨⟨c₁', slot'⟩, hstep', ⟨more', last₁'⟩, hrest', rfl, rfl⟩ := h'
    obtain ⟨hstill, rfl⟩ := hc'.parallel_perform hop hne hstep'
    -- The slots of the longer run are those of its rest.
    have hsame := ih hc (hc'.perform hstep') (hp.trans hstill) h hrest'
    exact hsame
  | deleted hop hne rest ih =>
    simp only [Cell.performAll, bind_ok_iff, pure_ok_iff, Prod.mk.injEq] at h
    obtain ⟨⟨c₁, slot⟩, hstep, ⟨more, last₁⟩, hrest, rfl, rfl⟩ := h
    obtain ⟨hstill, rfl⟩ := hc.parallel_perform hop hne hstep
    have hsame := ih (hc.perform hstep) hc' (hstill.symm.trans hp) hrest h'
    exact hsame

/-- The directions do not interfere. Cells that are alike in direction `d` lay it out the same, and
are alike in it again. In two runs that differ in reports of the other direction, slot for slot,
direction `d` is laid out the same, from the same state to the same state. -/
theorem directions_do_not_interfere (d : Direction) :
    (∀ (c c' c₁ c₁' : Cell) (time time' : SlotTime) (slot slot' : SlotAllocation),
      c.Reachable → c'.Reachable → c.AlikeIn d c' →
      c.scheduleSlot time = .ok (c₁, slot) → c'.scheduleSlot time' = .ok (c₁', slot') →
      slot.assignments d = slot'.assignments d ∧ slot.symbols d = slot'.symbols d ∧
        c₁.AlikeIn d c₁') ∧
    ∀ (c last last' : Cell) (ops ops' : List Operation) (events events' : List Event),
      c.Reachable → Edited d ops ops' →
      c.performAll ops = .ok (events, last) → c.performAll ops' = .ok (events', last') →
      List.Forall₂ (Event.SameIn d) (slotEvents events) (slotEvents events') ∧
        last.AlikeIn d last' := by
  constructor
  · intro c c' c₁ c₁' time time' slot slot' hc hc' halike h h'
    exact halike.scheduleSlot hc.sound hc'.sound h h'
  · intro c last last' ops ops' events events' hc hedited h h'
    obtain ⟨hslots, hlast⟩ := (Cell.Parallel.refl d c).performAll hc.sound hc.sound hedited h h'
    exact ⟨hslots, hlast.alike⟩

/-- The uplink of a user fills up in one run only. Its grants show in that run, and in its next
slot, but the downlink is the same in both. -/
theorem directions_do_not_interfere_sample :
    ∃ (c c' c₁ c₁' : Cell) (events events' : List Event) (slot slot' : SlotAllocation),
      sampleCell.performAll sampleOperations = .ok (events, c) ∧
      sampleCell.performAll (sampleOperations.insertIdx 5 (.reportGroup ⟨⟨1⟩, 1, 400⟩)) =
        .ok (events', c') ∧
      c.scheduleSlot ⟨0, 0, 1, 0⟩ = .ok (c₁, slot) ∧
      c'.scheduleSlot ⟨0, 0, 1, 0⟩ = .ok (c₁', slot') ∧
      slot.uplink.map (·.rnti) = [] ∧ slot'.uplink.map (·.rnti) = [⟨1⟩] ∧
      slot.downlink.map (·.rnti) = [⟨1⟩, ⟨2⟩] ∧
      List.Forall₂ (Event.SameIn .downlink) (slotEvents events) (slotEvents events') ∧
      slot.downlink = slot'.downlink ∧ c₁.AlikeIn .downlink c₁' := by
  have hrun : ((sampleCell.performAll sampleOperations).bind fun x =>
      x.2.scheduleSlot ⟨0, 0, 1, 0⟩).toOption.any (fun x =>
        x.2.uplink.map (·.rnti) = [] && x.2.downlink.map (·.rnti) = [⟨1⟩, ⟨2⟩]) = true := by
    decide +kernel
  have hrun' : ((sampleCell.performAll
      (sampleOperations.insertIdx 5 (.reportGroup ⟨⟨1⟩, 1, 400⟩))).bind fun x =>
      x.2.scheduleSlot ⟨0, 0, 1, 0⟩).toOption.any (fun x =>
        x.2.uplink.map (·.rnti) = [⟨1⟩]) = true := by
    decide +kernel
  obtain ⟨⟨c₁, slot⟩, hslot, htest⟩ := exists_ok_of_any hrun
  obtain ⟨⟨events, c⟩, hops, hslot⟩ := bind_ok_iff.mp hslot
  obtain ⟨⟨c₁', slot'⟩, hslot', hgrant⟩ := exists_ok_of_any hrun'
  obtain ⟨⟨events', c'⟩, hops', hslot'⟩ := bind_ok_iff.mp hslot'
  simp only [Bool.and_eq_true, decide_eq_true_eq] at htest hgrant
  obtain ⟨hsend, hruns⟩ := directions_do_not_interfere .downlink
  have hedited : Edited .downlink sampleOperations
      (sampleOperations.insertIdx 5 (.reportGroup ⟨⟨1⟩, 1, 400⟩)) :=
    .same _ (.same _ (.same _ (.same _ (.same _ (.inserted rfl (by decide)
      (.same _ (.same _ (.same _ (.same _ .nil)))))))))
  have hstart : sampleCell.performAll [] = .ok ([], sampleCell) := rfl
  obtain ⟨hevents, halike⟩ := hruns _ _ _ _ _ _ _ ⟨_, _, _, _, run_sample hstart⟩ hedited hops
    hops'
  obtain ⟨hsame, -, hafter⟩ := hsend _ _ _ _ _ _ _ _ ⟨_, _, _, _, run_sample hops⟩
    ⟨_, _, _, _, run_sample hops'⟩ halike hslot hslot'
  exact ⟨c, c', c₁, c₁', events, events', slot, slot', hops, hops', hslot, hslot', htest.1, hgrant,
    htest.2, hevents, hsame, hafter⟩

end Airtime
