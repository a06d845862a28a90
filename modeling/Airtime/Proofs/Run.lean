import Airtime.Proofs.Layout

/-! Runs of a cell: any operations in any order, from its creation on. Refused operations count with
the state that they leave behind. A slot is never refused; one that leaves the range of a computation
ends the run. Every state of a run is sound. -/

namespace Airtime

namespace Cell

variable {c c' : Cell} {d : Direction} {draft : Draft}

theorem scheduleDirection_frame (h : c.scheduleDirection d = .ok (c', draft)) :
    c' = { c with users := c'.users } := by
  obtain ⟨draft₀, draft₁, users, -, -, ⟨rfl, -⟩ | ⟨active, active', split, used, served, draft₂, -, -,
    -, -, rfl, -⟩⟩ := scheduleDirection_cases h
  · rfl
  · rw [foldl_put_frame]

theorem Sound.scheduleDirection (hc : c.Sound) (h : c.scheduleDirection d = .ok (c', draft)) :
    c'.Sound := by
  have hframe := scheduleDirection_frame h
  have hconfig : c'.config = c.config := by rw [hframe]
  have hlink : c'.linkModel = c.linkModel := by rw [hframe]
  refine ⟨by rw [hconfig, hlink]; exact hc.config, ?_⟩
  intro r u' hu'
  rw [hconfig]
  rcases scheduleDirection_user hc h r with ⟨-, hnone, -⟩ | ⟨u, s, hu, hs, hturn⟩
  · rw [hnone] at hu'
    cases hu'
  · rw [hs, Option.some.injEq] at hu'
    subst hu'
    have hlaid := (laid_of_scheduleDirection hc h).1
    have hsound := hc.user_sound hu
    rw [User.rnti_setLink]
    refine ⟨hc.user_rnti hu, ?_⟩
    intro e
    have hs' : s.Sound c.config u.rnti d := by
      rw [hc.user_rnti hu]
      exact hturn.sound ((hc.user r u hu).2 d)
        (fun a ha => (hlaid a (List.mem_of_mem_filter ha)).inBand) hc.valid.transmissions_pos
    have := hsound.setLink hs' e
    rwa [User.rnti_setLink, hc.user_rnti hu] at this

theorem scheduleSlot_ok {time : SlotTime} {slot : SlotAllocation}
    (h : c.scheduleSlot time = .ok (c', slot)) :
    ∃ c₁ down up, c.scheduleDirection .downlink = .ok (c₁, down) ∧
      c₁.scheduleDirection .uplink = .ok (c', up) ∧
      slot = ⟨some time, down.assignments, up.assignments, down.used.entries, up.used.entries⟩ := by
  simp only [scheduleSlot, bind_ok_iff, pure_ok_iff, Prod.mk.injEq] at h
  obtain ⟨⟨c₁, down⟩, hdown, ⟨c₂, up⟩, hup, rfl, rfl⟩ := h
  exact ⟨c₁, down, up, hdown, hup, rfl⟩

theorem scheduleSlot_cases {time : SlotTime} {slot : SlotAllocation}
    (h : c.scheduleSlot time = .ok (c', slot)) :
    ∃ c₁ down up, c.scheduleDirection .downlink = .ok (c₁, down) ∧
      c₁.scheduleDirection .uplink = .ok (c', up) ∧
      slot.assignments .downlink = down.assignments ∧
      slot.assignments .uplink = up.assignments := by
  obtain ⟨c₁, down, up, hdown, hup, rfl⟩ := scheduleSlot_ok h
  exact ⟨c₁, down, up, hdown, hup, rfl, rfl⟩

theorem Sound.scheduleSlot {time : SlotTime} {slot : SlotAllocation} (hc : c.Sound)
    (h : c.scheduleSlot time = .ok (c', slot)) : c'.Sound := by
  obtain ⟨c₁, down, up, hdown, hup, -, -⟩ := scheduleSlot_cases h
  exact (hc.scheduleDirection hdown).scheduleDirection hup

theorem scheduleSlot_frame {time : SlotTime} {slot : SlotAllocation}
    (h : c.scheduleSlot time = .ok (c', slot)) : c' = { c with users := c'.users } := by
  obtain ⟨c₁, down, up, hdown, hup, -, -⟩ := scheduleSlot_cases h
  rw [scheduleDirection_frame hup, scheduleDirection_frame hdown]

/-- A slot, read for one user. -/
theorem scheduleSlot_user {time : SlotTime} {slot : SlotAllocation} (hc : c.Sound)
    (h : c.scheduleSlot time = .ok (c', slot)) (r : Rnti) :
    c.user? r = none ∧ c'.user? r = none ∧
        (∀ d, (slot.assignments d).filter (·.rnti = r) = []) ∨
      ∃ u u', c.user? r = some u ∧ c'.user? r = some u' ∧ u'.beam = u.beam ∧
        ∀ d, (u.link d).Turn r u.beam d (u'.link d) ((slot.assignments d).filter (·.rnti = r)) := by
  obtain ⟨c₁, down, up, hdown, hup, hdl, hul⟩ := scheduleSlot_cases h
  rcases scheduleDirection_user hc hdown r with ⟨hnone, hnone₁, hempty⟩ | ⟨u, s, hu, hu₁, hturn⟩
  · rcases scheduleDirection_user (hc.scheduleDirection hdown) hup r with
      ⟨-, hnone', hempty'⟩ | ⟨u, s, hu, -⟩
    · refine .inl ⟨hnone, hnone', ?_⟩
      intro d
      cases d with
      | downlink => rw [hdl, hempty]
      | uplink => rw [hul, hempty']
    · rw [hnone₁] at hu
      cases hu
  · rcases scheduleDirection_user (hc.scheduleDirection hdown) hup r with
      ⟨hnone, -⟩ | ⟨u₁, s', hu₁', hu', hturn'⟩
    · rw [hu₁] at hnone
      cases hnone
    · rw [hu₁, Option.some.injEq] at hu₁'
      subst hu₁'
      refine .inr ⟨u, _, hu, hu', by simp, ?_⟩
      intro d
      cases d with
      | downlink =>
        rw [hdl]
        exact hturn
      | uplink =>
        rw [hul]
        exact hturn'

theorem laid_of_scheduleSlot {time : SlotTime} {slot : SlotAllocation} (hc : c.Sound)
    (h : c.scheduleSlot time = .ok (c', slot)) (d : Direction) :
    (∀ a ∈ slot.assignments d, a.OnGrid c.config d) ∧
      (slot.assignments d).Pairwise Assignment.Apart := by
  obtain ⟨c₁, down, up, hdown, hup, hdl, hul⟩ := scheduleSlot_cases h
  cases d with
  | downlink =>
    rw [hdl]
    exact laid_of_scheduleDirection hc hdown
  | uplink =>
    have hconfig : c₁.config = c.config := by rw [scheduleDirection_frame hdown]
    rw [hul, ← hconfig]
    exact laid_of_scheduleDirection (hc.scheduleDirection hdown) hup

end Cell

/-- What can be asked of a cell. -/
inductive Operation where
  | configureUser (rnti : Rnti) (beam : BeamId)
  | moveUser (rnti : Rnti) (beam : BeamId)
  | removeUser (rnti : Rnti)
  | configureChannel (r : ChannelRequest)
  | reportBuffer (r : BufferReport Rnti)
  | reportGroup (r : GroupReport)
  | reportQuality (r : QualityReport)
  | feedback (f : Feedback)
  | slot (time : SlotTime)

/-- The state that an operation leaves behind, and the allocation if it is a slot. -/
def Cell.perform (c : Cell) : Operation → Except Failure (Cell × Option SlotAllocation)
  | .configureUser rnti beam => .ok (c.configureUser rnti beam, none)
  | .moveUser rnti beam => .ok ((c.moveUser rnti beam).1, none)
  | .removeUser rnti => .ok ((c.removeUser rnti).1, none)
  | .configureChannel r => .ok ((c.configureChannel r).1, none)
  | .reportBuffer r => .ok ((c.reportBuffer r).1, none)
  | .reportGroup r => .ok ((c.reportGroup r).1, none)
  | .reportQuality r => .ok ((c.reportQuality r).1, none)
  | .feedback f => .ok ((c.feedback f).1, none)
  | .slot time => do
    let (c, slot) ← c.scheduleSlot time
    return (c, some slot)

structure Event where
  before : Cell
  operation : Operation
  slot : Option SlotAllocation
  after : Cell

/-- The operations performed so far, and the cell after them. -/
inductive Run (config : CellConfig) (link : LinkModel) (confirming : Bool) :
    List Event → Cell → Prop
  | start {c : Cell} (h : Cell.create config link confirming = .ok c) :
      Run config link confirming [] c
  | step {events : List Event} {c c' : Cell} {op : Operation} {slot : Option SlotAllocation}
      (run : Run config link confirming events c) (h : c.perform op = .ok (c', slot)) :
      Run config link confirming (events ++ [⟨c, op, slot, c'⟩]) c'

def Cell.Reachable (c : Cell) : Prop :=
  ∃ config link confirming events, Run config link confirming events c

theorem Cell.put_ensureUser_frame (c : Cell) (r : Rnti) (beam : BeamId) (u : User) :
    (c.ensureUser r beam).2.put u =
      { c with users := ((c.ensureUser r beam).2.put u).users } := by
  unfold Cell.ensureUser
  split
  · rfl
  · rfl

theorem Cell.perform_frame {c c' : Cell} {op : Operation} {slot : Option SlotAllocation}
    (h : c.perform op = .ok (c', slot)) : c' = { c with users := c'.users } := by
  cases op with
  | configureUser rnti beam =>
    cases h
    exact Cell.put_ensureUser_frame c rnti beam _
  | moveUser rnti beam =>
    cases h
    rcases Cell.moveUser_cases c rnti beam with hsame | ⟨u, -, hput⟩
    · rw [hsame]
    · rw [hput]
      rfl
  | removeUser rnti =>
    cases h
    exact Cell.removeUser_frame c rnti
  | configureChannel r =>
    cases h
    rw [Cell.configureChannel_eq_put]
    exact Cell.put_ensureUser_frame c r.rnti ⟨0⟩ _
  | reportBuffer r =>
    cases h
    exact (c.notes_reportBuffer r).frame
  | reportGroup r =>
    cases h
    exact (c.notes_reportGroup r).frame
  | reportQuality r =>
    cases h
    exact (c.notes_reportQuality r).frame
  | feedback f =>
    cases h
    rcases Cell.feedback_cases c f with ⟨-, hsame⟩ | ⟨u, s, -, hput, -⟩
    · rw [hsame]
    · rw [hput]
      rfl
  | slot time =>
    simp only [Cell.perform, bind_ok_iff, pure_ok_iff, Prod.mk.injEq] at h
    obtain ⟨⟨c₁, slot'⟩, hslot, rfl, -⟩ := h
    exact Cell.scheduleSlot_frame hslot

theorem Cell.Sound.perform {c c' : Cell} {op : Operation} {slot : Option SlotAllocation}
    (hc : c.Sound) (h : c.perform op = .ok (c', slot)) : c'.Sound := by
  cases op with
  | configureUser rnti beam =>
    cases h
    exact hc.configureUser rnti beam
  | moveUser rnti beam =>
    cases h
    exact hc.moveUser rnti beam
  | removeUser rnti =>
    cases h
    exact hc.removeUser rnti
  | configureChannel r =>
    cases h
    exact hc.configureChannel r
  | reportBuffer r =>
    cases h
    exact hc.notes (c.notes_reportBuffer r)
  | reportGroup r =>
    cases h
    exact hc.notes (c.notes_reportGroup r)
  | reportQuality r =>
    cases h
    exact hc.notes (c.notes_reportQuality r)
  | feedback f =>
    cases h
    exact hc.feedback f
  | slot time =>
    simp only [Cell.perform, bind_ok_iff, pure_ok_iff, Prod.mk.injEq] at h
    obtain ⟨⟨c₁, slot'⟩, hslot, rfl, -⟩ := h
    exact hc.scheduleSlot hslot

theorem Run.sound {config : CellConfig} {link : LinkModel} {confirming : Bool}
    {events : List Event} {c : Cell} (h : Run config link confirming events c) : c.Sound := by
  induction h with
  | start h => exact Cell.sound_create h
  | step _ h ih => exact ih.perform h

theorem Cell.Reachable.sound {c : Cell} (h : c.Reachable) : c.Sound := by
  obtain ⟨config, link, confirming, events, hrun⟩ := h
  exact hrun.sound

theorem Run.config {config : CellConfig} {link : LinkModel} {confirming : Bool}
    {events : List Event} {c : Cell} (h : Run config link confirming events c) :
    c.config = config := by
  induction h with
  | start h => rw [(Cell.create_ok_iff.mp h).2]
  | step _ h ih => rw [Cell.perform_frame h, ih]

theorem Run.linkModel {config : CellConfig} {link : LinkModel} {confirming : Bool}
    {events : List Event} {c : Cell} (h : Run config link confirming events c) :
    c.linkModel = link := by
  induction h with
  | start h => rw [(Cell.create_ok_iff.mp h).2]
  | step _ h ih => rw [Cell.perform_frame h, ih]

/-- Every event of a run comes at the end of a run. -/
theorem Run.at_event {config : CellConfig} {link : LinkModel} {confirming : Bool}
    {events before after : List Event} {c : Cell} {e : Event}
    (h : Run config link confirming events c) (hevents : events = before ++ e :: after) :
    Run config link confirming before e.before ∧
      e.before.perform e.operation = .ok (e.after, e.slot) := by
  induction h generalizing after with
  | start h => simp at hevents
  | step run h ih =>
    rcases split_of_concat hevents with ⟨rfl, rfl, -⟩ | ⟨between, hsplit, -⟩
    · exact ⟨run, h⟩
    · exact ih hsplit

def Cell.performAll (c : Cell) : List Operation → Except Failure (List Event × Cell)
  | [] => .ok ([], c)
  | op :: ops => do
    let (c', slot) ← c.perform op
    let (events, last) ← c'.performAll ops
    return (⟨c, op, slot, c'⟩ :: events, last)

theorem Run.performAll {config : CellConfig} {link : LinkModel} {confirming : Bool}
    {events more : List Event} {c c' : Cell} {ops : List Operation}
    (h : Run config link confirming events c) (hops : c.performAll ops = .ok (more, c')) :
    Run config link confirming (events ++ more) c' := by
  induction ops generalizing events more c with
  | nil =>
    cases hops
    rwa [List.append_nil]
  | cons op ops ih =>
    simp only [Cell.performAll, bind_ok_iff, pure_ok_iff, Prod.mk.injEq] at hops
    obtain ⟨⟨c₁, slot⟩, hstep, ⟨rest, last⟩, hrest, rfl, rfl⟩ := hops
    have := ih (h.step hstep) hrest
    rwa [List.append_assoc, List.singleton_append] at this

def sampleConfig : CellConfig :=
  { groups := 4, symbols := 6, initialMcs := 2, processes := 2, maxTransmissions := 2 }

def sampleCell : Cell := ⟨sampleConfig, .proportional 10, ∅, false⟩

/-- Two users on two beams. A block of the first one is lost, and then both have bytes to send. -/
def sampleOperations : List Operation :=
  let channel (rnti : Rnti) : Operation :=
    .configureChannel { rnti, channel := 4, group := 1, direction := .both, priority := 1 }
  let report (rnti : Rnti) (tx : UInt32) : Operation :=
    .reportBuffer { destination := rnti, channel := 4, tx, txDelay := 0, retx := 0, retxDelay := 0,
                    status := 0 }
  [.configureUser ⟨1⟩ ⟨0⟩, .configureUser ⟨2⟩ ⟨1⟩, channel ⟨1⟩, channel ⟨2⟩, report ⟨1⟩ 9,
    .slot ⟨0, 0, 0, 0⟩, .feedback ⟨⟨1⟩, 0, .downlink, false⟩, report ⟨1⟩ 20, report ⟨2⟩ 5]

theorem run_sample {ops : List Operation} {events : List Event} {c : Cell}
    (h : sampleCell.performAll ops = .ok (events, c)) :
    Run sampleConfig (.proportional 10) false events c := Run.performAll (.start rfl) h

theorem exists_ok_of_any {ε α : Type} {x : Except ε α} {p : α → Bool}
    (h : x.toOption.any p = true) : ∃ a, x = .ok a ∧ p a = true := by
  cases x with
  | error e => cases h
  | ok a => exact ⟨a, rfl, h⟩

end Airtime
