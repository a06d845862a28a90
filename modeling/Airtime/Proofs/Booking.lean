import Airtime.Proofs.BlockLife
import Airtime.Proofs.Reachable

/-! Every assignment is sized by the link model for the rectangle that it takes. A new block is sized
from the units that its user was granted, which are those of the rectangle; a block that is sent
again was sized when it was new, in an earlier slot of the run. After a slot each user has its new
block and the units of its repeated ones booked. -/

namespace Airtime

/-- The block is what the model carries on the resource blocks of the rectangle. -/
def Assignment.Sized (config : CellConfig) (link : LinkModel) (a : Assignment) : Prop :=
  ∃ blocks : UInt32, blocks.toNat = a.units * config.blocksPerGroup.toNat ∧
    a.blockSize = link.blockSize a.mcs blocks

theorem Assignment.Sized.of_sameBlock {config : CellConfig} {link : LinkModel} {a b : Assignment}
    (h : b.Sized config link) (same : a.SameBlock b) : a.Sized config link := by
  unfold Sized units at h ⊢
  rwa [same.numRbg, same.numSym, same.mcs, same.blockSize]

namespace Draft

def Sized (config : CellConfig) (link : LinkModel) (draft : Draft) : Prop :=
  ∀ a ∈ draft.assignments, a.Sized config link

variable {config : CellConfig} {link : LinkModel} {draft draft' : Draft} {beam : BeamId}

theorem Sized.add (h : draft.Sized config link) {a : Assignment} (ha : a.Sized config link)
    (hassignments : draft'.assignments = draft.assignments ++ [a]) : draft'.Sized config link := by
  intro b hb
  rw [hassignments, List.mem_append, List.mem_singleton] at hb
  rcases hb with hb | rfl
  · exact h b hb
  · exact ha

theorem sized_resend {units units' : UInt32} {id : ProcessId} {b b' : Block}
    (hdraft : draft.Sized config link) (hb : b.assignment.Sized config link)
    (h : Draft.resend beam (draft, units) id b = .ok ((draft', units'), b')) :
    draft'.Sized config link := by
  rcases resend_cases h with ⟨rfl, -, -⟩ | ⟨sym, n, used, -, -, -, -, -, -, rfl, -⟩
  · exact hdraft
  · exact hdraft.add (a := b.repeated beam draft.cursor.sym) hb rfl

theorem sized_resendUser {d : Direction} {u u' : User} (hdraft : draft.Sized config link)
    (hblocks : ∀ id b, (u.link d).inFlight.get? id = some b → b.assignment.Sized config link)
    (h : draft.resendUser d u = .ok (draft', u')) : draft'.Sized config link := by
  obtain ⟨retxRbg, inFlight, hwalk, -⟩ := resendUser_cases h
  exact hwalk.keeps (I := fun s => s.1.Sized config link) hdraft fun s id b s' b' hb hs hstep =>
    sized_resend hs (hblocks id b (Table.mem_entries.mp hb)) hstep

end Draft

namespace Cell

variable {c c' : Cell} {d : Direction} {draft draft' : Draft}

theorem exists_blocks_of_achievable {s : LinkState} {link : LinkModel}
    {blocksPerGroup size : UInt32} (h : s.achievable link blocksPerGroup = .ok size)
    (hsize : size ≠ 0) : ∃ blocks : UInt32, blocks.toNat = s.rbg.toNat * blocksPerGroup.toNat ∧
      size = link.blockSize s.mcs blocks := by
  rw [LinkState.achievable, if_neg (rbg_ne_of_achievable h hsize)] at h
  simp only [bind_ok_iff, pure_ok_iff, Word.mul_eq_ok, Word.toNat_uint32] at h
  obtain ⟨blocks, hblocks, rfl⟩ := h
  exact ⟨blocks, hblocks, rfl⟩

/-- The units of a state fill the rectangles of its scheme: symbols over the whole band, or groups
over all symbols of the beam. -/
def Whole (c : Cell) (d : Direction) (symbols : UInt32) (s : LinkState) : Prop :=
  if c.sharesBand d then symbols.toNat ∣ s.rbg.toNat ∧ (s.rbg ≠ 0 → s.sym = symbols)
  else s.rbg.toNat = s.sym.toNat * c.config.groups.toNat

theorem whole_of_fits {split : BeamSymbols} {e : BeamId × List Contender} (h : c.Fits d split e) :
    ∀ k ∈ e.2, c.Whole d (split.of e.1) (k.user.link d) := by
  intro k hk
  unfold Fits at h
  unfold Whole
  split at h
  · next hshare =>
    rw [if_pos hshare]
    exact ⟨h.2.whole k hk, h.2.sym k hk⟩
  · next hshare =>
    rw [if_neg hshare]
    exact h k hk

theorem units_of_places {symbols num start : UInt32} {cursor cursor' : Cursor} {s : LinkState}
    (hwhole : c.Whole d symbols s) (hne : s.rbg ≠ 0) (h : c.Places d cursor cursor' s start num) :
    num.toNat * s.sym.toNat = s.rbg.toNat := by
  unfold Whole at hwhole
  unfold Places at h
  split at h
  · next hshare =>
    rw [if_pos hshare] at hwhole
    obtain ⟨hdvd, hsym⟩ := hwhole
    obtain ⟨-, rfl, -, -⟩ := h
    have hsymbols : 0 < symbols.toNat := Nat.pos_of_dvd_of_pos hdvd (Word.toNat_pos hne)
    rw [hsym hne, UInt32.toNat_div, Word.toNat_max, UInt32.toNat_one, Nat.max_eq_left hsymbols,
      Nat.div_mul_cancel hdvd]
  · next hshare =>
    rw [if_neg hshare] at hwhole
    obtain ⟨-, rfl, -, -⟩ := h
    rw [hwhole, Nat.mul_comm]

theorem sized_serve {u u' : User} {symbols : UInt32} (hwhole : c.Whole d symbols (u.link d))
    (hdraft : draft.Sized c.config c.linkModel) (h : c.serve d draft u = .ok (draft', u')) :
    draft'.Sized c.config c.linkModel := by
  rcases serve_cases h with ⟨rfl, -⟩ |
    ⟨size, process, harq, start, num, cursor, s', hsize, h0, -, hplaces, -, -, rfl⟩
  · exact hdraft
  rw [newBlock_setLink]
  refine hdraft.add ?_ rfl
  obtain ⟨blocks, hblocks, hsize'⟩ := exists_blocks_of_achievable hsize h0
  refine ⟨blocks, ?_, hsize'⟩
  rw [hblocks, ← units_of_places hwhole (rbg_ne_of_achievable hsize h0) hplaces]
  rfl

theorem sized_serves {ks : List Contender} {us : List User} {symbols : UInt32}
    (hwhole : ∀ k ∈ ks, c.Whole d symbols (k.user.link d))
    (hdraft : draft.Sized c.config c.linkModel) (h : c.Serves d draft ks draft' us) :
    draft'.Sized c.config c.linkModel := by
  induction h with
  | nil => exact hdraft
  | cons first rest ih =>
    exact ih (fun k hk => hwhole k (by simp [hk])) (sized_serve (hwhole _ (by simp)) hdraft first)

theorem sized_serveBeam {split : BeamSymbols} {e : BeamId × List Contender} {us : List User}
    (hfits : c.Fits d split e) (hdraft : draft.Sized c.config c.linkModel)
    (h : c.serveBeam d split draft e.1 e.2 = .ok (draft', us)) :
    draft'.Sized c.config c.linkModel := by
  obtain ⟨draft₁, cursor, hserves, rfl, -⟩ := serveBeam_cases h
  have hsized : draft₁.Sized c.config c.linkModel :=
    sized_serves (whole_of_fits hfits) hdraft hserves
  exact hsized

def BlocksSized (c : Cell) (d : Direction) : Prop :=
  ∀ p b pdus, p.direction = d → c.held? p = some (b, pdus) → b.assignment.Sized c.config c.linkModel

theorem BlocksSized.of_block (hblocks : c.BlocksSized d) (hc : c.Sound) {r : Rnti} {u : User}
    (hu : c.user? r = some u) {id : ProcessId} {b : Block}
    (hb : (u.link d).inFlight.get? id = some b) : b.assignment.Sized c.config c.linkModel := by
  obtain ⟨pdus, hheld⟩ := LinkState.held?_of_block ((hc.user r u hu).2 d) hb
  exact hblocks ⟨r, d, id⟩ b pdus rfl ((held?_of_user hu).trans hheld)

theorem sized_of_scheduleDirection (hc : c.Sound) (hblocks : c.BlocksSized d)
    (h : c.scheduleDirection d = .ok (c', draft)) : draft.Sized c.config c.linkModel := by
  obtain ⟨draft₀, draft₁, users, hstart, hresend, hend⟩ := scheduleDirection_cases h
  have hnone : draft₀.Sized c.config c.linkModel := by
    intro a ha
    rw [assignments_start hstart] at ha
    cases ha
  have hresent : draft₁.Sized c.config c.linkModel := by
    refine hresend.keeps hnone fun draft r u draft' u' hu hdraft hstep =>
      Draft.sized_resendUser hdraft (fun id b hb => ?_) hstep
    obtain ⟨u₀, hu₀, hlink⟩ := link_cleared (Table.mem_entries.mp hu)
    rw [hlink] at hb
    exact hblocks.of_block hc hu₀ hb
  rcases hend with ⟨-, rfl⟩ | ⟨active, active', split, used, served, draft₂, hactive, hallocate,
    hserve, -, -, rfl⟩
  · exact hresent
  · obtain ⟨-, hfits⟩ := fits_of_allocate (cleared_of_resent hc hstart hresend) hactive hallocate
    exact hserve.keeps (I := fun draft => draft.Sized c.config c.linkModel) hresent
      fun draft beam ks draft' us hks hdraft hstep =>
        sized_serveBeam (hfits (beam, ks) hks) hdraft hstep

theorem held?_scheduleDirection (hc : c.Sound) (h : c.scheduleDirection d = .ok (c', draft))
    {p : ProcessRef} (hp : p.direction ≠ d) : c'.held? p = c.held? p := by
  rcases scheduleDirection_user hc h p.rnti with ⟨hnone, hnone', -⟩ | ⟨u, s, hu, hu', -⟩
  · rw [held?, held?, hnone, hnone']
  · rw [held?_of_user hu, held?_of_user hu', User.link_setLink_of_ne u hp]

theorem sized_of_scheduleSlot {time : SlotTime} {slot : SlotAllocation} (hc : c.Sound)
    (hblocks : ∀ d, c.BlocksSized d) (h : c.scheduleSlot time = .ok (c', slot)) (d : Direction) :
    ∀ a ∈ slot.assignments d, a.Sized c.config c.linkModel := by
  obtain ⟨c₁, down, up, hdown, hup, hdl, hul⟩ := scheduleSlot_cases h
  cases d with
  | downlink =>
    rw [hdl]
    exact sized_of_scheduleDirection hc (hblocks .downlink) hdown
  | uplink =>
    have hconfig : c₁.config = c.config := by rw [scheduleDirection_frame hdown]
    have hlink : c₁.linkModel = c.linkModel := by rw [scheduleDirection_frame hdown]
    rw [hul, ← hconfig, ← hlink]
    refine sized_of_scheduleDirection (hc.scheduleDirection hdown) ?_ hup
    intro p b pdus hp hheld
    rw [held?_scheduleDirection hc hdown (by rw [hp]; decide)] at hheld
    rw [hconfig, hlink]
    exact hblocks .uplink p b pdus hp hheld

end Cell

theorem Cell.scheduleSlot_of_perform {c c' : Cell} {op : Operation} {slot : SlotAllocation}
    (h : c.perform op = .ok (c', some slot)) : ∃ time, c.scheduleSlot time = .ok (c', slot) := by
  cases op with
  | slot time =>
    simp only [Cell.perform, bind_ok_iff, pure_ok_iff, Prod.mk.injEq, Option.some.injEq] at h
    obtain ⟨⟨c₁, slot'⟩, hslot, rfl, rfl⟩ := h
    exact ⟨time, hslot⟩
  | _ => cases h

/-- A block on its way after an operation was there before, or it was sent first in this slot. -/
theorem Cell.Sound.blocksSized_perform {c c' : Cell} {op : Operation}
    {slot : Option SlotAllocation} (hc : c.Sound) (hblocks : ∀ d, c.BlocksSized d)
    (h : c.perform op = .ok (c', slot)) (d : Direction) : c'.BlocksSized d := by
  intro p b pdus hp hheld
  have hconfig : c'.config = c.config := by rw [Cell.perform_frame h]
  have hlink : c'.linkModel = c.linkModel := by rw [Cell.perform_frame h]
  rw [hconfig, hlink]
  have heffect := hc.effect h p
  have hbefore := hblocks d p
  rw [hheld] at heffect
  generalize c.held? p = x at heffect hbefore
  cases heffect with
  | kept => exact hbefore b pdus hp rfl
  | @lost b => exact hbefore b pdus hp rfl
  | again => exact (hbefore _ pdus hp rfl).of_sameBlock ((Assignment.SameBlock.refl _).repeated _ _)
  | @opened a _ _ _ _ sent =>
    have ha : a ∈ Event.sent ⟨c, op, slot, c'⟩ p := by simp [sent]
    cases slot with
    | none => cases ha
    | some slot =>
      obtain ⟨time, hslot⟩ := scheduleSlot_of_perform h
      exact sized_of_scheduleSlot hc hblocks hslot p.direction a (List.mem_of_mem_filter ha)

theorem Run.blocksSized {config : CellConfig} {link : LinkModel} {confirming : Bool}
    {events : List Event} {c : Cell} (h : Run config link confirming events c) (d : Direction) :
    c.BlocksSized d := by
  induction h generalizing d with
  | start h =>
    intro p b pdus _ hheld
    rw [(Cell.create_ok_iff.mp h).2] at hheld
    cases hheld
  | step run h ih => exact run.sound.blocksSized_perform ih h d

/-- What a state has booked for the assignments of a slot: the bytes of the new block, if there is
one, and the units of all repeated ones. -/
structure LinkState.Booked (s : LinkState) (sent : List Assignment) : Prop where
  blockSize : sent.filter Assignment.newData = [] ∧ s.blockSize = 0 ∨
    ∃ a, sent.filter Assignment.newData = [a] ∧ s.blockSize = a.blockSize
  retxRbg : s.retxRbg.toNat = ((sent.filter fun a => !a.newData).map Assignment.units).sum

namespace LinkState

variable {config : CellConfig} {r : Rnti} {d : Direction} {beam : BeamId} {s s' : LinkState}
  {sent : List Assignment}

theorem Turn.booked (h : s.Turn r beam d s' sent) : s'.Booked sent := by
  obtain ⟨s₁, again, new, hresent, rfl, hnew⟩ := h
  have hnone : again.filter Assignment.newData = [] := by
    simpa [List.filter_eq_nil_iff] using hresent.newData
  have hall : again.filter (fun a => !a.newData) = again := by
    simpa [List.filter_eq_self] using hresent.newData
  have hretx := hresent.retxRbg
  rcases hnew with ⟨halike, rfl⟩ | ⟨a, hopened, rfl⟩
  · rw [List.append_nil]
    refine ⟨.inl ⟨hnone, ?_⟩, ?_⟩
    · exact halike.blockSize.elim (fun hsame => hsame.trans hresent.blockSize) id
    · rw [halike.retxRbg, hall, hretx]
  · refine ⟨.inr ⟨a, ?_, hopened.blockSize⟩, ?_⟩
    · rw [List.filter_append, hnone, List.nil_append]
      simp [hopened.newData]
    · rw [hopened.same_retxRbg, List.filter_append, hall, hretx]
      simp [hopened.newData]

theorem Turn.labelled (hs : s.Sound config r d) (h : s.Turn r beam d s' sent) :
    ∀ a ∈ sent, a.beam = beam ∧ a.process.toNat < config.processes.toNat ∧
      0 < a.blockSize.toNat := by
  obtain ⟨s₁, again, new, hresent, rfl, hnew⟩ := h
  intro a ha
  rw [← hs.capacity]
  rcases List.mem_append.mp ha with ha | ha
  · obtain ⟨id, b, sym, hb, -, rfl⟩ := hresent.mem ha
    have hblock := (hs.block id b hb).1
    refine ⟨rfl, ?_, Nat.pos_of_ne_zero fun h0 => hblock.size_ne (UInt32.toNat_inj.mp h0)⟩
    have hid : b.assignment.process = id := hblock.process
    rw [Block.repeated, hid]
    exact hs.lt_capacity_of_mem (Table.mem_keys.mpr (Option.isSome_iff_exists.mpr ⟨b, hb⟩))
  · rcases hnew with ⟨-, rfl⟩ | ⟨a', hopened, rfl⟩
    · cases ha
    obtain rfl := List.mem_singleton.mp ha
    refine ⟨hopened.beam, ?_, Nat.pos_of_ne_zero fun h0 => hopened.size_ne (UInt32.toNat_inj.mp h0)⟩
    have hs₁ := hresent.sound hs
    obtain ⟨pdus, hstarted⟩ := hopened.started hs₁.groups hs₁.harq
    rw [← hresent.harq]
    exact HarqTable.process?_isSome_iff.mp (by rw [hstarted.empty]; rfl)

end LinkState

/-- Every assignment of a slot, new or repeated, is what the link model carries on its own
rectangle, on the beam of its user and over one of the processes; and each user has booked what it
was assigned. -/
theorem slot_is_booked {c c' : Cell} {time : SlotTime} {slot : SlotAllocation} (hc : c.Reachable)
    (h : c.scheduleSlot time = .ok (c', slot)) (d : Direction) :
    (∀ a ∈ slot.assignments d, a.Sized c.config c.linkModel ∧ 0 < a.blockSize.toNat ∧
      a.process.toNat < c.config.processes.toNat ∧
      ∃ u u', c.user? a.rnti = some u ∧ c'.user? a.rnti = some u' ∧
        a.beam = u.beam ∧ a.beam = u'.beam) ∧
    ∀ r u', c'.user? r = some u' →
      (u'.link d).Booked ((slot.assignments d).filter (·.rnti = r)) := by
  have hsound := hc.sound
  constructor
  · intro a ha
    obtain ⟨config, link, confirming, events, hrun⟩ := hc
    refine ⟨Cell.sized_of_scheduleSlot hsound hrun.blocksSized h d a ha, ?_⟩
    have hmine : a ∈ (slot.assignments d).filter (·.rnti = a.rnti) := by simp [List.mem_filter, ha]
    rcases Cell.scheduleSlot_user hsound h a.rnti with ⟨-, -, hempty⟩ |
      ⟨u, u', hu, hu', hbeam, hturn⟩
    · rw [hempty d] at hmine
      cases hmine
    · obtain ⟨hb, hprocess, hsize⟩ := (hturn d).labelled ((hsound.user a.rnti u hu).2 d) a hmine
      exact ⟨hsize, hprocess, u, u', hu, hu', hb, hb.trans hbeam.symm⟩
  · intro r u' hu'
    rcases Cell.scheduleSlot_user hsound h r with ⟨-, hnone, -⟩ | ⟨u, u₁, -, hu₁, -, hturn⟩
    · rw [hu'] at hnone
      cases hnone
    · rw [hu', Option.some.injEq] at hu₁
      subst hu₁
      exact (hturn d).booked

/-- A user whose block is sent again, and one with a new block. -/
theorem slot_is_booked_sample : ∃ (c c' : Cell) (slot : SlotAllocation) (u₁ u₂ : User),
    c.Reachable ∧ c.scheduleSlot ⟨0, 0, 1, 0⟩ = .ok (c', slot) ∧
    slot.downlink.map (fun a => (a.rnti, a.newData)) = [(⟨1⟩, false), (⟨2⟩, true)] ∧
    (∀ a ∈ slot.downlink, a.Sized c.config c.linkModel) ∧
    c'.user? ⟨1⟩ = some u₁ ∧ u₁.downlink.Booked (slot.downlink.filter (·.rnti = ⟨1⟩)) ∧
    c'.user? ⟨2⟩ = some u₂ ∧ u₂.downlink.Booked (slot.downlink.filter (·.rnti = ⟨2⟩)) := by
  have hrun : ((sampleCell.performAll sampleOperations).bind fun x =>
      x.2.scheduleSlot ⟨0, 0, 1, 0⟩).toOption.any (fun x =>
        x.2.downlink.map (fun a => (a.rnti, a.newData)) = [(⟨1⟩, false), (⟨2⟩, true)] &&
          (x.1.user? ⟨1⟩).isSome && (x.1.user? ⟨2⟩).isSome) = true := by
    decide +kernel
  obtain ⟨⟨c', slot⟩, hslot, htest⟩ := exists_ok_of_any hrun
  obtain ⟨⟨events, c⟩, hops, hslot⟩ := bind_ok_iff.mp hslot
  simp only [Bool.and_eq_true, decide_eq_true_eq] at htest
  obtain ⟨⟨hkinds, hu₁⟩, hu₂⟩ := htest
  obtain ⟨u₁, hu₁⟩ := Option.isSome_iff_exists.mp hu₁
  obtain ⟨u₂, hu₂⟩ := Option.isSome_iff_exists.mp hu₂
  have hc : c.Reachable := ⟨_, _, _, _, run_sample hops⟩
  obtain ⟨hall, hbooked⟩ := slot_is_booked hc hslot .downlink
  exact ⟨c, c', slot, u₁, u₂, hc, hslot, hkinds, fun a ha => (hall a ha).1, hu₁,
    hbooked ⟨1⟩ u₁ hu₁, hu₂, hbooked ⟨2⟩ u₂ hu₂⟩

end Airtime
