import Airtime.Proofs.Run

/-! The block that one process of a user carries, followed through every operation. Feedback for the
process, the removal of its user and slots are all that touch it. -/

namespace Airtime

/-- A process of a user in one direction. -/
structure ProcessRef where
  rnti : Rnti
  direction : Direction
  id : ProcessId

def LinkState.payload? (s : LinkState) (r : Rnti) (id : ProcessId) : Option (List Pdu) :=
  (s.harq.packets r id).toOption

/-- The block on its way over a process, with what the process stores. -/
def LinkState.held? (s : LinkState) (r : Rnti) (id : ProcessId) : Option (Block × List Pdu) :=
  (s.inFlight.get? id).bind fun b => (s.payload? r id).map (b, ·)

def Cell.payload? (c : Cell) (p : ProcessRef) : Option (List Pdu) :=
  (c.user? p.rnti).bind fun u => (u.link p.direction).payload? p.rnti p.id

def Cell.held? (c : Cell) (p : ProcessRef) : Option (Block × List Pdu) :=
  (c.user? p.rnti).bind fun u => (u.link p.direction).held? p.rnti p.id

def Cell.hasFree (c : Cell) (p : ProcessRef) : Prop :=
  ∃ u, c.user? p.rnti = some u ∧ (u.link p.direction).harq.isFree p.id = true

def Operation.report? (op : Operation) (p : ProcessRef) : Option Bool :=
  match op with
  | .feedback f =>
    if f.rnti = p.rnti ∧ f.direction = p.direction ∧ f.process = p.id then some f.success else none
  | _ => none

def Event.sent (e : Event) (p : ProcessRef) : List Assignment :=
  e.slot.elim [] fun slot =>
    (slot.assignments p.direction).filter fun a => a.rnti = p.rnti && a.process = p.id

/-- What feedback does to the block of its process, and to what is stored for it. -/
def reported (max : UInt8) (success : Bool) (x : Block × List Pdu) : Option (Block × List Pdu) :=
  if success = false ∧ x.1.transmissions.toNat < max.toNat then
    some ({ x.1 with lost := true }, x.2)
  else none

namespace LinkState

variable {config : CellConfig} {r : Rnti} {d : Direction} {beam : BeamId} {s s' : LinkState}
  {sent : List Assignment} {id : ProcessId}

theorem held?_of_block (hs : s.Sound config r d) {b : Block} (hb : s.inFlight.get? id = some b) :
    ∃ pdus, s.held? r id = some (b, pdus) := by
  obtain ⟨-, p, hp, hk, -⟩ := hs.block id b hb
  refine ⟨p.packets, ?_⟩
  rw [held?, payload?, hb, HarqTable.packets_of_held hp hk]
  rfl

theorem held?_of_none (hb : s.inFlight.get? id = none) : s.held? r id = none := by
  rw [held?, hb, Option.bind_none]

theorem payload?_of_held {b : Block} {pdus : List Pdu} (h : s.held? r id = some (b, pdus)) :
    s.inFlight.get? id = some b ∧ s.payload? r id = some pdus := by
  obtain ⟨b', hb, h⟩ := Option.bind_eq_some_iff.mp h
  obtain ⟨pdus', hpdus, h⟩ := Option.map_eq_some_iff.mp h
  cases h
  exact ⟨hb, hpdus⟩

theorem payload?_congr (hh : s'.harq.process? id = s.harq.process? id) :
    s'.payload? r id = s.payload? r id := by
  unfold HarqTable.process? at hh
  rw [payload?, payload?, HarqTable.packets, HarqTable.packets, HarqTable.held, HarqTable.held, hh]

theorem held?_congr (hf : s'.inFlight.get? id = s.inFlight.get? id)
    (hh : s'.harq.process? id = s.harq.process? id) : s'.held? r id = s.held? r id := by
  rw [held?, held?, hf, payload?_congr hh]

theorem Resent.held (hs : s.Sound config r d) (h : s.Resent beam s' sent) (id : ProcessId) :
    s.held? r id = none ∧ s'.held? r id = none ∧ sent.filter (·.process = id) = [] ∨
      ∃ b b' pdus, s.held? r id = some (b, pdus) ∧ s'.held? r id = some (b', pdus) ∧
        Block.Again beam b b' (sent.filter (·.process = id)) := by
  obtain ⟨E, rfl, hE⟩ := h.blocks
  have hkey : ∀ k ∈ s.inFlight.keys, ∀ a ∈ E k, a.process = k := by
    intro k hk a ha
    rcases hE k with ⟨hnone, -⟩ | ⟨b, b', hb, -, ⟨-, hsent⟩ | ⟨-, sym, n, -, -, hsent⟩⟩
    · rw [Table.mem_keys, hnone] at hk
      cases hk
    · rw [hsent] at ha
      cases ha
    · rw [hsent, List.mem_singleton] at ha
      rw [ha]
      exact (hs.block k b hb).1.process
  rcases hE id with ⟨hnone, hnone'⟩ | ⟨b, b', hb, hb', hagain⟩
  · have hid : id ∉ s.inFlight.keys := by
      rw [Table.mem_keys, hnone]
      simp
    exact .inl ⟨held?_of_none hnone, held?_of_none hnone',
      filter_flatMap_of_not_mem hkey (by simpa using hid)⟩
  · have hid : id ∈ s.inFlight.keys := by
      rw [Table.mem_keys, hb]
      rfl
    have hmine : (s.inFlight.keys.flatMap E).filter (·.process = id) = E id :=
      filter_flatMap_of_mem hkey (by simpa using s.inFlight.keys_nodup) hid
    obtain ⟨pdus, hheld⟩ := held?_of_block hs hb
    refine .inr ⟨b, b', pdus, hheld, ?_, hmine ▸ hagain⟩
    have hstored : s'.payload? r id = s.payload? r id := payload?_congr (by rw [h.harq])
    rw [held?, hb', hstored, (payload?_of_held hheld).2]
    rfl

theorem Opened.stores (hs : s.Sound config r d) {a : Assignment} (h : s.Opened r beam d s' a) :
    ∃ pdus, s.Started r s' a pdus ∧ s'.held? r a.process = some (⟨a, 1, false⟩, pdus) := by
  obtain ⟨pdus, hstarted⟩ := h.started hs.groups hs.harq
  refine ⟨pdus, hstarted, ?_⟩
  have hproc := hstarted.process? a.process
  rw [if_pos rfl] at hproc
  rw [held?, payload?, h.inFlight, Table.get?_insert_self,
    HarqTable.packets_of_held hproc (by simp), Process.packets_addAll]
  rfl

/-- A new block has a process that was free, and the others keep theirs. -/
theorem Opened.held (hs : s.Sound config r d) {a : Assignment} (h : s.Opened r beam d s' a) :
    s.harq.isFree a.process = true ∧ s.held? r a.process = none ∧
      (∃ pdus, s'.held? r a.process = some (⟨a, 1, false⟩, pdus)) ∧
      ∀ id, id ≠ a.process → s'.held? r id = s.held? r id := by
  obtain ⟨pdus, hstarted, hheld⟩ := h.stores hs
  refine ⟨?_, ?_, ⟨pdus, hheld⟩, fun id hid => held?_congr ?_ ?_⟩
  · rw [HarqTable.isFree_iff, hstarted.free]
    exact List.mem_cons_self
  · apply held?_of_none
    by_contra hne
    obtain ⟨b, hb⟩ := Option.ne_none_iff_exists'.mp hne
    obtain ⟨-, q, hq, hk, -⟩ := hs.block _ b hb
    rw [hstarted.empty, Option.some.injEq] at hq
    rw [← hq] at hk
    cases hk
  · rw [h.inFlight, Table.get?_insert_if, if_neg hid]
  · rw [hstarted.process?, if_neg hid]

/-- What a turn does to the block of one process: it may be sent again, or it may be a new one. -/
theorem Turn.held (hs : s.Sound config r d) (h : s.Turn r beam d s' sent) (id : ProcessId) :
    (∃ b b' pdus, s.held? r id = some (b, pdus) ∧ s'.held? r id = some (b', pdus) ∧
        Block.Again beam b b' (sent.filter (·.process = id))) ∨
      s.held? r id = none ∧ (s'.held? r id = none ∧ sent.filter (·.process = id) = [] ∨
        ∃ a pdus, sent.filter (·.process = id) = [a] ∧ a.newData = true ∧ a.redundancy = 0 ∧
          s.harq.isFree id = true ∧ s'.held? r id = some (⟨a, 1, false⟩, pdus)) := by
  obtain ⟨s₁, again, new, hresent, rfl, ⟨halike, rfl⟩ | ⟨a, hopened, rfl⟩⟩ := h
  · have hsame : s'.held? r id = s₁.held? r id := by
      rw [held?, held?, payload?, payload?, halike.inFlight, halike.harq]
    rw [List.append_nil, hsame]
    rcases hresent.held hs id with ⟨hnone, hnone', hagain⟩ | hagain
    · exact .inr ⟨hnone, .inl ⟨hnone', hagain⟩⟩
    · exact .inl hagain
  · obtain ⟨hfree, hnone, ⟨pdus, hheld⟩, hother⟩ := hopened.held (hresent.sound hs)
    rw [List.filter_append]
    by_cases hid : a.process = id
    · subst hid
      rcases hresent.held hs a.process with ⟨hnone₀, -, hagain⟩ | ⟨b, b', pdus', -, hsome, -⟩
      · refine .inr ⟨hnone₀, .inr ⟨a, pdus, ?_, hopened.newData, hopened.redundancy,
          hresent.harq ▸ hfree, hheld⟩⟩
        rw [hagain]
        simp
      · rw [hnone] at hsome
        cases hsome
    · have hnew : [a].filter (·.process = id) = [] := by simp [hid]
      rw [hother id (Ne.symm hid), hnew, List.append_nil]
      rcases hresent.held hs id with ⟨hnone, hnone', hagain⟩ | hagain
      · exact .inr ⟨hnone, .inl ⟨hnone', hagain⟩⟩
      · exact .inl hagain

theorem Answered.held (hs : s.Sound config r d) {max : UInt8} {success : Bool}
    (h : s.Answered max r id success s') :
    s'.held? r id = (s.held? r id).bind (reported max success) ∧
      ∀ k, k ≠ id → s'.held? r k = s.held? r k := by
  rcases h with ⟨b, hb, hlost, hretry, rfl⟩ | ⟨hdone, harq, rfl, hharq⟩
  · obtain ⟨pdus, hheld⟩ := held?_of_block hs hb
    have hstored := (payload?_of_held hheld).2
    constructor
    · rw [hheld, Option.bind_some, reported, if_pos ⟨hlost, hretry⟩, held?,
        Table.get?_insert_self, Option.bind_some]
      exact congrArg _ hstored
    · intro k hk
      apply held?_congr
      · rw [Table.get?_insert_if, if_neg hk]
      · rfl
  · constructor
    · rw [held?_of_none ((Table.get?_erase_if _ _ _).trans (if_pos rfl))]
      cases hb : s.inFlight.get? id with
      | none => rw [held?_of_none hb, Option.bind_none]
      | some b =>
        obtain ⟨pdus, hheld⟩ := held?_of_block hs hb
        rw [hheld, Option.bind_some, reported, if_neg]
        rintro ⟨hlost, hretry⟩
        rcases hdone b hb with hsuccess | hmax
        · rw [hlost] at hsuccess
          cases hsuccess
        · exact Nat.not_lt.mpr hmax hretry
    · intro k hk
      apply held?_congr
      · rw [Table.get?_erase_if, if_neg hk]
      · rcases hharq with hrelease | ⟨rfl, -⟩
        · rw [HarqTable.process?_release hrelease, if_neg hk]
        · rfl

end LinkState

/-- A user whose blocks and processes are those of another state of it. -/
structure User.Keeps (u u' : User) : Prop where
  rnti : u'.rnti = u.rnti
  inFlight : ∀ d, (u'.link d).inFlight = (u.link d).inFlight
  harq : ∀ d, (u'.link d).harq = (u.link d).harq

namespace User

variable {u u' : User}

theorem Keeps.refl (u : User) : u.Keeps u := ⟨rfl, fun _ => rfl, fun _ => rfl⟩

theorem Keeps.trans {u'' : User} (h : u.Keeps u') (h' : u'.Keeps u'') : u.Keeps u'' :=
  ⟨h'.rnti.trans h.rnti, fun d => (h'.inFlight d).trans (h.inFlight d),
    fun d => (h'.harq d).trans (h.harq d)⟩

theorem keeps_withBeam (u : User) (beam : BeamId) : u.Keeps { u with beam } :=
  ⟨rfl, fun d => by cases d <;> rfl, fun d => by cases d <;> rfl⟩

theorem keeps_setLink (u : User) (d : Direction) {s : LinkState}
    (hf : s.inFlight = (u.link d).inFlight) (hh : s.harq = (u.link d).harq) :
    u.Keeps (u.setLink d s) where
  rnti := u.rnti_setLink d s
  inFlight e := by
    by_cases he : e = d
    · rw [he, link_setLink, hf]
    · rw [u.link_setLink_of_ne he]
  harq e := by
    by_cases he : e = d
    · rw [he, link_setLink, hh]
    · rw [u.link_setLink_of_ne he]

end User

namespace Cell

variable {c c' : Cell} {p : ProcessRef}

theorem held?_of_user {u : User} (hu : c.user? p.rnti = some u) :
    c.held? p = (u.link p.direction).held? p.rnti p.id := by
  rw [held?, hu, Option.bind_some]

theorem payload?_of_held {b : Block} {pdus : List Pdu} (h : c.held? p = some (b, pdus)) :
    c.payload? p = some pdus := by
  obtain ⟨u, hu, h⟩ := Option.bind_eq_some_iff.mp h
  rw [payload?, hu, Option.bind_some, (LinkState.payload?_of_held h).2]

theorem held?_put (c : Cell) (u : User) (p : ProcessRef) : (c.put u).held? p =
    if p.rnti = u.rnti then (u.link p.direction).held? p.rnti p.id else c.held? p := by
  rw [held?, user?_put]
  split
  · rfl
  · rfl

theorem Sound.held?_put_of_keeps (hc : c.Sound) {r : Rnti} {u u' : User} (hu : c.user? r = some u)
    (h : u.Keeps u') (p : ProcessRef) : (c.put u').held? p = c.held? p := by
  rw [held?_put]
  split
  · next hr =>
    rw [h.rnti, hc.user_rnti hu] at hr
    subst hr
    rw [held?_of_user hu]
    exact LinkState.held?_congr (by rw [h.inFlight]) (by rw [h.harq])
  · rfl

theorem held?_ensureUser (c : Cell) (r : Rnti) (beam : BeamId) (p : ProcessRef) :
    (c.ensureUser r beam).2.held? p = c.held? p := by
  unfold ensureUser
  split
  · rfl
  · next hnone =>
    simp only [held?_put]
    split
    · next hr =>
      have hr : p.rnti = r := hr
      rw [held?, hr, hnone]
      exact LinkState.held?_of_none (by cases p.direction <;> rfl)
    · rfl

theorem user?_ensureUser (c : Cell) (r : Rnti) (beam : BeamId) :
    (c.ensureUser r beam).2.user? r = some (c.ensureUser r beam).1 := by
  unfold ensureUser
  split
  · next hu => exact hu
  · exact (user?_put _ _ _).trans (if_pos rfl)

theorem Sound.held?_configureUser (hc : c.Sound) (r : Rnti) (beam : BeamId) (p : ProcessRef) :
    (c.configureUser r beam).held? p = c.held? p := by
  rw [← held?_ensureUser c r beam p]
  exact (sound_ensureUser hc r beam).1.held?_put_of_keeps (user?_ensureUser c r beam)
    (User.keeps_withBeam _ beam) p

theorem Sound.held?_moveUser (hc : c.Sound) (r : Rnti) (beam : BeamId) (p : ProcessRef) :
    (c.moveUser r beam).1.held? p = c.held? p := by
  rcases moveUser_cases c r beam with hsame | ⟨u, hu, hput⟩
  · rw [hsame]
  · rw [hput]
    exact hc.held?_put_of_keeps hu (User.keeps_withBeam u beam) p

theorem keeps_addChannel (u : User) (d : Direction) (r : ChannelRequest) :
    u.Keeps (addChannel u d r).1 := by
  unfold addChannel
  split
  · exact User.keeps_setLink u d rfl rfl
  · exact .refl u

theorem keeps_withChannel (u : User) (r : ChannelRequest) : u.Keeps (withChannel u r) := by
  unfold withChannel
  simp only
  split
  · exact (keeps_addChannel u .downlink r).trans (keeps_addChannel _ .uplink r)
  · exact keeps_addChannel u .downlink r

theorem Sound.held?_configureChannel (hc : c.Sound) (r : ChannelRequest) (p : ProcessRef) :
    (c.configureChannel r).1.held? p = c.held? p := by
  rw [configureChannel_eq_put, ← held?_ensureUser c r.rnti ⟨0⟩ p]
  exact (sound_ensureUser hc r.rnti ⟨0⟩).1.held?_put_of_keeps (user?_ensureUser c r.rnti ⟨0⟩)
    (keeps_withChannel _ r) p

theorem Sound.held?_notes (hc : c.Sound) {r : Rnti} {d : Direction} (h : c.Notes r d c')
    (p : ProcessRef) : c'.held? p = c.held? p := by
  cases h with
  | refused => rfl
  | noted hu h =>
    refine hc.held?_put_of_keeps hu ?_ p
    cases h with
    | bytes hg h => exact User.keeps_setLink _ d rfl rfl
    | quality cqi mcs => exact User.keeps_setLink _ d rfl rfl

theorem held?_removeUser (c : Cell) (r : Rnti) (p : ProcessRef) :
    (c.removeUser r).1.held? p = if p.rnti = r then none else c.held? p := by
  rw [held?, user?_removeUser]
  split
  · rfl
  · rfl

theorem Sound.held?_put_setLink (hc : c.Sound) {r : Rnti} {u : User} (hu : c.user? r = some u)
    (d : Direction) (s : LinkState) (p : ProcessRef) : (c.put (u.setLink d s)).held? p =
      if r = p.rnti ∧ d = p.direction then s.held? r p.id else c.held? p := by
  rw [held?_put, User.rnti_setLink, hc.user_rnti hu]
  by_cases hr : p.rnti = r
  · subst hr
    by_cases hd : d = p.direction
    · subst hd
      simp
    · rw [if_pos rfl, if_neg fun h => hd h.2, User.link_setLink_of_ne u (Ne.symm hd),
        held?_of_user hu]
  · rw [if_neg hr, if_neg fun h => hr h.1.symm]

theorem Sound.held?_feedback (hc : c.Sound) (f : Feedback) (p : ProcessRef) :
    (c.feedback f).1.held? p =
      if f.rnti = p.rnti ∧ f.direction = p.direction ∧ f.process = p.id then
        (c.held? p).bind (reported c.config.maxTransmissions f.success)
      else c.held? p := by
  rcases feedback_cases c f with ⟨hnone, hsame⟩ | ⟨u, s, hu, hput, hanswered⟩
  · rw [hsame]
    split
    · next hp =>
      rw [held?, ← hp.1, hnone]
      rfl
    · rfl
  · have hs := hc.user_sound hu f.direction
    rw [hc.user_rnti hu] at hs
    obtain ⟨hheld, hother⟩ := hanswered.held hs
    rw [hput, hc.held?_put_setLink hu]
    by_cases hp : f.rnti = p.rnti ∧ f.direction = p.direction
    · have hbefore : c.held? p = (u.link f.direction).held? f.rnti p.id := by
        rw [held?, ← hp.1, ← hp.2, hu, Option.bind_some]
      rw [if_pos hp, hbefore]
      by_cases hid : f.process = p.id
      · rw [if_pos ⟨hp.1, hp.2, hid⟩, ← hid, hheld]
      · rw [if_neg fun h => hid h.2.2, hother _ (Ne.symm hid)]
    · rw [if_neg hp, if_neg fun h => hp ⟨h.1, h.2.1⟩]

end Cell

/-- All that an event can do to the block of a process: what is held before, and after. -/
inductive Event.Effect (e : Event) (p : ProcessRef) (max : Nat) :
    Option (Block × List Pdu) → Option (Block × List Pdu) → Prop
  | kept {x : Option (Block × List Pdu)} (silent : e.operation.report? p = none)
      (stays : e.operation ≠ .removeUser p.rnti) (sent : e.sent p = []) : Effect e p max x x
  | removed {x : Option (Block × List Pdu)} (leaves : e.operation = .removeUser p.rnti)
      (sent : e.sent p = []) : Effect e p max x none
  | stray (sent : e.sent p = []) : Effect e p max none none
  | lost {b : Block} {pdus : List Pdu} (report : e.operation.report? p = some false)
      (early : b.transmissions.toNat < max) (sent : e.sent p = []) :
      Effect e p max (some (b, pdus)) (some ({ b with lost := true }, pdus))
  | released {x : Block × List Pdu} {success : Bool}
      (report : e.operation.report? p = some success)
      (done : success = true ∨ max ≤ x.1.transmissions.toNat) (sent : e.sent p = []) :
      Effect e p max (some x) none
  | again {b : Block} {pdus : List Pdu} {beam : BeamId} {sym : UInt32} {n : UInt8}
      (silent : e.operation.report? p = none) (stays : e.operation ≠ .removeUser p.rnti)
      (lost : b.lost = true) (count : n.toNat = b.transmissions.toNat + 1)
      (sent : e.sent p = [b.repeated beam sym]) :
      Effect e p max (some (b, pdus)) (some (⟨b.repeated beam sym, n, false⟩, pdus))
  | opened {a : Assignment} {pdus : List Pdu} (free : e.before.hasFree p)
      (new : a.newData = true) (first : a.redundancy = 0) (sent : e.sent p = [a]) :
      Effect e p max none (some (⟨a, 1, false⟩, pdus))

namespace Cell

variable {c c' : Cell} {p : ProcessRef}

theorem Sound.effect_feedback (hc : c.Sound) (f : Feedback) (p : ProcessRef) :
    Event.Effect ⟨c, .feedback f, none, (c.feedback f).1⟩ p c.config.maxTransmissions.toNat
      (c.held? p) ((c.feedback f).1.held? p) := by
  rw [hc.held?_feedback]
  split
  · next hp =>
    have hreport : (Operation.feedback f).report? p = some f.success := if_pos hp
    cases hheld : c.held? p with
    | none => exact .stray rfl
    | some x =>
      rw [Option.bind_some, reported]
      split
      · next hretry => exact .lost (hretry.1 ▸ hreport) hretry.2 rfl
      · next hretry =>
        refine .released hreport ?_ rfl
        cases hsuccess : f.success with
        | true => exact .inl rfl
        | false => exact .inr (Nat.not_lt.mp fun hlt => hretry ⟨hsuccess, hlt⟩)
  · next hp => exact .kept (if_neg hp) (fun h => by cases h) rfl

theorem Sound.effect_slot (hc : c.Sound) {time : SlotTime} {slot : SlotAllocation}
    (h : c.scheduleSlot time = .ok (c', slot)) (p : ProcessRef) :
    Event.Effect ⟨c, .slot time, some slot, c'⟩ p c.config.maxTransmissions.toNat
      (c.held? p) (c'.held? p) := by
  have hsent : Event.sent ⟨c, .slot time, some slot, c'⟩ p =
      ((slot.assignments p.direction).filter (·.rnti = p.rnti)).filter (·.process = p.id) := by
    simp [Event.sent, List.filter_filter, Bool.and_comm]
  rcases scheduleSlot_user hc h p.rnti with ⟨hnone, hnone', hempty⟩ | ⟨u, u', hu, hu', -, hturn⟩
  · rw [hempty] at hsent
    rw [held?, held?, hnone, hnone']
    exact .kept rfl (fun h => by cases h) hsent
  · have hs := (hc.user p.rnti u hu).2 p.direction
    rw [held?_of_user hu, held?_of_user hu']
    rcases (hturn p.direction).held hs p.id with
      ⟨b, b', pdus, hb, hb', ⟨rfl, hnil⟩ | ⟨hlost, sym, n, hn, rfl, hone⟩⟩ |
      ⟨hb, ⟨hb', hnil⟩ | ⟨a, pdus, hone, hnew, hfirst, hfree, hb'⟩⟩
    · rw [hb, hb']
      exact .kept rfl (fun h => by cases h) (hsent.trans hnil)
    · rw [hb, hb']
      exact .again rfl (fun h => by cases h) hlost hn (hsent.trans hone)
    · rw [hb, hb']
      exact .kept rfl (fun h => by cases h) (hsent.trans hnil)
    · rw [hb, hb']
      exact .opened ⟨u, hu, hfree⟩ hnew hfirst (hsent.trans hone)

theorem Sound.effect (hc : c.Sound) {op : Operation} {slot : Option SlotAllocation}
    (h : c.perform op = .ok (c', slot)) (p : ProcessRef) :
    Event.Effect ⟨c, op, slot, c'⟩ p c.config.maxTransmissions.toNat (c.held? p) (c'.held? p) := by
  have hkept : ∀ c₁, c₁.held? p = c.held? p → op.report? p = none → op ≠ .removeUser p.rnti →
      Event.Effect ⟨c, op, none, c₁⟩ p c.config.maxTransmissions.toNat (c.held? p) (c₁.held? p) := by
    intro c₁ hsame hsilent hstays
    rw [hsame]
    exact .kept hsilent hstays rfl
  cases op with
  | configureUser rnti beam =>
    cases h
    exact hkept _ (hc.held?_configureUser rnti beam p) rfl fun h => by cases h
  | moveUser rnti beam =>
    cases h
    exact hkept _ (hc.held?_moveUser rnti beam p) rfl fun h => by cases h
  | removeUser rnti =>
    cases h
    rw [held?_removeUser]
    split
    · next hr => exact .removed (by rw [hr]) rfl
    · next hr => exact .kept rfl (fun h => hr (Operation.removeUser.inj h).symm) rfl
  | configureChannel r =>
    cases h
    exact hkept _ (hc.held?_configureChannel r p) rfl fun h => by cases h
  | reportBuffer r =>
    cases h
    exact hkept _ (hc.held?_notes (c.notes_reportBuffer r) p) rfl fun h => by cases h
  | reportGroup r =>
    cases h
    exact hkept _ (hc.held?_notes (c.notes_reportGroup r) p) rfl fun h => by cases h
  | reportQuality r =>
    cases h
    exact hkept _ (hc.held?_notes (c.notes_reportQuality r) p) rfl fun h => by cases h
  | feedback f =>
    cases h
    exact hc.effect_feedback f p
  | slot time =>
    simp only [Cell.perform, bind_ok_iff, pure_ok_iff, Prod.mk.injEq] at h
    obtain ⟨⟨c₁, slot'⟩, hslot, rfl, rfl⟩ := h
    exact hc.effect_slot hslot p

end Cell

end Airtime
