import Airtime.Proofs.Booking

/-! The coding scheme of a user follows the configuration and the quality that it reported last since
it was created. A new block carries the scheme of its slot. A block that is sent again keeps the one
it was started with, whatever was reported in between. -/

namespace Airtime

/-- The coding scheme for the last quality report, if there was one. -/
def CellConfig.schemeDue (config : CellConfig) (link : LinkModel) (d : Direction)
    (quality : Option UInt8) : UInt8 :=
  match config.fixedMcs d, quality with
  | some mcs, _ => mcs
  | none, some cqi => min (link.mcsOfCqi cqi) link.maxMcs
  | none, none => config.initialMcs

/-- The last report of user `r` after one more operation. There is no user in `none`, and one that
reported nothing yet in `some none`. -/
def Operation.quality (op : Operation) (r : Rnti) (d : Direction) (last : Option (Option UInt8)) :
    Option (Option UInt8) :=
  match op with
  | .configureUser rnti _ => if rnti = r then some last.join else last
  | .configureChannel q => if q.rnti = r then some last.join else last
  | .removeUser rnti => if rnti = r then none else last
  | .reportQuality q =>
    if q.rnti = r ∧ q.direction = d then last.map fun _ => some q.cqi else last
  | _ => last

def Cell.lastQuality (r : Rnti) (d : Direction) (events : List Event) : Option (Option UInt8) :=
  events.foldl (fun last e => e.operation.quality r d last) none

/-- The last block that was started over a process. -/
def lastOpened (p : ProcessRef) (events : List Event) : Option Assignment :=
  ((events.flatMap (·.sent p)).filter (·.newData)).getLast?

theorem CellConfig.schemeDue_le {config : CellConfig} {link : LinkModel}
    (h : config.problem? link.maxMcs = none) (d : Direction) (quality : Option UInt8) :
    config.schemeDue link d quality ≤ link.maxMcs := by
  have hschemes : ∀ mcs ∈ config.fixedDownlinkMcs.toList ++ config.fixedUplinkMcs.toList ++
      [config.initialMcs], mcs ≤ link.maxMcs := by
    unfold problem? at h
    split at h
    · cases h
    · simp only at h
      split at h
      · cases h
      · split at h
        · cases h
        · rw [Option.map_eq_none_iff, List.find?_eq_none] at h
          intro mcs hmcs
          simpa using h mcs hmcs
  unfold schemeDue
  split
  · next mcs hfixed =>
    refine hschemes mcs ?_
    cases d with
    | downlink => simp [show config.fixedDownlinkMcs = some mcs from hfixed]
    | uplink => simp [show config.fixedUplinkMcs = some mcs from hfixed]
  · exact Std.min_le_right
  · exact hschemes _ (by simp)

theorem CellConfig.firstMcs_eq (config : CellConfig) (link : LinkModel) (d : Direction) :
    config.firstMcs d = config.schemeDue link d none := by
  unfold firstMcs schemeDue
  cases config.fixedMcs d <;> rfl

def LinkState.rating (s : LinkState) : Option UInt8 × UInt8 := (s.cqi, s.mcs)

def CellConfig.rated (config : CellConfig) (link : LinkModel) (d : Direction)
    (quality : Option UInt8) : Option UInt8 × UInt8 := (quality, config.schemeDue link d quality)

structure User.SameRating (u u' : User) : Prop where
  rnti : u'.rnti = u.rnti
  rating : ∀ d, (u'.link d).rating = (u.link d).rating

namespace User

variable {u u' : User}

theorem SameRating.refl (u : User) : u.SameRating u := ⟨rfl, fun _ => rfl⟩

theorem SameRating.trans {u'' : User} (h : u.SameRating u') (h' : u'.SameRating u'') :
    u.SameRating u'' :=
  ⟨h'.rnti.trans h.rnti, fun d => (h'.rating d).trans (h.rating d)⟩

theorem sameRating_withBeam (u : User) (beam : BeamId) : u.SameRating { u with beam } :=
  ⟨rfl, fun d => by cases d <;> rfl⟩

theorem sameRating_setLink (u : User) (d : Direction) {s : LinkState}
    (h : s.rating = (u.link d).rating) : u.SameRating (u.setLink d s) where
  rnti := u.rnti_setLink d s
  rating e := by
    by_cases he : e = d
    · rw [he, link_setLink, h]
    · rw [u.link_setLink_of_ne he]

end User

namespace Cell

variable {c c' : Cell} {r : Rnti} {d : Direction}

def rating? (c : Cell) (r : Rnti) (d : Direction) : Option (Option UInt8 × UInt8) :=
  (c.user? r).map fun u => (u.link d).rating

theorem rating?_of_user {u : User} (hu : c.user? r = some u) :
    c.rating? r d = some (u.link d).rating := by
  rw [rating?, hu, Option.map_some]

theorem rating?_put (c : Cell) (u : User) (r : Rnti) (d : Direction) :
    (c.put u).rating? r d = if r = u.rnti then some (u.link d).rating else c.rating? r d := by
  rw [rating?, user?_put]
  split
  · rfl
  · rfl

theorem Sound.rating?_put_same (hc : c.Sound) {r' : Rnti} {u u' : User} (hu : c.user? r' = some u)
    (h : u.SameRating u') (r : Rnti) (d : Direction) :
    (c.put u').rating? r d = c.rating? r d := by
  rw [rating?_put, h.rnti, hc.user_rnti hu, h.rating]
  split
  · next hr => rw [hr, rating?_of_user hu]
  · rfl

theorem Sound.rating?_put_setLink (hc : c.Sound) {r' : Rnti} {u : User} (hu : c.user? r' = some u)
    (e : Direction) (s : LinkState) (r : Rnti) (d : Direction) :
    (c.put (u.setLink e s)).rating? r d =
      if r' = r ∧ e = d then some s.rating else c.rating? r d := by
  rw [rating?_put, User.rnti_setLink, hc.user_rnti hu]
  by_cases hr : r = r'
  · subst hr
    by_cases hd : e = d
    · subst hd
      simp
    · rw [if_pos rfl, if_neg fun h => hd h.2, User.link_setLink_of_ne u (Ne.symm hd),
        rating?_of_user hu]
  · rw [if_neg hr, if_neg fun h => hr h.1.symm]

theorem rating?_ensureUser (c : Cell) (r' : Rnti) (beam : BeamId) (r : Rnti) (d : Direction) :
    (c.ensureUser r' beam).2.rating? r d =
      if r' = r then some ((c.rating? r d).getD (none, c.config.firstMcs d))
      else c.rating? r d := by
  unfold ensureUser
  split
  · next u hu =>
    split
    · next hr => rw [← hr, rating?_of_user hu, Option.getD_some]
    · rfl
  · next hnone =>
    simp only [rating?_put]
    by_cases hr : r' = r
    · subst hr
      have hfresh : (c.freshUser r' beam).rnti = r' := rfl
      rw [hfresh, if_pos rfl, if_pos rfl, rating?, hnone]
      cases d <;> rfl
    · rw [if_neg hr]
      exact if_neg (Ne.symm hr)

theorem Sound.rating?_configureUser (hc : c.Sound) (r' : Rnti) (beam : BeamId) (r : Rnti)
    (d : Direction) :
    (c.configureUser r' beam).rating? r d = (c.ensureUser r' beam).2.rating? r d :=
  (sound_ensureUser hc r' beam).1.rating?_put_same (user?_ensureUser c r' beam)
    (User.sameRating_withBeam _ beam) r d

theorem Sound.rating?_moveUser (hc : c.Sound) (r' : Rnti) (beam : BeamId) (r : Rnti)
    (d : Direction) : (c.moveUser r' beam).1.rating? r d = c.rating? r d := by
  rcases moveUser_cases c r' beam with hsame | ⟨u, hu, hput⟩
  · rw [hsame]
  · rw [hput]
    exact hc.rating?_put_same hu (User.sameRating_withBeam u beam) r d

theorem sameRating_addChannel (u : User) (d : Direction) (q : ChannelRequest) :
    u.SameRating (addChannel u d q).1 := by
  unfold addChannel
  split
  · exact User.sameRating_setLink u d rfl
  · exact .refl u

theorem sameRating_withChannel (u : User) (q : ChannelRequest) :
    u.SameRating (withChannel u q) := by
  unfold withChannel
  simp only
  split
  · exact (sameRating_addChannel u .downlink q).trans (sameRating_addChannel _ .uplink q)
  · exact sameRating_addChannel u .downlink q

theorem Sound.rating?_configureChannel (hc : c.Sound) (q : ChannelRequest) (r : Rnti)
    (d : Direction) :
    (c.configureChannel q).1.rating? r d = (c.ensureUser q.rnti ⟨0⟩).2.rating? r d := by
  rw [configureChannel_eq_put]
  exact (sound_ensureUser hc q.rnti ⟨0⟩).1.rating?_put_same (user?_ensureUser c q.rnti ⟨0⟩)
    (sameRating_withChannel _ q) r d

theorem Sound.rating?_reportBuffer (hc : c.Sound) (q : BufferReport Rnti) (r : Rnti)
    (d : Direction) : (c.reportBuffer q).1.rating? r d = c.rating? r d := by
  unfold reportBuffer
  split
  · rfl
  · next u hu =>
    split
    · rfl
    · refine hc.rating?_put_same hu ?_ r d
      exact User.sameRating_setLink u .downlink rfl

theorem Sound.rating?_reportGroup (hc : c.Sound) (q : GroupReport) (r : Rnti) (d : Direction) :
    (c.reportGroup q).1.rating? r d = c.rating? r d := by
  unfold reportGroup
  split
  · rfl
  · next u hu =>
    split
    · rfl
    · split
      · rfl
      · refine hc.rating?_put_same hu ?_ r d
        exact User.sameRating_setLink u .uplink rfl

/-- A report counts as the last one, and changes the scheme unless that is fixed. -/
theorem Sound.rating?_reportQuality (hc : c.Sound) (q : QualityReport) (r : Rnti) (d : Direction) :
    (c.reportQuality q).1.rating? r d =
      if q.rnti = r ∧ q.direction = d then (c.rating? r d).map fun x =>
        (some q.cqi, if (c.config.fixedMcs d).isNone then c.linkModel.adapted q.cqi else x.2)
      else c.rating? r d := by
  unfold reportQuality
  split
  · next hnone =>
    split
    · next hr => rw [rating?, ← hr.1, hnone, Option.map_none, Option.map_none]
    · rfl
  · next u hu =>
    refine (hc.rating?_put_setLink hu q.direction _ r d).trans ?_
    split
    · next hr =>
      rw [← hr.1, ← hr.2, rating?_of_user hu]
      rfl
    · rfl

theorem Sound.rating?_feedback (hc : c.Sound) (f : Feedback) (r : Rnti) (d : Direction) :
    (c.feedback f).1.rating? r d = c.rating? r d := by
  rcases feedback_cases c f with ⟨-, hsame⟩ | ⟨u, s, hu, hput, hanswered⟩
  · rw [hsame]
  · rw [hput]
    refine hc.rating?_put_same hu (User.sameRating_setLink u f.direction ?_) r d
    rcases hanswered with ⟨b, -, -, -, rfl⟩ | ⟨-, harq, rfl, -⟩
    · rfl
    · rfl

theorem Sound.rating?_scheduleSlot (hc : c.Sound) {time : SlotTime} {slot : SlotAllocation}
    (h : c.scheduleSlot time = .ok (c', slot)) (r : Rnti) (d : Direction) :
    c'.rating? r d = c.rating? r d := by
  rcases scheduleSlot_user hc h r with ⟨hnone, hnone', -⟩ | ⟨u, u', hu, hu', -, hturn⟩
  · rw [rating?, rating?, hnone, hnone']
  · rw [rating?_of_user hu, rating?_of_user hu', LinkState.rating, LinkState.rating]
    obtain ⟨s₁, again, new, hresent, -, ⟨halike, -⟩ | ⟨a, hopened, -⟩⟩ := hturn d
    · rw [halike.cqi, halike.mcs, hresent.cqi, hresent.mcs]
    · rw [hopened.same_cqi, hopened.same_mcs, hresent.cqi, hresent.mcs]

theorem Sound.rating?_perform (hc : c.Sound) {op : Operation} {slot : Option SlotAllocation}
    (h : c.perform op = .ok (c', slot)) {last : Option (Option UInt8)}
    (hlast : c.rating? r d = last.map (c.config.rated c.linkModel d)) :
    c'.rating? r d = (op.quality r d last).map (c.config.rated c.linkModel d) := by
  have hcreated : ∀ r' beam, (c.ensureUser r' beam).2.rating? r d =
      (if r' = r then some last.join else last).map (c.config.rated c.linkModel d) := by
    intro r' beam
    rw [rating?_ensureUser, hlast]
    split
    · rw [c.config.firstMcs_eq c.linkModel]
      cases last <;> rfl
    · rfl
  cases op with
  | configureUser rnti beam =>
    cases h
    rw [hc.rating?_configureUser]
    exact hcreated rnti beam
  | moveUser rnti beam =>
    cases h
    rw [hc.rating?_moveUser]
    exact hlast
  | removeUser rnti =>
    cases h
    rw [rating?, user?_removeUser, Operation.quality]
    by_cases hr : rnti = r
    · rw [if_pos hr, if_pos hr.symm]
      rfl
    · rw [if_neg hr, if_neg fun h => hr h.symm]
      exact hlast
  | configureChannel q =>
    cases h
    rw [hc.rating?_configureChannel]
    exact hcreated q.rnti ⟨0⟩
  | reportBuffer q =>
    cases h
    rw [hc.rating?_reportBuffer]
    exact hlast
  | reportGroup q =>
    cases h
    rw [hc.rating?_reportGroup]
    exact hlast
  | reportQuality q =>
    cases h
    rw [hc.rating?_reportQuality, hlast, Operation.quality]
    split
    · rw [Option.map_map, Option.map_map]
      refine Option.map_congr fun x _ => ?_
      simp only [Function.comp_apply, CellConfig.rated, CellConfig.schemeDue, Prod.mk.injEq,
        true_and]
      cases c.config.fixedMcs d <;> rfl
    · rfl
  | feedback f =>
    cases h
    rw [hc.rating?_feedback]
    exact hlast
  | slot time =>
    simp only [Cell.perform, bind_ok_iff, pure_ok_iff, Prod.mk.injEq] at h
    obtain ⟨⟨c₁, slot'⟩, hslot, rfl, -⟩ := h
    rw [hc.rating?_scheduleSlot hslot]
    exact hlast

end Cell

/-- A new block has the scheme of its user, and one that is sent again that of the block. -/
theorem LinkState.Turn.scheme {config : CellConfig} {r : Rnti} {beam : BeamId} {d : Direction}
    {s s' : LinkState} {sent : List Assignment} (hs : s.Sound config r d)
    (h : s.Turn r beam d s' sent) {a : Assignment} (ha : a ∈ sent) :
    a.newData = true ∧ a.mcs = s.mcs ∨
      a.newData = false ∧ ∃ b, s.inFlight.get? a.process = some b ∧ a.mcs = b.assignment.mcs := by
  obtain ⟨s₁, again, new, hresent, rfl, hnew⟩ := h
  rcases List.mem_append.mp ha with ha | ha
  · obtain ⟨id, b, sym, hb, -, rfl⟩ := hresent.mem ha
    have hid : b.assignment.process = id := (hs.block id b hb).1.process
    exact .inr ⟨rfl, b, by rw [Block.repeated, hid, hb], rfl⟩
  · rcases hnew with ⟨-, rfl⟩ | ⟨a', hopened, rfl⟩
    · cases ha
    · obtain rfl := List.mem_singleton.mp ha
      exact .inl ⟨hopened.newData, hopened.mcs.trans hresent.mcs⟩

theorem Cell.Sound.scheme_sent {c c' : Cell} (hc : c.Sound) {op : Operation}
    {slot : SlotAllocation} (h : c.perform op = .ok (c', some slot)) {d : Direction}
    {a : Assignment} (ha : a ∈ slot.assignments d) :
    a.newData = true ∧ (∃ cqi, c.rating? a.rnti d = some (cqi, a.mcs)) ∨
      a.newData = false ∧ ∃ b pdus, c.held? ⟨a.rnti, d, a.process⟩ = some (b, pdus) ∧
        a.mcs = b.assignment.mcs := by
  obtain ⟨time, hslot⟩ := scheduleSlot_of_perform h
  have hmine : a ∈ (slot.assignments d).filter (·.rnti = a.rnti) := by simp [List.mem_filter, ha]
  rcases scheduleSlot_user hc hslot a.rnti with ⟨-, -, hempty⟩ | ⟨u, u', hu, -, -, hturn⟩
  · rw [hempty d] at hmine
    cases hmine
  · have hs := (hc.user a.rnti u hu).2 d
    rcases (hturn d).scheme hs hmine with ⟨hnew, hmcs⟩ | ⟨hold, b, hb, hmcs⟩
    · exact .inl ⟨hnew, (u.link d).cqi, by rw [rating?_of_user hu, hmcs]; rfl⟩
    · obtain ⟨pdus, hheld⟩ := LinkState.held?_of_block hs hb
      exact .inr ⟨hold, b, pdus, (held?_of_user hu).trans hheld, hmcs⟩

/-- A block that is held is the last one that was started over its process. -/
theorem Traced.lastOpened {p : ProcessRef} {max : Nat} {events : List Event} {b : Block}
    {pdus : List Pdu} (h : Traced p max events (some (b, pdus))) :
    ∃ first, lastOpened p events = some first ∧ b.assignment.SameBlock first := by
  obtain ⟨before, during, first, rfl, -, hlife, hsame⟩ := h
  obtain ⟨again, hsent, -, hnew, -, hagain⟩ := hlife.sent_eq
  refine ⟨first, ?_, hsame⟩
  have hnone : again.filter (·.newData) = [] := by
    rw [List.filter_eq_nil_iff]
    intro a ha
    obtain ⟨k, hk⟩ := List.getElem?_of_mem ha
    simp [(hagain k a hk).2.1]
  rw [Airtime.lastOpened, List.flatMap_append, hsent, List.filter_append,
    List.filter_cons_of_pos hnew, hnone, List.getLast?_concat]

theorem exists_of_lastOpened {p : ProcessRef} {events : List Event} {first : Assignment}
    (h : lastOpened p events = some first) : ∃ before e after slot, events = before ++ e :: after ∧
      e.slot = some slot ∧ first ∈ slot.assignments p.direction ∧ first.newData = true := by
  obtain ⟨hsent, hnew⟩ := List.mem_filter.mp (List.mem_of_getLast? h)
  obtain ⟨e, he, hsent⟩ := List.mem_flatMap.mp hsent
  obtain ⟨before, after, hevents⟩ := List.append_of_mem he
  rw [Event.sent] at hsent
  cases hslot : e.slot with
  | none =>
    rw [hslot] at hsent
    cases hsent
  | some slot =>
    rw [hslot] at hsent
    exact ⟨before, e, after, slot, hevents, hslot, List.mem_of_mem_filter hsent, hnew⟩

namespace Run

variable {config : CellConfig} {link : LinkModel} {confirming : Bool} {events : List Event}
  {c : Cell}

theorem checked (h : Run config link confirming events c) :
    config.problem? link.maxMcs = none := by
  have hconfig := h.sound.config
  rwa [h.config, h.linkModel] at hconfig

theorem rated (h : Run config link confirming events c) (r : Rnti) (d : Direction) :
    c.rating? r d = (Cell.lastQuality r d events).map (config.rated link d) := by
  induction h with
  | start h =>
    rw [(Cell.create_ok_iff.mp h).2]
    rfl
  | step run h ih =>
    rw [← run.config, ← run.linkModel] at ih ⊢
    rw [run.sound.rating?_perform h ih, Cell.lastQuality, Cell.lastQuality, List.foldl_append]
    rfl

section

variable {before after : List Event} {e : Event} {slot : SlotAllocation} {d : Direction}
  {a : Assignment}

theorem scheme_of_new (h : Run config link confirming events c)
    (hevents : events = before ++ e :: after) (hslot : e.slot = some slot)
    (ha : a ∈ slot.assignments d) (hnew : a.newData = true) : ∃ quality,
      Cell.lastQuality a.rnti d before = some quality ∧
      a.mcs = config.schemeDue link d quality := by
  obtain ⟨hrun, hperform⟩ := h.at_event hevents
  rw [hslot] at hperform
  rcases hrun.sound.scheme_sent hperform ha with ⟨-, cqi, hrating⟩ | ⟨hold, -⟩
  · rw [hrun.rated, Option.map_eq_some_iff] at hrating
    obtain ⟨quality, hquality, heq⟩ := hrating
    exact ⟨quality, hquality, (Prod.mk.inj heq).2.symm⟩
  · rw [hold] at hnew
    cases hnew

theorem scheme_of_repeated (h : Run config link confirming events c)
    (hevents : events = before ++ e :: after) (hslot : e.slot = some slot)
    (ha : a ∈ slot.assignments d) (hold : a.newData = false) : ∃ first,
      lastOpened ⟨a.rnti, d, a.process⟩ before = some first ∧ a.mcs = first.mcs := by
  obtain ⟨hrun, hperform⟩ := h.at_event hevents
  rw [hslot] at hperform
  rcases hrun.sound.scheme_sent hperform ha with ⟨hnew, -⟩ | ⟨-, b, pdus, hheld, hmcs⟩
  · rw [hold] at hnew
    cases hnew
  · have htraced := hrun.traced ⟨a.rnti, d, a.process⟩
    rw [hheld] at htraced
    obtain ⟨first, hfirst, hsame⟩ := htraced.lastOpened
    exact ⟨first, hfirst, hmcs.trans hsame.mcs⟩

theorem scheme_le (h : Run config link confirming events c)
    (hevents : events = before ++ e :: after) (hslot : e.slot = some slot)
    (ha : a ∈ slot.assignments d) : a.mcs ≤ link.maxMcs := by
  have hnew : ∀ {before after e slot a}, events = before ++ e :: after → e.slot = some slot →
      a ∈ slot.assignments d → a.newData = true → a.mcs ≤ link.maxMcs := by
    intro before after e slot a hevents hslot ha hnew
    obtain ⟨quality, -, hmcs⟩ := h.scheme_of_new hevents hslot ha hnew
    exact hmcs ▸ CellConfig.schemeDue_le h.checked d quality
  cases hkind : a.newData with
  | true => exact hnew hevents hslot ha hkind
  | false =>
    obtain ⟨first, hfirst, hmcs⟩ := h.scheme_of_repeated hevents hslot ha hkind
    obtain ⟨before', e', between, slot', rfl, hslot', hfirst, hopened⟩ :=
      exists_of_lastOpened hfirst
    rw [List.append_assoc, List.cons_append] at hevents
    exact hmcs ▸ hnew hevents hslot' hfirst hopened

end

end Run

/-- The coding schemes of a run that led through some events to a cell. -/
structure Cell.CodedByReports (c : Cell) (config : CellConfig) (link : LinkModel)
    (events : List Event) : Prop where
  user : ∀ r d u, c.user? r = some u → ∃ quality, Cell.lastQuality r d events = some quality ∧
    (u.link d).cqi = quality ∧ (u.link d).mcs = config.schemeDue link d quality ∧
    (u.link d).mcs ≤ link.maxMcs
  /-- A new block has the scheme that its user is due at that slot, a repeated one that of its first
  transmission. -/
  sent : ∀ before e after slot d, events = before ++ e :: after → e.slot = some slot →
    ∀ a ∈ slot.assignments d, a.mcs ≤ link.maxMcs ∧
      (a.newData = true → ∃ quality, Cell.lastQuality a.rnti d before = some quality ∧
        a.mcs = config.schemeDue link d quality) ∧
      (a.newData = false → ∃ first, lastOpened ⟨a.rnti, d, a.process⟩ before = some first ∧
        a.mcs = first.mcs)

theorem Run.coded {config : CellConfig} {link : LinkModel} {confirming : Bool}
    {events : List Event} {c : Cell} (h : Run config link confirming events c) :
    c.CodedByReports config link events where
  user r d u hu := by
    have hrating := h.rated r d
    rw [Cell.rating?_of_user hu, eq_comm, Option.map_eq_some_iff] at hrating
    obtain ⟨quality, hquality, heq⟩ := hrating
    obtain ⟨hcqi, hmcs⟩ := Prod.mk.inj heq
    exact ⟨quality, hquality, hcqi.symm, hmcs.symm,
      hmcs ▸ CellConfig.schemeDue_le h.checked d quality⟩
  sent before e after slot d hevents hslot a ha := ⟨h.scheme_le hevents hslot ha,
    h.scheme_of_new hevents hslot ha, h.scheme_of_repeated hevents hslot ha⟩

end Airtime
