import Airtime.Proofs.ChannelMaps
import Airtime.Proofs.Solo

/-! Cells that are alike in a direction: the same users on the same beams, with the same state there
(`Cell.AlikeIn`). Through a slot they stay alike, and lay it out the same. For this to hold through
the other operations too, the users also have the same channels in the other direction, since the
downlink can refuse a channel for both (`Cell.Parallel`). A report keeps it, whichever direction it
is about. -/

namespace Airtime

namespace Groups

variable {gs gs' : Groups}

def SameMembers (gs gs' : Groups) : Prop :=
  ∀ who, (gs.channel? who).isSome = (gs'.channel? who).isSome

theorem SameMembers.refl (gs : Groups) : gs.SameMembers gs := fun _ => rfl

theorem SameMembers.symm (h : gs.SameMembers gs') : gs'.SameMembers gs := fun who => (h who).symm

theorem SameMembers.trans {gs'' : Groups} (h : gs.SameMembers gs') (h' : gs'.SameMembers gs'') :
    gs.SameMembers gs'' := fun who => (h who).trans (h' who)

theorem isSome_holding?_iff {ch : ChannelId} :
    (gs.holding? ch).isSome ↔ ∃ k, (gs.channel? (k, ch)).isSome := by
  constructor
  · intro h
    obtain ⟨⟨k, g⟩, hheld⟩ := Option.isSome_iff_exists.mp h
    refine ⟨k, ?_⟩
    rw [channel?_of_get? (holding?_some hheld)]
    have hcontains := List.find?_some hheld
    exact hcontains
  · rintro ⟨k, hk⟩
    by_contra hnone
    exact holding?_none (Option.not_isSome_iff_eq_none.mp hnone) _ hk rfl

theorem SameMembers.holding? (h : gs.SameMembers gs') (ch : ChannelId) :
    (gs.holding? ch).isSome = (gs'.holding? ch).isSome := by
  rw [Bool.eq_iff_iff, isSome_holding?_iff, isSome_holding?_iff]
  simp only [h _]

theorem contains_getD (gs : Groups) (k : GroupId) (ch : ChannelId) :
    ((gs.get? k).getD (.empty k)).contains ch = (gs.channel? (k, ch)).isSome := by
  cases hk : gs.get? k with
  | none => rw [channel?, hk]; rfl
  | some g => rw [channel?_of_get? hk]; rfl

end Groups

namespace Cell

theorem addDownlink_members {gs : Groups} (wf : gs.WellFormed) (r : ChannelRequest) :
    ((addDownlink gs r).2.isOk = !(gs.holding? r.channel).isSome) ∧
      ∀ who, ((addDownlink gs r).1.channel? who).isSome =
        ((gs.channel? who).isSome ||
          (!(gs.holding? r.channel).isSome && decide (who = (r.group, r.channel)))) := by
  unfold addDownlink
  split
  · next k g hheld => simp [hheld, Except.isOk, Except.toBool]
  · next hnone =>
    have hnew : gs.channel? (r.group, r.channel) = none := by
      by_contra hsome
      exact Groups.holding?_none hnone _ (Option.isSome_iff_ne_none.mpr hsome) rfl
    obtain ⟨g, hg⟩ := insert_fresh wf r.group r.channel r.priority hnew
    simp only [hg, hnone]
    refine ⟨rfl, fun who => ?_⟩
    rw [Groups.channel?_add_channel wf rfl hg]
    split
    · next hwho => simp [hwho]
    · next hwho => simp [hwho]

theorem addUplink_members {gs : Groups} (wf : gs.WellFormed) (r : ChannelRequest)
    (who : GroupId × ChannelId) : ((addUplink gs r).1.channel? who).isSome =
      ((gs.channel? who).isSome || decide (who = (r.group, r.group))) := by
  unfold addUplink
  simp only
  obtain ⟨-, hsame⟩ := Groups.ensure_group wf r.group rfl
  rw [Groups.contains_getD]
  split
  · next hin =>
    rw [hsame]
    by_cases hwho : who = (r.group, r.group)
    · simp [hwho, hin]
    · simp [hwho]
  · next hout =>
    obtain ⟨g, hg⟩ := insert_fresh wf r.group r.group r.priority
      (Option.not_isSome_iff_eq_none.mp hout)
    rw [hg]
    rw [Groups.channel?_add_channel wf rfl hg]
    split
    · next hwho => simp [hwho]
    · next hwho => simp [hwho]

end Cell

/-- Users that are alike in direction `d`, and have the same channels in the other one too. -/
structure User.Parallel (d : Direction) (u u' : User) : Prop where
  rnti : u.rnti = u'.rnti
  beam : u.beam = u'.beam
  link : u.link d = u'.link d
  members : ∀ e, (u.link e).groups.SameMembers (u'.link e).groups

namespace User.Parallel

variable {d e : Direction} {u u' u'' : User}

theorem refl (d : Direction) (u : User) : u.Parallel d u := ⟨rfl, rfl, rfl, fun _ => .refl _⟩

theorem symm (h : u.Parallel d u') : u'.Parallel d u :=
  ⟨h.rnti.symm, h.beam.symm, h.link.symm, fun e => (h.members e).symm⟩

theorem trans (h : u.Parallel d u') (h' : u'.Parallel d u'') : u.Parallel d u'' :=
  ⟨h.rnti.trans h'.rnti, h.beam.trans h'.beam, h.link.trans h'.link,
    fun e => (h.members e).trans (h'.members e)⟩

theorem withBeam (h : u.Parallel d u') (beam : BeamId) :
    User.Parallel d { u with beam } { u' with beam } where
  rnti := h.rnti
  beam := rfl
  link := by cases d <;> exact h.link
  members e := by
    cases e
    · exact h.members .downlink
    · exact h.members .uplink

theorem setLink (h : u.Parallel d u') (s : LinkState) :
    (u.setLink d s).Parallel d (u'.setLink d s) where
  rnti := by rw [User.rnti_setLink, User.rnti_setLink, h.rnti]
  beam := by rw [User.beam_setLink, User.beam_setLink, h.beam]
  link := by rw [User.link_setLink, User.link_setLink]
  members e := by
    by_cases he : e = d
    · rw [he, User.link_setLink, User.link_setLink]
      exact .refl _
    · rw [User.link_setLink_of_ne u he, User.link_setLink_of_ne u' he]
      exact h.members e

theorem setLink_of_ne (h : u.Parallel d u') (hne : d ≠ e) {s s' : LinkState}
    (hs : s.groups.SameMembers s'.groups) : (u.setLink e s).Parallel d (u'.setLink e s') where
  rnti := by rw [User.rnti_setLink, User.rnti_setLink, h.rnti]
  beam := by rw [User.beam_setLink, User.beam_setLink, h.beam]
  link := by rw [User.link_setLink_of_ne u hne, User.link_setLink_of_ne u' hne, h.link]
  members e' := by
    by_cases he : e' = e
    · rw [he, User.link_setLink, User.link_setLink]
      exact hs
    · rw [User.link_setLink_of_ne u he, User.link_setLink_of_ne u' he]
      exact h.members e'

end User.Parallel

/-- The same users on the same beams, with the same state in direction `d`. -/
structure Cell.AlikeIn (d : Direction) (c c' : Cell) : Prop where
  config : c.config = c'.config
  linkModel : c.linkModel = c'.linkModel
  users : ∀ r, (c.user? r).map (fun u => (u.beam, u.link d)) =
    (c'.user? r).map fun u => (u.beam, u.link d)

/-- Cells whose users are parallel. -/
structure Cell.Parallel (d : Direction) (c c' : Cell) : Prop where
  config : c.config = c'.config
  linkModel : c.linkModel = c'.linkModel
  users : ∀ r, c.user? r = none ∧ c'.user? r = none ∨
    ∃ u u', c.user? r = some u ∧ c'.user? r = some u' ∧ u.Parallel d u'

namespace Cell

variable {c c' c₁ c₁' : Cell} {d : Direction}

theorem Parallel.alike (h : c.Parallel d c') : c.AlikeIn d c' where
  config := h.config
  linkModel := h.linkModel
  users r := by
    rcases h.users r with ⟨hnone, hnone'⟩ | ⟨u, u', hu, hu', hp⟩
    · rw [hnone, hnone']
    · rw [hu, hu', Option.map_some, Option.map_some, hp.beam, hp.link]

theorem Parallel.user (h : c.Parallel d c') {r : Rnti} {u u' : User} (hu : c.user? r = some u)
    (hu' : c'.user? r = some u') : u.Parallel d u' := by
  rcases h.users r with ⟨hnone, -⟩ | ⟨v, v', hv, hv', hp⟩
  · rw [hu] at hnone
    cases hnone
  · obtain rfl : u = v := Option.some.inj (hu.symm.trans hv)
    obtain rfl : u' = v' := Option.some.inj (hu'.symm.trans hv')
    exact hp

theorem solo_eq_of_alike (hc : c.Sound) (hc' : c'.Sound) (h : c.AlikeIn d c') :
    c.solo d = c'.solo d := by
  have husers : c.users.map (User.solo d) = c'.users.map (User.solo d) := by
    refine Table.ext_get? fun r => ?_
    rw [Table.get?_map, Table.get?_map, ← user?, ← user?]
    have hr := h.users r
    cases hu : c.user? r with
    | none =>
      rw [hu] at hr
      rw [Option.map_eq_none_iff.mp hr.symm]
    | some u =>
      rw [hu] at hr
      obtain ⟨u', hu', hsame⟩ := Option.map_eq_some_iff.mp hr.symm
      obtain ⟨hbeam, hlink⟩ := Prod.mk.inj hsame
      rw [hu', Option.map_some, Option.map_some, User.solo, User.solo, hbeam, hlink,
        hc.user_rnti hu, hc'.user_rnti hu']
  simp only [solo, husers, h.config, h.linkModel]

theorem alike_of_solo_eq (h : c.solo d = c'.solo d) : c.AlikeIn d c' where
  config := (congrArg Cell.config h :)
  linkModel := (congrArg Cell.linkModel h :)
  users r := by
    have hr : ((c.solo d).user? r).map (fun u => (u.beam, u.link d)) =
        ((c'.solo d).user? r).map fun u => (u.beam, u.link d) := by rw [h]
    simpa only [user?_solo, Option.map_map, Function.comp_def, User.beam_solo, User.link_solo]
      using hr

theorem solo_of_scheduleDirection {e : Direction} {draft : Draft} (hc : c.Sound) (hne : d ≠ e)
    (h : c.scheduleDirection e = .ok (c₁, draft)) : c₁.solo d = c.solo d := by
  have husers : c₁.users.map (User.solo d) = c.users.map (User.solo d) := by
    refine Table.ext_get? fun r => ?_
    rw [Table.get?_map, Table.get?_map, ← user?, ← user?]
    rcases scheduleDirection_user hc h r with ⟨hnone, hnone', -⟩ | ⟨u, s, hu, hu', -⟩
    · rw [hnone, hnone']
    · rw [hu, hu', Option.map_some, Option.map_some, User.solo_setLink_of_ne hne]
  rw [scheduleDirection_frame h, solo, solo]
  simp only [husers]

/-- Cells that are alike in a direction lay it out the same, and stay alike there. -/
theorem AlikeIn.scheduleSlot {time time' : SlotTime} {slot slot' : SlotAllocation} (hc : c.Sound)
    (hc' : c'.Sound) (halike : c.AlikeIn d c') (h : c.scheduleSlot time = .ok (c₁, slot))
    (h' : c'.scheduleSlot time' = .ok (c₁', slot')) :
    slot.assignments d = slot'.assignments d ∧ slot.symbols d = slot'.symbols d ∧
      c₁.AlikeIn d c₁' := by
  have hsolo := solo_eq_of_alike hc hc' halike
  obtain ⟨c₂, down, up, hdown, hup, rfl⟩ := scheduleSlot_ok h
  obtain ⟨c₂', down', up', hdown', hup', rfl⟩ := scheduleSlot_ok h'
  have hc₂ := hc.scheduleDirection hdown
  have hc₂' := hc'.scheduleDirection hdown'
  cases d with
  | downlink =>
    have hsame := (hsolo ▸ scheduleDirection_solo hdown).symm.trans (scheduleDirection_solo hdown')
    obtain ⟨hsolo₂, rfl⟩ := Prod.mk.inj (Except.ok.inj hsame)
    refine ⟨rfl, rfl, alike_of_solo_eq ?_⟩
    rw [solo_of_scheduleDirection hc₂ (by decide) hup,
      solo_of_scheduleDirection hc₂' (by decide) hup', hsolo₂]
  | uplink =>
    have hsolo₂ : c₂.solo .uplink = c₂'.solo .uplink := by
      rw [solo_of_scheduleDirection hc (by decide) hdown,
        solo_of_scheduleDirection hc' (by decide) hdown', hsolo]
    have hsame := (hsolo₂ ▸ scheduleDirection_solo hup).symm.trans (scheduleDirection_solo hup')
    obtain ⟨hsolo₁, rfl⟩ := Prod.mk.inj (Except.ok.inj hsame)
    exact ⟨rfl, rfl, alike_of_solo_eq hsolo₁⟩

theorem members_scheduleSlot {time : SlotTime} {slot : SlotAllocation} (hc : c.Sound)
    (h : c.scheduleSlot time = .ok (c₁, slot)) {r : Rnti} {u u₁ : User} (hu : c.user? r = some u)
    (hu₁ : c₁.user? r = some u₁) (e : Direction) :
    (u₁.link e).groups.SameMembers (u.link e).groups := by
  intro who
  rw [← groupsOf_of_user hu, ← groupsOf_of_user hu₁]
  rcases filled_scheduleSlot hc h r e with hsame | ⟨bytes, pdus, hfilled⟩
  · rw [hsame]
  · exact hfilled.exists_channel who

theorem Parallel.scheduleSlot {time time' : SlotTime} {slot slot' : SlotAllocation} (hc : c.Sound)
    (hc' : c'.Sound) (hp : c.Parallel d c') (h : c.scheduleSlot time = .ok (c₁, slot))
    (h' : c'.scheduleSlot time' = .ok (c₁', slot')) : c₁.Parallel d c₁' := by
  obtain ⟨-, -, halike⟩ := hp.alike.scheduleSlot hc hc' h h'
  refine ⟨halike.config, halike.linkModel, fun r => ?_⟩
  have hafter := halike.users r
  rcases scheduleSlot_user hc h r with ⟨hu, hu₁, -⟩ | ⟨u, u₁, hu, hu₁, -, -⟩
  · rw [hu₁] at hafter
    exact .inl ⟨hu₁, Option.map_eq_none_iff.mp hafter.symm⟩
  · rcases scheduleSlot_user hc' h' r with ⟨hu', hu₁', -⟩ | ⟨u', u₁', hu', hu₁', -, -⟩
    · rw [hu₁, hu₁'] at hafter
      cases hafter
    · rw [hu₁, hu₁'] at hafter
      obtain ⟨hbeam, hlink⟩ := Prod.mk.inj (Option.some.inj hafter)
      have hrnti : u₁.rnti = u₁'.rnti := by
        rw [(hc.scheduleSlot h).user_rnti hu₁, (hc'.scheduleSlot h').user_rnti hu₁']
      have hbefore := hp.user hu hu'
      exact .inr ⟨u₁, u₁', hu₁, hu₁', hrnti, hbeam, hlink,
        fun e => (members_scheduleSlot hc h hu hu₁ e).trans
          ((hbefore.members e).trans (members_scheduleSlot hc' h' hu' hu₁' e).symm)⟩

theorem Parallel.refl (d : Direction) (c : Cell) : c.Parallel d c where
  config := rfl
  linkModel := rfl
  users r := by
    cases hu : c.user? r with
    | none => exact .inl ⟨rfl, rfl⟩
    | some u => exact .inr ⟨u, u, rfl, rfl, .refl d u⟩

theorem Parallel.symm (h : c.Parallel d c') : c'.Parallel d c where
  config := h.config.symm
  linkModel := h.linkModel.symm
  users r := by
    rcases h.users r with ⟨hnone, hnone'⟩ | ⟨u, u', hu, hu', hp⟩
    · exact .inl ⟨hnone', hnone⟩
    · exact .inr ⟨u', u, hu', hu, hp.symm⟩

theorem Parallel.trans {c'' : Cell} (h : c.Parallel d c') (h' : c'.Parallel d c'') :
    c.Parallel d c'' where
  config := h.config.trans h'.config
  linkModel := h.linkModel.trans h'.linkModel
  users r := by
    rcases h.users r with ⟨hnone, hnone'⟩ | ⟨u, u', hu, hu', hp⟩
    · rcases h'.users r with ⟨-, hnone''⟩ | ⟨u', -, hu', -⟩
      · exact .inl ⟨hnone, hnone''⟩
      · rw [hnone'] at hu'
        cases hu'
    · rcases h'.users r with ⟨hnone', -⟩ | ⟨v', u'', hv', hu'', hp'⟩
      · rw [hu'] at hnone'
        cases hnone'
      · obtain rfl : u' = v' := Option.some.inj (hu'.symm.trans hv')
        exact .inr ⟨u, u'', hu, hu'', hp.trans hp'⟩

theorem Parallel.put (h : c.Parallel d c') {u u' : User} (hu : u.Parallel d u') :
    (c.put u).Parallel d (c'.put u') where
  config := h.config
  linkModel := h.linkModel
  users r := by
    rw [user?_put, user?_put, hu.rnti]
    split
    · exact .inr ⟨u, u', rfl, rfl, hu⟩
    · exact h.users r

/-- What is put in place of a user and differs in the other direction only, where it has the same
channels. -/
theorem parallel_put {u u' : User} (hu : c.user? u.rnti = some u) (hp : u.Parallel d u') :
    c.Parallel d (c.put u') := by
  have h := (Parallel.refl d c).put hp
  rwa [put_of_user? hu] at h

theorem Parallel.ensureUser (h : c.Parallel d c') (r : Rnti) (beam : BeamId) :
    (c.ensureUser r beam).1.Parallel d (c'.ensureUser r beam).1 ∧
      (c.ensureUser r beam).2.Parallel d (c'.ensureUser r beam).2 := by
  rcases h.users r with ⟨hnone, hnone'⟩ | ⟨u, u', hu, hu', hp⟩
  · have hfresh : c.freshUser r beam = c'.freshUser r beam := by
      simp only [freshUser, h.config]
    simp only [Cell.ensureUser, hnone, hnone', hfresh]
    exact ⟨.refl d _, h.put (.refl d _)⟩
  · simp only [Cell.ensureUser, hu, hu']
    exact ⟨hp, h⟩

theorem addChannel_parallel {config : CellConfig} {u u' : User} (hu : u.Sound config)
    (hu' : u'.Sound config) (h : u.Parallel d u') (e : Direction) (r : ChannelRequest) :
    (addChannel u e r).2.isOk = (addChannel u' e r).2.isOk ∧
      (addChannel u e r).1.Parallel d (addChannel u' e r).1 := by
  unfold addChannel
  split
  · by_cases he : e = d
    · subst he
      rw [h.link]
      exact ⟨rfl, h.setLink _⟩
    · cases e with
      | downlink =>
        have hmembers := h.members .downlink
        obtain ⟨hok, hadded⟩ := addDownlink_members (hu .downlink).groups r
        obtain ⟨hok', hadded'⟩ := addDownlink_members (hu' .downlink).groups r
        refine ⟨?_, h.setLink_of_ne (Ne.symm he) fun who => ?_⟩
        · simp only [hok, hok', hmembers.holding?]
        · simp only [hadded, hadded', hmembers.holding?, hmembers who]
      | uplink =>
        refine ⟨?_, h.setLink_of_ne (Ne.symm he) fun who => ?_⟩
        · simp only [addUplink_ok (hu .uplink).groups, addUplink_ok (hu' .uplink).groups]
        · simp only [addUplink_members (hu .uplink).groups, addUplink_members (hu' .uplink).groups,
            h.members .uplink who]
  · exact ⟨rfl, h⟩

theorem withChannel_parallel {config : CellConfig} {u u' : User} (hu : u.Sound config)
    (hu' : u'.Sound config) (h : u.Parallel d u') (r : ChannelRequest) :
    (withChannel u r).Parallel d (withChannel u' r) := by
  obtain ⟨hok, hdown⟩ := addChannel_parallel hu hu' h .downlink r
  obtain ⟨-, hup⟩ := addChannel_parallel (sound_addChannel hu .downlink r)
    (sound_addChannel hu' .downlink r) hdown .uplink r
  unfold withChannel
  simp only [hok]
  split
  · exact hup
  · exact hdown

theorem Parallel.configureChannel (hc : c.Sound) (hc' : c'.Sound) (h : c.Parallel d c')
    (r : ChannelRequest) : (c.configureChannel r).1.Parallel d (c'.configureChannel r).1 := by
  obtain ⟨hu, hcell⟩ := h.ensureUser r.rnti ⟨0⟩
  obtain ⟨-, hsound⟩ := sound_ensureUser hc r.rnti ⟨0⟩
  obtain ⟨-, hsound'⟩ := sound_ensureUser hc' r.rnti ⟨0⟩
  rw [← hcell.config] at hsound'
  rw [configureChannel_eq_put, configureChannel_eq_put]
  exact hcell.put (withChannel_parallel hsound hsound' hu r)

theorem Parallel.configureUser (h : c.Parallel d c') (r : Rnti) (beam : BeamId) :
    (c.configureUser r beam).Parallel d (c'.configureUser r beam) := by
  obtain ⟨hu, hc⟩ := h.ensureUser r beam
  exact hc.put (hu.withBeam beam)

theorem Parallel.moveUser (h : c.Parallel d c') (r : Rnti) (beam : BeamId) :
    (c.moveUser r beam).1.Parallel d (c'.moveUser r beam).1 := by
  rcases h.users r with ⟨hnone, hnone'⟩ | ⟨u, u', hu, hu', hp⟩
  · simp only [Cell.moveUser, hnone, hnone']
    exact h
  · simp only [Cell.moveUser, hu, hu']
    exact h.put (hp.withBeam beam)

theorem Parallel.removeUser (h : c.Parallel d c') (r : Rnti) :
    (c.removeUser r).1.Parallel d (c'.removeUser r).1 where
  config := calc
    (c.removeUser r).1.config = c.config := by rw [removeUser_frame]
    _ = c'.config := h.config
    _ = (c'.removeUser r).1.config := by rw [removeUser_frame]
  linkModel := calc
    (c.removeUser r).1.linkModel = c.linkModel := by rw [removeUser_frame]
    _ = c'.linkModel := h.linkModel
    _ = (c'.removeUser r).1.linkModel := by rw [removeUser_frame]
  users r' := by
    rw [user?_removeUser, user?_removeUser]
    split
    · exact .inl ⟨rfl, rfl⟩
    · exact h.users r'

theorem Parallel.reportBuffer (h : c.Parallel .downlink c') (r : BufferReport Rnti) :
    (c.reportBuffer r).1.Parallel .downlink (c'.reportBuffer r).1 := by
  rcases h.users r.destination with ⟨hnone, hnone'⟩ | ⟨u, u', hu, hu', hp⟩
  · simp only [Cell.reportBuffer, hnone, hnone']
    exact h
  · have hlink : u.downlink = u'.downlink := hp.link
    simp only [Cell.reportBuffer, hu, hu', ← hlink]
    split
    · exact h
    · rw [User.modify, User.modify, ← hp.link]
      exact h.put (hp.setLink _)

theorem Parallel.reportGroup (h : c.Parallel .uplink c') (r : GroupReport) :
    (c.reportGroup r).1.Parallel .uplink (c'.reportGroup r).1 := by
  rcases h.users r.rnti with ⟨hnone, hnone'⟩ | ⟨u, u', hu, hu', hp⟩
  · simp only [Cell.reportGroup, hnone, hnone']
    exact h
  · have hlink : u.uplink = u'.uplink := hp.link
    simp only [Cell.reportGroup, hu, hu', ← hlink]
    split
    · exact h
    · split
      · exact h
      · rw [User.modify, User.modify, ← hp.link]
        exact h.put (hp.setLink _)

theorem Parallel.reportQuality (h : c.Parallel d c') {r : QualityReport} (hr : r.direction = d) :
    (c.reportQuality r).1.Parallel d (c'.reportQuality r).1 := by
  subst hr
  rcases h.users r.rnti with ⟨hnone, hnone'⟩ | ⟨u, u', hu, hu', hp⟩
  · simp only [Cell.reportQuality, hnone, hnone']
    exact h
  · simp only [Cell.reportQuality, hu, hu', h.config, h.linkModel]
    rw [User.modify, User.modify, ← hp.link]
    exact h.put (hp.setLink _)

theorem Parallel.feedback (h : c.Parallel d c') {f : Feedback} (hf : f.direction = d) :
    (c.feedback f).1.Parallel d (c'.feedback f).1 := by
  subst hf
  rcases h.users f.rnti with ⟨hnone, hnone'⟩ | ⟨u, u', hu, hu', hp⟩
  · simp only [Cell.feedback, hnone, hnone']
    exact h
  · simp only [Cell.feedback, hu, hu', h.config, ← hp.link]
    split
    · exact h.put (hp.setLink _)
    · split
      · exact h.put (hp.setLink _)
      · exact h.put (hp.setLink _)

/-- A report of the other direction changes nothing in direction `d`, and no channel's place. -/
theorem parallel_put_setLink (hc : c.Sound) {r : Rnti} {u : User} (hu : c.user? r = some u)
    {e : Direction} (hne : d ≠ e) {s : LinkState} (hs : (u.link e).groups.SameMembers s.groups) :
    c.Parallel d (c.put (u.setLink e s)) := by
  have hp := (User.Parallel.refl d u).setLink_of_ne hne hs
  rw [User.setLink_link] at hp
  refine parallel_put ?_ hp
  rwa [hc.user_rnti hu]

theorem parallel_notes (hc : c.Sound) {r : Rnti} {e : Direction} (hd : d ≠ e)
    (h : c.Notes r e c₁) : c.Parallel d c₁ := by
  cases h with
  | refused => exact .refl d c
  | noted hu h =>
    refine parallel_put_setLink hc hu hd ?_
    cases h with
    | bytes hg h => exact fun who => (Groups.isSome_channel?_update hg h who).symm
    | quality cqi mcs => exact .refl _

theorem parallel_feedback (hc : c.Sound) {f : Feedback} (hd : d ≠ f.direction) :
    c.Parallel d (c.feedback f).1 := by
  rcases feedback_cases c f with ⟨-, hsame⟩ | ⟨u, s, hu, hput, hanswered⟩
  · rw [hsame]
    exact .refl d c
  · rw [hput]
    refine parallel_put_setLink hc hu hd ?_
    rcases hanswered with ⟨b, -, -, -, rfl⟩ | ⟨-, harq, rfl, -⟩
    · exact .refl _
    · exact .refl _

end Cell

end Airtime
