import Airtime.Proofs.Atomic
import Airtime.Proofs.Held
import Airtime.Proofs.SidelinkRun

/-! The channels of a cell and of a sidelink scheduler stay in their places. Whatever is asked of a
cell, the groups of a user's direction change in one of a few ways (`Groups.Change`), and none of them
leaves an uplink group without its channel. A report that is accepted has exactly one channel to go to,
and writes to nothing else. -/

namespace Airtime

theorem Group.contains_of_insert {g g' : Group} {c : Channel} (h : g.insert c = .ok g') :
    g'.contains c.id := by
  obtain rfl := Group.insert_ok h
  simp [Group.contains, Table.contains, Table.get?_insert_self]

namespace Groups

/-- What one operation can do to the groups of a user in direction `d`. -/
inductive Change (d : Direction) (gs : Groups) : Groups → Prop
  | same : Change d gs gs
  | gone : Change d gs ∅
  | downlink (r : ChannelRequest) (h : d = .downlink) : Change d gs (Cell.addDownlink gs r).1
  | uplink (r : ChannelRequest) (h : d = .uplink) : Change d gs (Cell.addUplink gs r).1
  | report (r : BufferReport Rnti) {k : GroupId} {g g' : Group} (hg : gs.get? k = some g)
      (h : g.update r = .ok g') : Change d gs (gs.insert k g')
  | filled {bytes : UInt32} {pdus : List Pdu} {gs' : Groups} (h : gs.Filled bytes pdus gs') :
      Change d gs gs'

/-- Every group has the channel of its own number. -/
def Numbered (gs : Groups) : Prop := ∀ k, (gs.get? k).isSome → (gs.channel? (k, k)).isSome

/-- The queues of a report are written to the channel that it names, which only one group has. -/
def Reported {κ : Type} (gs : Groups) (r : BufferReport κ) (gs' : Groups) : Prop :=
  ∃ k g c c', gs.get? k = some g ∧ g.channels.get? r.channel = some c ∧
    (∀ k' g', gs.get? k' = some g' → g'.contains r.channel → k' = k) ∧
    c' = { c with
      tx := r.tx, txDelay := r.txDelay, retx := r.retx, retxDelay := r.retxDelay,
      status := r.status.toUInt32 } ∧
    gs' = gs.insert k { g with channels := g.channels.insert r.channel c' }

theorem WellFormed.reported {κ : Type} {gs : Groups} (wf : gs.WellFormed) {k : GroupId}
    {g g' : Group} {r : BufferReport κ} (hg : gs.get? k = some g) (h : g.update r = .ok g') :
    gs.Reported r (gs.insert k g') := by
  obtain ⟨c, hc, rfl⟩ := update_ok h
  refine ⟨k, g, c, _, hg, hc, fun k₁ g₁ hg₁ hcontains => ?_, rfl, rfl⟩
  have hsome : (gs.channel? (k₁, r.channel)).isSome := by rwa [channel?_of_get? hg₁]
  exact congrArg Prod.fst (wf.once _ (k, r.channel) hsome (by simp [channel?_of_get? hg, hc]) rfl)

theorem WellFormed.reported_of_update {κ : Type} {gs gs' : Groups} (wf : gs.WellFormed)
    {k : GroupId} {r : BufferReport κ} (h : gs.update r = .ok (k, gs')) : gs.Reported r gs' := by
  obtain ⟨g, g', hg, hupdate, rfl⟩ := updates_ok h
  exact wf.reported hg hupdate

/-- A group that holds the channel of its number, and none of another, holds one channel. -/
theorem Numbered.keys_eq {gs : Groups} (hn : gs.Numbered)
    (paired : ∀ who, (gs.channel? who).isSome → who.2 = who.1) {k : GroupId} {g : Group}
    (hg : gs.get? k = some g) : g.channels.keys = [k] := by
  refine List.perm_singleton.mp ((List.perm_ext_iff_of_nodup g.channels.keys_nodup
    (List.nodup_singleton k)).mpr fun ch => ?_)
  rw [Table.mem_keys, ← channel?_of_get? hg, List.mem_singleton]
  constructor
  · exact paired (k, ch)
  · rintro rfl
    exact hn ch (by rw [hg]; rfl)

theorem Numbered.insert {gs : Groups} (hn : gs.Numbered) {k : GroupId} {g : Group}
    (hg : g.contains k) : Numbered (gs.insert k g) := by
  intro k' hk'
  rw [Table.get?_insert_if] at hk'
  simp only [channel?, Table.get?_insert_if]
  split at hk'
  · next he =>
    rw [if_pos he, he]
    exact hg
  · next he =>
    rw [if_neg he]
    exact hn k' hk'

theorem numbered_addUplink {gs : Groups} (wf : gs.WellFormed) (hn : gs.Numbered)
    (r : ChannelRequest) : (Cell.addUplink gs r).1.Numbered := by
  have hok := Cell.addUplink_ok wf r
  unfold Cell.addUplink at hok ⊢
  simp only at hok ⊢
  split
  · next hcontains => exact hn.insert hcontains
  · next hout =>
    rw [if_neg hout] at hok
    split
    · next he =>
      rw [he] at hok
      cases hok
    · next hinsert => exact hn.insert (Group.contains_of_insert hinsert)

theorem Change.numbered {gs gs' : Groups} (h : Change .uplink gs gs') (wf : gs.WellFormed)
    (hn : gs.Numbered) : gs'.Numbered := by
  cases h with
  | same => exact hn
  | gone => exact fun k hk => by cases hk
  | downlink r h => cases h
  | uplink r h => exact numbered_addUplink wf hn r
  | report r hg h =>
    intro k hk
    rw [isSome_channel?_update hg h]
    apply hn
    rw [Table.get?_insert_if] at hk
    split at hk
    · next he => rw [he, hg]; rfl
    · exact hk
  | filled h =>
    intro k hk
    rw [h.exists_channel]
    apply hn
    have hnamed := congrArg Option.isSome (h.named k)
    rw [Option.isSome_map, Option.isSome_map] at hnamed
    rwa [← hnamed]

end Groups

namespace Cell

variable {c c' : Cell}

def groupsOf (c : Cell) (r : Rnti) (d : Direction) : Groups :=
  ((c.user? r).map fun u => (u.link d).groups).getD ∅

theorem groupsOf_of_user {r : Rnti} {u : User} (h : c.user? r = some u) (d : Direction) :
    c.groupsOf r d = (u.link d).groups := by
  rw [groupsOf, h]
  rfl

theorem groupsOf_put (c : Cell) (u : User) (r : Rnti) (d : Direction) :
    (c.put u).groupsOf r d = if r = u.rnti then (u.link d).groups else c.groupsOf r d := by
  rw [groupsOf, user?_put]
  split
  · rfl
  · rfl

theorem groupsOf_ensureUser (c : Cell) (r : Rnti) (beam : BeamId) (r' : Rnti) (d : Direction) :
    (c.ensureUser r beam).2.groupsOf r' d = c.groupsOf r' d := by
  unfold ensureUser
  split
  · rfl
  · next hnone =>
    rw [groupsOf_put]
    split
    · next hr =>
      rw [groupsOf, show r' = r from hr, hnone]
      cases d <;> rfl
    · rfl

theorem change_put {u u' : User} (hr : u'.rnti = u.rnti)
    (hu : ∀ d, c.groupsOf u.rnti d = (u.link d).groups)
    (h : ∀ d, Groups.Change d (u.link d).groups (u'.link d).groups) (r : Rnti) (d : Direction) :
    Groups.Change d (c.groupsOf r d) ((c.put u').groupsOf r d) := by
  rw [groupsOf_put, hr]
  split
  · next he =>
    rw [he, hu]
    exact h d
  · exact .same

theorem change_setLink {u : User} {e : Direction} {s : LinkState}
    (h : Groups.Change e (u.link e).groups s.groups) (d : Direction) :
    Groups.Change d (u.link d).groups ((u.setLink e s).link d).groups := by
  by_cases hd : d = e
  · subst hd
    rwa [User.link_setLink]
  · rw [User.link_setLink_of_ne u hd]
    exact .same

theorem groupsOf_ensured (hc : c.Sound) (r : Rnti) (beam : BeamId) (d : Direction) :
    (c.ensureUser r beam).2.groupsOf (c.ensureUser r beam).1.rnti d =
      ((c.ensureUser r beam).1.link d).groups := by
  have hu := user?_ensureUser c r beam
  rw [(sound_ensureUser hc r beam).1.user_rnti hu]
  exact groupsOf_of_user hu d

theorem change_addChannel (u : User) (e : Direction) (r : ChannelRequest) :
    (addChannel u e r).1.rnti = u.rnti ∧
      (∀ d, d ≠ e → ((addChannel u e r).1.link d).groups = (u.link d).groups) ∧
      Groups.Change e (u.link e).groups ((addChannel u e r).1.link e).groups := by
  unfold addChannel
  split
  · refine ⟨u.rnti_setLink _ _, fun d hd => by rw [User.link_setLink_of_ne u hd], ?_⟩
    rw [User.link_setLink]
    cases e with
    | downlink => exact .downlink r rfl
    | uplink => exact .uplink r rfl
  · exact ⟨rfl, fun _ _ => rfl, .same⟩

theorem change_withChannel (u : User) (r : ChannelRequest) : (withChannel u r).rnti = u.rnti ∧
    ∀ d, Groups.Change d (u.link d).groups ((withChannel u r).link d).groups := by
  obtain ⟨hr, hother, hdown⟩ := change_addChannel u .downlink r
  obtain ⟨hr', hother', hup⟩ := change_addChannel (addChannel u .downlink r).1 .uplink r
  unfold withChannel
  simp only
  split
  · refine ⟨hr'.trans hr, fun d => ?_⟩
    cases d with
    | downlink => exact hother' .downlink (by decide) ▸ hdown
    | uplink => exact hother .uplink (by decide) ▸ hup
  · refine ⟨hr, fun d => ?_⟩
    cases d with
    | downlink => exact hdown
    | uplink => exact hother .uplink (by decide) ▸ .same

theorem change_configureChannel (hc : c.Sound) (q : ChannelRequest) (r : Rnti) (d : Direction) :
    Groups.Change d (c.groupsOf r d) ((c.configureChannel q).1.groupsOf r d) := by
  obtain ⟨hr, hchange⟩ := change_withChannel (c.ensureUser q.rnti ⟨0⟩).1 q
  rw [← groupsOf_ensureUser c q.rnti ⟨0⟩, configureChannel_eq_put]
  exact change_put hr (groupsOf_ensured hc q.rnti ⟨0⟩) hchange r d

theorem change_notes (hc : c.Sound) {q : Rnti} {e : Direction} (h : c.Notes q e c') (r : Rnti)
    (d : Direction) : Groups.Change d (c.groupsOf r d) (c'.groupsOf r d) := by
  cases h with
  | refused => exact .same
  | @noted u s hu h =>
    refine change_put (u.rnti_setLink _ _) (fun d => ?_) (change_setLink ?_) r d
    · rw [hc.user_rnti hu]
      exact groupsOf_of_user hu d
    · cases h with
      | @bytes r k g g' hg h => exact .report r hg h
      | quality cqi mcs => exact .same

theorem filled_scheduleSlot (hc : c.Sound) {time : SlotTime} {slot : SlotAllocation}
    (h : c.scheduleSlot time = .ok (c', slot)) (r : Rnti) (d : Direction) :
    c'.groupsOf r d = c.groupsOf r d ∨
      ∃ bytes pdus, (c.groupsOf r d).Filled bytes pdus (c'.groupsOf r d) := by
  rcases scheduleSlot_user hc h r with ⟨hnone, hnone', -⟩ | ⟨u, u', hu, hu', -, hturn⟩
  · rw [groupsOf, groupsOf, hnone, hnone']
    exact .inl rfl
  · rw [groupsOf_of_user hu, groupsOf_of_user hu']
    obtain ⟨s₁, again, new, hresent, -, ⟨halike, -⟩ | ⟨a, hopened, -⟩⟩ := hturn d
    · exact .inl (halike.groups.trans hresent.groups)
    · obtain ⟨harq, pdus, -, hfill, -⟩ := hopened.stored
      rw [hresent.groups] at hfill
      exact .inr ⟨_, _, Groups.filled_of_fill ((hc.user r u hu).2 d).groups hfill⟩

/-- Each operation changes the groups of a user's direction in one of a few ways. -/
theorem Sound.change (hc : c.Sound) {op : Operation} {slot : Option SlotAllocation}
    (h : c.perform op = .ok (c', slot)) (r : Rnti) (d : Direction) :
    Groups.Change d (c.groupsOf r d) (c'.groupsOf r d) := by
  have hknown : ∀ {r' u}, c.user? r' = some u → ∀ d, c.groupsOf u.rnti d = (u.link d).groups := by
    intro r' u hu d
    rw [hc.user_rnti hu]
    exact groupsOf_of_user hu d
  cases op with
  | configureUser rnti beam =>
    cases h
    rw [← groupsOf_ensureUser c rnti beam]
    refine change_put ?_ (groupsOf_ensured hc rnti beam) (fun d => ?_) r d
    · rfl
    · cases d <;> exact .same
  | moveUser rnti beam =>
    cases h
    rcases moveUser_cases c rnti beam with hsame | ⟨u, hu, hput⟩
    · rw [hsame]
      exact .same
    · rw [hput]
      refine change_put ?_ (hknown hu) (fun d => ?_) r d
      · rfl
      · cases d <;> exact .same
  | removeUser rnti =>
    cases h
    rw [groupsOf, groupsOf, user?_removeUser]
    split
    · exact .gone
    · exact .same
  | configureChannel q =>
    cases h
    exact change_configureChannel hc q r d
  | reportBuffer q =>
    cases h
    exact change_notes hc (c.notes_reportBuffer q) r d
  | reportGroup q =>
    cases h
    exact change_notes hc (c.notes_reportGroup q) r d
  | reportQuality q =>
    cases h
    exact change_notes hc (c.notes_reportQuality q) r d
  | feedback f =>
    cases h
    rcases feedback_cases c f with ⟨-, hsame⟩ | ⟨u, s, hu, hput, hanswered⟩
    · rw [hsame]
      exact .same
    · rw [hput]
      refine change_put (u.rnti_setLink _ _) (hknown hu) (change_setLink ?_) r d
      rcases hanswered with ⟨b, -, -, -, rfl⟩ | ⟨-, harq, rfl, -⟩
      · exact .same
      · exact .same
  | slot time =>
    simp only [Cell.perform, bind_ok_iff, pure_ok_iff, Prod.mk.injEq] at h
    obtain ⟨⟨c₁, slot'⟩, hslot, rfl, -⟩ := h
    rcases filled_scheduleSlot hc hslot r d with hsame | ⟨bytes, pdus, hfilled⟩
    · exact hsame ▸ .same
    · exact .filled hfilled

theorem Sound.groups_wellFormed (hc : c.Sound) (r : Rnti) (d : Direction) :
    (c.groupsOf r d).WellFormed := by
  cases hu : c.user? r with
  | none =>
    rw [groupsOf, hu]
    exact Groups.wellFormed_empty
  | some u =>
    rw [groupsOf_of_user hu]
    exact ((hc.user r u hu).2 d).groups

end Cell

theorem Run.numbered {config : CellConfig} {link : LinkModel} {confirming : Bool}
    {events : List Event} {c : Cell} (h : Run config link confirming events c) (r : Rnti) :
    (c.groupsOf r .uplink).Numbered := by
  induction h with
  | start h =>
    rw [(Cell.create_ok_iff.mp h).2]
    exact fun k hk => by cases hk
  | step run h ih =>
    exact (run.sound.change h r .uplink).numbered (run.sound.groups_wellFormed r .uplink) ih

/-- The channels of a cell are in their places, and each report that is accepted writes to one of
them. -/
structure Cell.Routed (c : Cell) : Prop where
  wellFormed : ∀ r u d, c.user? r = some u → (u.link d).groups.WellFormed
  uplink : ∀ r u k g, c.user? r = some u → u.uplink.groups.get? k = some g → g.channels.keys = [k]
  buffer : ∀ r c', c.reportBuffer r = (c', .ok ()) → ∃ u gs,
    c.user? r.destination = some u ∧ u.downlink.groups.Reported r gs ∧
    c' = { c with users :=
      c.users.insert r.destination (u.setLink .downlink { u.downlink with groups := gs }) }
  group : ∀ r c', c.reportGroup r = (c', .ok ()) → ∃ u gs,
    c.user? r.rnti = some u ∧
    u.uplink.groups.Reported (.newData r.rnti r.group r.bytes) gs ∧
    c' = { c with users :=
      c.users.insert r.rnti (u.setLink .uplink { u.uplink with groups := gs }) }

structure Sidelink.Routed (s : Sidelink) : Prop where
  wellFormed : ∀ id d, s.destination? id = some d → d.groups.WellFormed
  buffer : ∀ r s', s.reportBuffer r = (s', .ok ()) → ∃ d gs,
    s.destination? r.destination = some d ∧ d.groups.Reported r gs ∧
    s' = { s with destinations := s.destinations.insert r.destination { d with groups := gs } }

theorem Cell.Reachable.routed {c : Cell} (hc : c.Reachable) : c.Routed where
  wellFormed r u d hu := ((hc.sound.user r u hu).2 d).groups
  uplink r u k g hu hg := by
    obtain ⟨config, link, confirming, events, hrun⟩ := hc
    have hnumbered := hrun.numbered r
    rw [Cell.groupsOf_of_user hu] at hnumbered
    exact hnumbered.keys_eq (((hrun.sound.user r u hu).2 .uplink).uplink rfl) hg
  buffer r c' h := by
    unfold Cell.reportBuffer at h
    split at h
    · cases h
    · next u hu =>
      split at h
      · cases h
      · next hupdate =>
        cases h
        have wf := ((hc.sound.user _ u hu).2 .downlink).groups
        refine ⟨u, _, hu, wf.reported_of_update hupdate, ?_⟩
        rw [← hc.sound.user_rnti hu]
        rfl
  group r c' h := by
    unfold Cell.reportGroup at h
    split at h
    · cases h
    · next u hu =>
      split at h
      · cases h
      · next g hg =>
        split at h
        · cases h
        · next hupdate =>
          cases h
          have wf := ((hc.sound.user _ u hu).2 .uplink).groups
          refine ⟨u, _, hu, wf.reported hg hupdate, ?_⟩
          rw [← hc.sound.user_rnti hu]
          rfl

theorem Sidelink.Reachable.routed {s : Sidelink} (hs : s.Reachable) : s.Routed where
  wellFormed := hs.sound.groups
  buffer r s' h := by
    unfold Sidelink.reportBuffer at h
    split at h
    · cases h
    · next d hd =>
      split at h
      · cases h
      · next hupdate =>
        cases h
        exact ⟨d, _, hd, (hs.sound.groups _ d hd).reported_of_update hupdate, rfl⟩

/-- In every reachable state the channels are in their places: groups and channels are stored under
their own numbers, no channel is in two groups, and an uplink group holds the one channel of its
number. A report that is accepted writes its queues to one channel and changes nothing else. -/
theorem channel_maps_well_formed :
    (∀ c : Cell, c.Reachable → c.Routed) ∧ ∀ s : Sidelink, s.Reachable → s.Routed :=
  ⟨fun _ hc => hc.routed, fun _ hs => hs.routed⟩

/-- A cell with two users, and a sidelink scheduler with bytes left on one of two channels. -/
theorem channel_maps_well_formed_sample : ∃ (c : Cell) (s : Sidelink) (d : Destination),
    c.Reachable ∧ c.users.keys = [⟨1⟩, ⟨2⟩] ∧ s.Reachable ∧ s.destination? ⟨255⟩ = some d ∧
    d.groups.keys = [2, 3] ∧ d.groups.bytes = 60 ∧ c.Routed ∧ s.Routed := by
  have hcell : (sampleCell.performAll sampleOperations).toOption.any (fun x =>
      x.2.users.keys = [⟨1⟩, ⟨2⟩]) = true := by decide +kernel
  have hsidelink : (sampleSidelink.performAll sampleSidelinkOperations).toOption.any (fun x =>
      (x.2.destination? ⟨255⟩).any fun d =>
        d.groups.keys = [2, 3] ∧ d.groups.bytes = 60) = true := by decide +kernel
  obtain ⟨⟨events, c⟩, hops, hkeys⟩ := exists_ok_of_any hcell
  obtain ⟨⟨grants, s⟩, hops', hdestination⟩ := exists_ok_of_any hsidelink
  obtain ⟨d, hd, htest⟩ := (Option.any_eq_true _ _).mp hdestination
  simp only [decide_eq_true_eq] at hkeys htest
  have hc : c.Reachable := ⟨_, _, _, _, run_sample hops⟩
  have hs : s.Reachable := ⟨_, _, _, _, sidelinkRun_sample hops'⟩
  exact ⟨c, s, d, hc, hkeys, hs, hd, htest.1, htest.2, channel_maps_well_formed.1 c hc,
    channel_maps_well_formed.2 s hs⟩

end Airtime
