import Airtime.Proofs.ChannelMaps
import Airtime.Proofs.Counting
import Airtime.Proofs.SlotRange

/-! The traffic of a simulated cell. Each user has one channel in each direction that ever carries
bytes, and only new data is reported for it, so that the bytes of a direction are one queue and fit
into a word. That keeps every slot in range. -/

namespace Airtime

namespace Groups

/-- A channel is there, and no other one has bytes waiting. -/
structure OnlyAt (gs : Groups) (who : GroupId × ChannelId) : Prop where
  there : (gs.channel? who).isSome
  others : ∀ w c, gs.channel? w = some c → w ≠ who → c.bytes = 0

variable {gs gs' : Groups} {who : GroupId × ChannelId} {k : GroupId}

theorem OnlyAt.bytes_eq (h : gs.OnlyAt who) {c : Channel} (hc : gs.channel? who = some c) :
    gs.bytes = c.bytes := by
  obtain ⟨g, hg, hgc⟩ := channel?_some_iff.mp hc
  have hzero : bytes (gs.insert who.1
      { g with channels := g.channels.insert who.2 (.fresh who.2 who.1 0) }) = 0 := by
    rw [bytes_eq_zero_iff]
    intro w c' hc'
    rw [channel?_insert hg] at hc'
    split at hc'
    · cases hc'
      rfl
    · next hw => exact h.others w c' hc' hw
  have hinsert := bytes_insert hg hgc (.fresh who.2 who.1 0)
  rw [hzero, Nat.zero_add] at hinsert
  exact hinsert.symm

theorem OnlyAt.update {κ : Type} {r : BufferReport κ} (h : gs.OnlyAt (k, r.channel)) :
    ∃ g g', gs.get? k = some g ∧ g.update r = .ok g' ∧
      OnlyAt (gs.insert k g') (k, r.channel) ∧
      bytes (gs.insert k g') = r.tx.toNat + r.retx.toNat + r.status.toNat := by
  obtain ⟨c, hc⟩ := Option.isSome_iff_exists.mp h.there
  obtain ⟨g, hg, hgc⟩ := channel?_some_iff.mp hc
  have hupdate : g.update r =
      .ok { g with channels := g.channels.insert r.channel (c.update r) } := by
    unfold Group.update
    simp only at hgc
    rw [hgc]
  have honly : OnlyAt (gs.insert k { g with
      channels := g.channels.insert r.channel (c.update r) }) (k, r.channel) := by
    constructor
    · rw [channel?_insert hg, if_pos rfl]
      rfl
    · intro w c' hc' hw
      rw [channel?_insert hg, if_neg hw] at hc'
      exact h.others w c' hc' hw
  refine ⟨g, _, hg, hupdate, honly, ?_⟩
  rw [honly.bytes_eq (c := c.update r) (by rw [channel?_insert hg, if_pos rfl])]
  simp [Channel.bytes, Channel.update]

theorem OnlyAt.updates {κ : Type} {r : BufferReport κ} (h : gs.OnlyAt (k, r.channel))
    (wf : gs.WellFormed) : ∃ gs', gs.update r = .ok (k, gs') ∧ gs'.OnlyAt (k, r.channel) ∧
      gs'.bytes = r.tx.toNat + r.retx.toNat + r.status.toNat := by
  obtain ⟨g, g', hg, hupdate, honly, hbytes⟩ := h.update
  refine ⟨_, ?_, honly, hbytes⟩
  unfold Groups.update
  cases hheld : gs.holding? r.channel with
  | none => exact absurd rfl (holding?_none hheld _ h.there)
  | some e =>
    obtain ⟨k', g₁⟩ := e
    have hcontains : g₁.contains r.channel = true := List.find?_some (p := fun e : GroupId × Group =>
      e.2.contains r.channel) hheld
    have hg₁ := holding?_some hheld
    have hsome : (gs.channel? (k', r.channel)).isSome := by rwa [channel?_of_get? hg₁]
    obtain rfl : k' = k := congrArg Prod.fst (wf.once _ (k, r.channel) hsome h.there rfl)
    rw [hg, Option.some.injEq] at hg₁
    simp only [← hg₁, hupdate]
    rfl

theorem OnlyAt.filled {bytes : UInt32} {pdus : List Pdu} (h : gs.OnlyAt who)
    (hf : gs.Filled bytes pdus gs') : gs'.OnlyAt who where
  there := by
    rw [hf.exists_channel]
    exact h.there
  others w c hc hw := by
    -- An empty channel gives no part of the block.
    have hspared : w ∉ pdus.map source := by
      intro hmem
      obtain ⟨p, hp, rfl⟩ := List.mem_map.mp hmem
      obtain ⟨c₀, hc₀, hle, -⟩ := hf.taken p hp
      have hzero := h.others _ c₀ hc₀ hw
      exact hf.size_ne p hp (UInt32.toNat_inj.mp (by simpa using by omega))
    rw [hf.spared w hspared] at hc
    exact h.others w c hc hw

end Groups

/-- The channel that carries the bytes of a flow in one direction. In the downlink it may be in any
group; in the uplink it is the one of the flow's group. -/
def Flow.Uses (f : Flow) (gs : Groups) : Direction → Prop
  | .downlink => ∃ k, gs.OnlyAt (k, f.channel)
  | .uplink => gs.OnlyAt (f.group, f.group)

theorem Flow.Uses.filled {f : Flow} {gs gs' : Groups} {d : Direction} {bytes : UInt32}
    {pdus : List Pdu} (h : f.Uses gs d) (hf : gs.Filled bytes pdus gs') : f.Uses gs' d := by
  cases d with
  | downlink =>
    obtain ⟨k, hk⟩ := h
    exact ⟨k, hk.filled hf⟩
  | uplink => exact Groups.OnlyAt.filled h hf

def SameChannels (flows flows' : Table Rnti Flow) : Prop :=
  ∀ r, (flows'.get? r).map (fun f => (f.channel, f.group)) =
    (flows.get? r).map fun f => (f.channel, f.group)

/-- Every user has traffic and nobody else does. Its channels are set up, and what waits on them can be
counted. -/
structure Cell.Carries (c : Cell) (flows : Table Rnti Flow) : Prop where
  known : ∀ r, (c.user? r).isSome = (flows.get? r).isSome
  uses : ∀ r f d, flows.get? r = some f → f.Uses (c.groupsOf r d) d
  fits : ∀ r d, (c.groupsOf r d).bytes < UInt32.size

namespace Cell

variable {c c' : Cell} {flows flows' : Table Rnti Flow}

theorem isSome_user?_put {u u' : User} (hu : c.user? u'.rnti = some u) (r : Rnti) :
    ((c.put u').user? r).isSome = (c.user? r).isSome := by
  rw [user?_put]
  split
  · next he => rw [he, hu]; rfl
  · rfl

theorem groupsOf_put_setLink {r : Rnti} {u : User} (hu : c.user? r = some u) (hr : u.rnti = r)
    (d : Direction) (s : LinkState) (r' : Rnti) (d' : Direction) :
    (c.put (u.setLink d s)).groupsOf r' d' =
      if r' = r ∧ d' = d then s.groups else c.groupsOf r' d' := by
  rw [groupsOf_put, User.rnti_setLink, hr]
  by_cases he : r' = r
  · subst he
    by_cases hd : d' = d
    · subst hd
      simp
    · rw [if_pos rfl, if_neg fun h => hd h.2, User.link_setLink_of_ne u hd, groupsOf_of_user hu]
  · rw [if_neg he, if_neg fun h => he h.1]

theorem user?_of_carries (h : c.Carries flows) {r : Rnti} {f : Flow} (hf : flows.get? r = some f) :
    ∃ u, c.user? r = some u :=
  Option.isSome_iff_exists.mp (by rw [h.known, hf]; rfl)

theorem Carries.congr (h : c.Carries flows) (hflows : SameChannels flows flows') :
    c.Carries flows' := by
  have hback : ∀ r f', flows'.get? r = some f' →
      ∃ f, flows.get? r = some f ∧ f.channel = f'.channel ∧ f.group = f'.group := by
    intro r f' hf'
    have hsame := hflows r
    rw [hf'] at hsame
    obtain ⟨f, hf, he⟩ := Option.map_eq_some_iff.mp hsame.symm
    exact ⟨f, hf, (Prod.mk.inj he).1, (Prod.mk.inj he).2⟩
  refine ⟨fun r => ?_, fun r f' d hf' => ?_, h.fits⟩
  · have hsame := congrArg Option.isSome (hflows r)
    rw [Option.isSome_map, Option.isSome_map] at hsame
    rw [h.known, hsame]
  · obtain ⟨f, hf, hchannel, hgroup⟩ := hback r f' hf'
    have huses := h.uses r f d hf
    cases d with
    | downlink =>
      obtain ⟨k, hk⟩ := huses
      exact ⟨k, hchannel ▸ hk⟩
    | uplink =>
      rw [Flow.Uses, ← hgroup]
      exact huses

theorem Carries.put_setLink (h : c.Carries flows) {r : Rnti} {u : User} (hu : c.user? r = some u)
    (hr : u.rnti = r) {d : Direction} {s : LinkState}
    (huses : ∀ f, flows.get? r = some f → f.Uses s.groups d)
    (hbytes : s.groups.bytes < UInt32.size) : (c.put (u.setLink d s)).Carries flows := by
  refine ⟨fun r' => ?_, fun r' f d' hf => ?_, fun r' d' => ?_⟩
  · rw [← h.known]
    exact isSome_user?_put (by rw [User.rnti_setLink, hr, hu]) r'
  · rw [groupsOf_put_setLink hu hr]
    split
    · next he =>
      obtain ⟨rfl, rfl⟩ := he
      exact huses f hf
    · exact h.uses r' f d' hf
  · rw [groupsOf_put_setLink hu hr]
    split
    · exact hbytes
    · exact h.fits r' d'

theorem Carries.feedback (h : c.Carries flows) (hc : c.Sound) (f : Feedback) :
    (c.feedback f).1.Carries flows := by
  rcases feedback_cases c f with ⟨-, hsame⟩ | ⟨u, s, hu, hput, hanswered⟩
  · rwa [hsame]
  · have hgroups : s.groups = c.groupsOf f.rnti f.direction := by
      rw [groupsOf_of_user hu]
      rcases hanswered with ⟨b, -, -, -, rfl⟩ | ⟨-, harq, rfl, -⟩
      · rfl
      · rfl
    rw [hput]
    refine h.put_setLink hu (hc.user_rnti hu) (fun f' hf' => ?_) ?_
    · rw [hgroups]
      exact h.uses f.rnti f' f.direction hf'
    · rw [hgroups]
      exact h.fits f.rnti f.direction

theorem Carries.scheduleSlot (h : c.Carries flows) (hc : c.Sound) {time : SlotTime}
    {slot : SlotAllocation} (hslot : c.scheduleSlot time = .ok (c', slot)) : c'.Carries flows := by
  refine ⟨fun r => ?_, fun r f d hf => ?_, fun r d => ?_⟩
  · rw [← h.known]
    rcases scheduleSlot_user hc hslot r with ⟨hnone, hnone', -⟩ | ⟨u, u', hu, hu', -⟩
    · rw [hnone, hnone']
    · rw [hu, hu']
      rfl
  · have huses := h.uses r f d hf
    rcases filled_scheduleSlot hc hslot r d with hsame | ⟨bytes, pdus, hfilled⟩
    · rwa [hsame]
    · exact huses.filled hfilled
  · have hlt := h.fits r d
    rcases filled_scheduleSlot hc hslot r d with hsame | ⟨bytes, pdus, hfilled⟩
    · rwa [hsame]
    · have := hfilled.bytes_left
      omega

/-- What reports of new data leave alone. -/
structure Refilled (c : Cell) (flows : Table Rnti Flow) (c' : Cell) : Prop where
  sound : c'.Sound
  carries : c'.Carries flows
  config : c'.config = c.config
  held : ∀ p, c'.held? p = c.held? p

theorem Refilled.trans {c'' : Cell} (h : c.Refilled flows c') (h' : c'.Refilled flows c'') :
    c.Refilled flows c'' :=
  ⟨h'.sound, h'.carries, h'.config.trans h.config, fun p => (h'.held p).trans (h.held p)⟩

theorem reportBuffer_ok (hc : c.Sound) (h : c.Carries flows) {r : Rnti} {f : Flow}
    (hf : flows.get? r = some f) (bytes : UInt32) :
    ∃ c', accepted (c.reportBuffer (.newData r f.channel bytes)) = .ok (c', ()) ∧
      c.Refilled flows c' := by
  obtain ⟨u, hu⟩ := user?_of_carries h hf
  obtain ⟨k, honly⟩ := h.uses r f .downlink hf
  have wf := hc.groups_wellFormed r .downlink
  rw [groupsOf_of_user hu] at honly wf
  obtain ⟨gs, hupdate, honly', hbytes⟩ :=
    Groups.OnlyAt.updates (r := BufferReport.newData r f.channel bytes) honly wf
  have hreport : c.reportBuffer (.newData r f.channel bytes) =
      (c.put (u.modify .downlink ({ · with groups := gs })), .ok ()) := by
    unfold Cell.reportBuffer
    simp only [BufferReport.newData, hu]
    simp only [User.link, BufferReport.newData] at hupdate
    rw [hupdate]
  have hsound := hc.notes (c.notes_reportBuffer (.newData r f.channel bytes))
  have hheld := hc.held?_notes (c.notes_reportBuffer (.newData r f.channel bytes))
  rw [hreport] at hsound hheld ⊢
  refine ⟨_, rfl, hsound, h.put_setLink hu (hc.user_rnti hu) (fun f' hf' => ?_) ?_, rfl, hheld⟩
  · rw [hf, Option.some.injEq] at hf'
    exact hf' ▸ ⟨k, honly'⟩
  · simp only [hbytes]
    simpa [BufferReport.newData] using bytes.toNat_lt_size

theorem reportGroup_ok (hc : c.Sound) (h : c.Carries flows) {r : Rnti} {f : Flow}
    (hf : flows.get? r = some f) (bytes : UInt32) :
    ∃ c', accepted (c.reportGroup ⟨r, f.group, bytes⟩) = .ok (c', ()) ∧ c.Refilled flows c' := by
  obtain ⟨u, hu⟩ := user?_of_carries h hf
  have honly := h.uses r f .uplink hf
  rw [groupsOf_of_user hu] at honly
  obtain ⟨g, g', hg, hupdate, honly', hbytes⟩ :=
    Groups.OnlyAt.update (r := BufferReport.newData r f.group bytes) honly
  have hreport : c.reportGroup ⟨r, f.group, bytes⟩ = (c.put (u.modify .uplink
      ({ · with groups := u.uplink.groups.insert f.group g' })), .ok ()) := by
    unfold Cell.reportGroup
    simp only [User.link] at hg
    simp only [hu, hg, hupdate]
  have hsound := hc.notes (c.notes_reportGroup ⟨r, f.group, bytes⟩)
  have hheld := hc.held?_notes (c.notes_reportGroup ⟨r, f.group, bytes⟩)
  rw [hreport] at hsound hheld ⊢
  refine ⟨_, rfl, hsound, h.put_setLink hu (hc.user_rnti hu) (fun f' hf' => ?_) ?_, rfl, hheld⟩
  · rw [hf, Option.some.injEq] at hf'
    exact hf' ▸ honly'
  · change Groups.bytes (Table.insert (u.link .uplink).groups f.group g') < _
    rw [hbytes]
    simpa [BufferReport.newData] using bytes.toNat_lt_size

/-- No slot of a cell with traffic leaves the range of a computation, if the band and the symbols of
a slot are counted by half words. -/
theorem Carries.succeeds_scheduleSlot (h : c.Carries flows) (hc : c.Sound)
    (hband : c.config.groups.toNat * c.config.blocksPerGroup.toNat < 65536)
    (hsymbols : c.config.symbols.toNat < 65536) (time : SlotTime) :
    Succeeds (c.scheduleSlot time) := by
  have hgrid : c.config.symbols.toNat * c.config.groups.toNat * c.config.blocksPerGroup.toNat <
      UInt32.size := by
    rw [Nat.mul_assoc]
    calc c.config.symbols.toNat * (c.config.groups.toNat * c.config.blocksPerGroup.toNat)
        ≤ 65535 * 65535 := Nat.mul_le_mul (by omega) (by omega)
      _ < UInt32.size := by decide
  have hfits : ∀ r u d, c.user? r = some u → (u.link d).groups.bytes < UInt32.size := by
    intro r u d hu
    rw [← groupsOf_of_user hu]
    exact h.fits r d
  have hdemand : ∀ d, c.config.symbols.toNat *
      (c.users.sumOf fun u => (u.link d).groups.bytes) < UInt64.size := by
    intro d
    have hsum := Table.sumOf_le (fun u : User => (u.link d).groups.bytes) (t := c.users)
      (n := UInt32.size - 1) fun r u hu => Nat.le_pred_of_lt (hfits r u d hu)
    have hsize := c.users.size_le fun r : Rnti => r.value.toNat_lt_size
    calc c.config.symbols.toNat * (c.users.sumOf fun u => (u.link d).groups.bytes)
        ≤ 65535 * (UInt16.size * (UInt32.size - 1)) :=
          Nat.mul_le_mul (by omega) (hsum.trans (Nat.mul_le_mul_right _ hsize))
      _ < UInt64.size := by decide
  exact Cell.succeeds_scheduleSlot hc
    (fun d => ⟨hgrid, fun r u => hfits r u d, fun _ => hdemand d⟩) time

end Cell

end Airtime
