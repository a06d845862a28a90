import Airtime.Proofs.SimulatorSlot

/-! Simulations of scenarios. While users and destinations are connected nothing waits and nothing is
sent, so a simulation starts in a steady state. From there on every slot succeeds, and feedback stays
matched with the blocks on their way. -/

namespace Airtime

namespace Groups

variable {gs : Groups} {who : GroupId × ChannelId}

theorem onlyAt_of_silent (hsilent : gs.bytes = 0) (h : (gs.channel? who).isSome) : gs.OnlyAt who :=
  ⟨h, fun w c hc _ => bytes_eq_zero_iff.mp hsilent w c hc⟩

theorem add_channel_silent (wf : gs.WellFormed) (hsilent : gs.bytes = 0) {k : GroupId}
    {ch : ChannelId} {priority : UInt8} {g g' : Group} (hg : (gs.get? k).getD (.empty k) = g)
    (h : g.insert (.fresh ch k priority) = .ok g') :
    bytes (gs.insert k g') = 0 ∧ (channel? (gs.insert k g') (k, ch)).isSome := by
  have hadded := channel?_add_channel wf hg h
  refine ⟨bytes_eq_zero_iff.mpr fun w c hc => ?_, by rw [hadded, if_pos rfl]; rfl⟩
  rw [hadded] at hc
  split at hc
  · cases hc
    rfl
  · exact bytes_eq_zero_iff.mp hsilent w c hc

theorem addDownlink_silent (wf : gs.WellFormed) (hsilent : gs.bytes = 0) {r : ChannelRequest}
    (h : (Cell.addDownlink gs r).2 = .ok ()) : bytes (Cell.addDownlink gs r).1 = 0 ∧
      (channel? (Cell.addDownlink gs r).1 (r.group, r.channel)).isSome := by
  unfold Cell.addDownlink at h ⊢
  split
  · next hheld =>
    rw [hheld] at h
    cases h
  · next hnone =>
    rw [hnone] at h
    simp only at h ⊢
    split
    · next he =>
      rw [he] at h
      cases h
    · next hadd => exact add_channel_silent wf hsilent rfl hadd

theorem addUplink_silent (wf : gs.WellFormed) (hsilent : gs.bytes = 0) (r : ChannelRequest) :
    bytes (Cell.addUplink gs r).1 = 0 ∧
      (channel? (Cell.addUplink gs r).1 (r.group, r.group)).isSome := by
  have hok := Cell.addUplink_ok wf r
  obtain ⟨-, hsame⟩ := ensure_group wf r.group rfl
  unfold Cell.addUplink at hok ⊢
  simp only at hok ⊢
  split
  · next hcontains =>
    refine ⟨bytes_eq_zero_iff.mpr fun w c hc => ?_, ?_⟩
    · rw [hsame] at hc
      exact bytes_eq_zero_iff.mp hsilent w c hc
    · rw [channel?_of_get? (Table.get?_insert_self _ _ _)]
      exact hcontains
  · next hout =>
    rw [if_neg hout] at hok
    split
    · next he =>
      rw [he] at hok
      cases hok
    · next hadd => exact add_channel_silent wf hsilent rfl hadd

end Groups

namespace Cell

variable {c c' : Cell} {flows : Table Rnti Flow}

theorem isSome_user?_put_iff (c : Cell) (u : User) (r : Rnti) :
    ((c.put u).user? r).isSome ↔ r = u.rnti ∨ (c.user? r).isSome := by
  rw [user?_put]
  split
  · next hr => simp [hr]
  · next hr => simp [hr]

theorem isSome_user?_ensureUser (c : Cell) (r : Rnti) (beam : BeamId) (r' : Rnti) :
    ((c.ensureUser r beam).2.user? r').isSome ↔ r' = r ∨ (c.user? r').isSome := by
  unfold ensureUser
  split
  · next u hu =>
    refine ⟨.inr, fun h => ?_⟩
    rcases h with rfl | h
    · rw [hu]
      rfl
    · exact h
  · exact isSome_user?_put_iff c (c.freshUser r beam) r'

theorem isSome_user?_configureUser (hc : c.Sound) (r : Rnti) (beam : BeamId) (r' : Rnti) :
    ((c.configureUser r beam).user? r').isSome ↔ r' = r ∨ (c.user? r').isSome := by
  have hr := (sound_ensureUser hc r beam).1.user_rnti (user?_ensureUser c r beam)
  unfold Cell.configureUser
  rw [isSome_user?_put_iff, isSome_user?_ensureUser]
  simp only [hr]
  rw [← or_assoc, or_self]

theorem groupsOf_configureUser (hc : c.Sound) (r : Rnti) (beam : BeamId) (r' : Rnti)
    (d : Direction) : (c.configureUser r beam).groupsOf r' d = c.groupsOf r' d := by
  rw [← groupsOf_ensureUser c r beam r' d]
  unfold Cell.configureUser
  rw [groupsOf_put]
  split
  · next hr =>
    rw [show r' = (c.ensureUser r beam).1.rnti from hr, groupsOf_ensured hc]
    rfl
  · rfl

theorem configureChannel_ok (hc : c.Sound) {q : ChannelRequest} (hboth : q.direction = .both)
    {o : Option Confirmation} (h : (c.configureChannel q).2 = .ok o) :
    ∃ u, (c.configureChannel q).1 = (c.ensureUser q.rnti ⟨0⟩).2.put u ∧ u.rnti = q.rnti ∧
      (addDownlink (c.groupsOf q.rnti .downlink) q).2 = .ok () ∧
      (u.link .downlink).groups = (addDownlink (c.groupsOf q.rnti .downlink) q).1 ∧
      (u.link .uplink).groups = (addUplink (c.groupsOf q.rnti .uplink) q).1 := by
  have hensured := groupsOf_ensured hc q.rnti ⟨0⟩
  have hrnti := (sound_ensureUser hc q.rnti ⟨0⟩).1.user_rnti (user?_ensureUser c q.rnti ⟨0⟩)
  simp only [hrnti, groupsOf_ensureUser] at hensured
  have hcarries : ∀ d, q.direction.carries d := by
    intro d
    rw [hboth]
    cases d <;> rfl
  have hup := addUplink_ok (hc.groups_wellFormed q.rnti .uplink) q
  rw [hensured] at hup
  rw [hensured, hensured]
  unfold configureChannel at h ⊢
  simp only [addChannel, hcarries, if_true] at h ⊢
  generalize (c.ensureUser q.rnti ⟨0⟩).1 = u at *
  cases hdown : (addDownlink (u.link .downlink).groups q).2 with
  | error why =>
    rw [hdown] at h
    cases h
  | ok x =>
    rw [hdown] at h
    simp only [User.link_setLink_of_ne u (show Direction.uplink ≠ .downlink by decide), hup]
    refine ⟨_, rfl, ?_, trivial, ?_, ?_⟩
    · rw [User.rnti_setLink, User.rnti_setLink, hrnti]
    · rfl
    · rfl

structure SetUp (c : Cell) (q : ChannelRequest) (c' : Cell) : Prop where
  known : ∀ r, (c'.user? r).isSome ↔ r = q.rnti ∨ (c.user? r).isSome
  other : ∀ r d, r ≠ q.rnti → c'.groupsOf r d = c.groupsOf r d
  silent : ∀ d, (c'.groupsOf q.rnti d).bytes = 0
  downlink : ((c'.groupsOf q.rnti .downlink).channel? (q.group, q.channel)).isSome
  uplink : ((c'.groupsOf q.rnti .uplink).channel? (q.group, q.group)).isSome

theorem setUp_configureChannel (hc : c.Sound) {q : ChannelRequest} (hboth : q.direction = .both)
    (hsilent : ∀ d, (c.groupsOf q.rnti d).bytes = 0) {o : Option Confirmation}
    (h : (c.configureChannel q).2 = .ok o) : c.SetUp q (c.configureChannel q).1 := by
  obtain ⟨u, hput, hrnti, hdownOk, hdown, hup⟩ := configureChannel_ok hc hboth h
  have wf := hc.groups_wellFormed q.rnti
  obtain ⟨hdownSilent, hdownThere⟩ :=
    Groups.addDownlink_silent (wf .downlink) (hsilent .downlink) hdownOk
  obtain ⟨hupSilent, hupThere⟩ := Groups.addUplink_silent (wf .uplink) (hsilent .uplink) q
  rw [← hdown] at hdownSilent hdownThere
  rw [← hup] at hupSilent hupThere
  have hown : ∀ d, (c.configureChannel q).1.groupsOf q.rnti d = (u.link d).groups := by
    intro d
    rw [hput, groupsOf_put, if_pos hrnti.symm]
  refine ⟨fun r => ?_, fun r d hr => ?_, fun d => ?_, by rwa [hown], by rwa [hown]⟩
  · rw [hput, isSome_user?_put_iff, isSome_user?_ensureUser, hrnti, ← or_assoc, or_self]
  · rw [hput, groupsOf_put, if_neg (by rwa [hrnti]), groupsOf_ensureUser]
  · rw [hown]
    cases d with
    | downlink => exact hdownSilent
    | uplink => exact hupSilent

/-- Nothing waits in a cell, nothing is on its way, and what is set up carries the traffic. -/
structure Quiet (c : Cell) (config : CellConfig) (flows : Table Rnti Flow) : Prop where
  config : c.config = config
  sound : c.Sound
  carries : c.Carries flows
  silent : ∀ r d, (c.groupsOf r d).bytes = 0
  idle : ∀ p, c.held? p = none

theorem quiet_create {config : CellConfig} {link : LinkModel} {confirming : Bool}
    (h : create config link confirming = .ok c) : c.Quiet config ∅ := by
  have hsound := sound_create h
  obtain ⟨-, rfl⟩ := create_ok_iff.mp h
  refine ⟨rfl, hsound, ⟨fun r => rfl, fun r f d hf => (by cases hf), fun r d => ?_⟩, fun r d => rfl,
    fun p => rfl⟩
  change 0 < UInt32.size
  decide

theorem Quiet.matches_nil {config : CellConfig} (h : c.Quiet config flows) : c.Matches [] where
  block p b hb := by
    rw [h.sound.block?_eq, h.idle] at hb
    cases hb
  named p hp := by cases hp

theorem Quiet.congr {config : CellConfig} (h : c.Quiet config flows) (hsound : c'.Sound)
    (hconfig : c'.config = c.config) (hknown : ∀ r, (c'.user? r).isSome = (c.user? r).isSome)
    (hgroups : ∀ r d, c'.groupsOf r d = c.groupsOf r d) (hheld : ∀ p, c'.held? p = c.held? p) :
    c'.Quiet config flows where
  config := hconfig.trans h.config
  sound := hsound
  carries := {
    known := fun r => (hknown r).trans (h.carries.known r)
    uses := fun r f d hf => by
      rw [hgroups]
      exact h.carries.uses r f d hf
    fits := fun r d => by
      rw [hgroups]
      exact h.carries.fits r d }
  silent r d := by rw [hgroups, h.silent]
  idle p := by rw [hheld, h.idle]

theorem Quiet.reportQuality {config : CellConfig} (h : c.Quiet config flows) (q : QualityReport) :
    (c.reportQuality q).1.Quiet config flows := by
  have hnotes := c.notes_reportQuality q
  refine h.congr (h.sound.notes hnotes) ?_ (fun r => ?_) (fun r d => ?_) (h.sound.held?_notes hnotes)
  · rw [hnotes.frame]
  · unfold Cell.reportQuality
    split
    · rfl
    · next u hu =>
      exact isSome_user?_put (by rwa [User.modify, User.rnti_setLink, h.sound.user_rnti hu]) r
  · unfold Cell.reportQuality
    split
    · rfl
    · next u hu =>
      refine (groupsOf_put_setLink hu (h.sound.user_rnti hu) q.direction _ r d).trans ?_
      split
      · next he => rw [he.1, he.2, groupsOf_of_user hu]
      · rfl

theorem Quiet.connect {config : CellConfig} (h : c.Quiet config flows) {q : ChannelRequest}
    (hboth : q.direction = .both) {f : Flow} (hchannel : f.channel = q.channel)
    (hgroup : f.group = q.group) (beam : BeamId) {o : Option Confirmation}
    (hok : ((c.configureUser q.rnti beam).configureChannel q).2 = .ok o) :
    ((c.configureUser q.rnti beam).configureChannel q).1.Quiet config (flows.insert q.rnti f) := by
  have hsound := h.sound.configureUser q.rnti beam
  have hgroups := groupsOf_configureUser h.sound q.rnti beam
  have hset := setUp_configureChannel hsound hboth (fun d => by rw [hgroups, h.silent]) hok
  have hsilent : ∀ r d,
      (((c.configureUser q.rnti beam).configureChannel q).1.groupsOf r d).bytes = 0 := by
    intro r d
    by_cases hr : r = q.rnti
    · rw [hr, hset.silent]
    · rw [hset.other r d hr, hgroups, h.silent]
  refine ⟨?_, hsound.configureChannel q, ⟨fun r => ?_, fun r f' d hf' => ?_, fun r d => ?_⟩, hsilent,
    fun p => ?_⟩
  · rw [Cell.perform_frame (show Cell.perform _ (.configureChannel q) = .ok (_, none) from rfl),
      Cell.perform_frame (show c.perform (.configureUser q.rnti beam) = .ok (_, none) from rfl)]
    exact h.config
  · rw [Bool.eq_iff_iff, hset.known, isSome_user?_configureUser h.sound, ← or_assoc, or_self,
      h.carries.known, Table.get?_insert_if]
    split
    · next hr => simp [hr]
    · next hr => simp [hr]
  · rw [Table.get?_insert_if] at hf'
    split at hf'
    · next hr =>
      cases hf'
      rw [hr]
      cases d with
      | downlink =>
        refine ⟨q.group, Groups.onlyAt_of_silent (hset.silent .downlink) ?_⟩
        rw [hchannel]
        exact hset.downlink
      | uplink =>
        rw [Flow.Uses, hgroup]
        exact Groups.onlyAt_of_silent (hset.silent .uplink) hset.uplink
    · next hr =>
      rw [hset.other r d hr, hgroups]
      exact h.carries.uses r f' d hf'
  · rw [hsilent]
    decide
  · rw [hsound.held?_configureChannel, h.sound.held?_configureUser, h.idle]

end Cell

namespace Sidelink

variable {s : Sidelink} {flows : Table DestinationId SidelinkFlow}

/-- Nothing waits towards any destination, nothing is on its way, and what is set up carries the
traffic. -/
structure Quiet (s : Sidelink) (flows : Table DestinationId SidelinkFlow) : Prop where
  carries : s.Carries flows
  holds : s.Holds []
  silent : ∀ id d, s.destination? id = some d → d.groups.bytes = 0

theorem quiet_create {config : SidelinkConfig} {link : LinkModel} {confirming : Bool}
    (h : create config link confirming = .ok s) : s.Quiet ∅ := by
  have hsound := sound_create h
  unfold create at h
  split at h
  · cases h
  · obtain ⟨harq, hharq, h⟩ := bind_ok_iff.mp h
    obtain rfl := pure_ok_iff.mp h
    have hsized := HarqTable.wellFormed_unsized.setup_ok_iff.mp (lift_harq_ok_iff.mp hharq)
    refine ⟨⟨hsound, fun id f hf => (by cases hf)⟩, ⟨List.nodup_nil, fun id process p hp hk => ?_,
      fun e he => (by cases he)⟩, fun id d hd => by cases hd⟩
    simp only [hsized.2, HarqTable.process?_ofCapacity] at hp
    split at hp
    · cases hp
      cases hk
    · cases hp

theorem Quiet.configureChannel (h : s.Quiet flows) {r : SidelinkRequest} (f : SidelinkFlow)
    (hchannel : f.channel = r.channel) {o : Option Confirmation}
    (hok : (s.configureChannel r).2 = .ok o) :
    (s.configureChannel r).1.Quiet (flows.insert r.destination f) := by
  have hsound := h.carries.sound.configureChannel r
  have wf := h.carries.sound.ensured r.destination
  have hholds := h.holds
  have hsilent : ((s.destination? r.destination).getD
      (.fresh s.config.initialMcs)).groups.bytes = 0 := by
    cases hd : s.destination? r.destination with
    | none => rfl
    | some d => exact h.silent _ d hd
  unfold Sidelink.configureChannel at hok hsound ⊢
  simp only at hok hsound ⊢
  split at hok
  · cases hok
  · next hnone =>
    simp only [hnone] at hsound ⊢
    split at hok
    · cases hok
    · next g hadd =>
      simp only [hadd] at hsound ⊢
      obtain ⟨hbytes, hthere⟩ := Groups.add_channel_silent wf hsilent rfl hadd
      refine ⟨⟨hsound, fun id f' hf' => ?_⟩, hholds.frame rfl, fun id d hd => ?_⟩
      · rw [Table.get?_insert_if] at hf'
        rw [destination?_put]
        split at hf'
        · next hid =>
          cases hf'
          rw [if_pos hid]
          refine ⟨_, r.group, rfl, Groups.onlyAt_of_silent hbytes (hchannel ▸ hthere), ?_⟩
          simp only [hbytes]
          decide
        · next hid =>
          rw [if_neg hid]
          exact h.carries.uses id f' hf'
      · rw [destination?_put] at hd
        split at hd
        · cases hd
          exact hbytes
        · exact h.silent id d hd

theorem Quiet.reportQuality (h : s.Quiet flows) (id : DestinationId) (cqi : UInt8) :
    (s.reportQuality id cqi).1.Quiet flows := by
  unfold Sidelink.reportQuality
  split
  · exact h
  · next d hd =>
    refine ⟨h.carries.put (h.carries.sound.groups id d hd) (fun f hf => ?_) ?_, h.holds.frame rfl,
      fun id' d' hd' => ?_⟩
    · obtain ⟨d₀, k, hd₀, honly, -⟩ := h.carries.uses id f hf
      obtain rfl : d = d₀ := Option.some.inj (hd.symm.trans hd₀)
      exact ⟨k, honly⟩
    · simp only [h.silent id d hd]
      decide
    · rw [destination?_put] at hd'
      split at hd'
      · cases hd'
        exact h.silent id d hd
      · exact h.silent id' d' hd'

end Sidelink

theorem collect_keeps {σ α β ε : Type} {step : σ → α → Except ε (σ × β)} {I : σ → Prop}
    {l : List α} {s s' : σ} (h : (collect step s l).2 = .ok s') (hs : I s)
    (hstep : ∀ s a s' b, I s → step s a = .ok (s', b) → I s') : I s' := by
  induction l generalizing s with
  | nil =>
    cases h
    exact hs
  | cons a l ih =>
    unfold collect at h
    split at h
    · cases h
    · next s₁ b hfirst => exact ih h (hstep s a s₁ b hs hfirst)

/-- If each step puts its value into a table, the table holds the last value for every key. -/
theorem get?_of_collected {σ α β ε κ φ : Type} [Key κ] [DecidableEq κ]
    {step : σ → α → Except ε (σ × β)} (table : σ → Table κ φ) {key : α → κ} {value : α → φ}
    (hstep : ∀ s a s' b, step s a = .ok (s', b) → table s' = (table s).insert (key a) (value a))
    {l : List α} {s s' : σ} (h : (collect step s l).2 = .ok s') (k : κ) :
    (table s').get? k =
      ((l.reverse.find? (key · = k)).map value).or ((table s).get? k) := by
  induction l generalizing s with
  | nil =>
    cases h
    rfl
  | cons a l ih =>
    unfold collect at h
    split at h
    · cases h
    · next s₁ b hfirst =>
      rw [ih h, hstep s a s₁ b hfirst, Table.get?_insert_if, List.reverse_cons, List.find?_append]
      cases l.reverse.find? (key · = k) with
      | some e => rfl
      | none =>
        by_cases he : key a = k
        · simp [he]
        · simp [he, Ne.symm he]

namespace SidelinkTraffic

theorem connect_quiet {t t' : SidelinkTraffic} {d : DestinationSetup} {o : Option Confirmation}
    (h : t.scheduler.Quiet t.flows) (hconnect : t.connect d = .ok (t', o)) :
    t'.scheduler.Quiet t'.flows ∧ t'.pending = t.pending := by
  obtain ⟨⟨s, confirmation⟩, hchannel, hrest⟩ := bind_ok_iff.mp hconnect
  obtain ⟨hok, rfl⟩ := accepted_ok_iff.mp hchannel
  have hquiet := h.configureChannel ⟨d.channel, ⟨d.rate, 0⟩⟩ rfl hok
  simp only at hrest
  split at hrest
  · next cqi _ =>
    obtain ⟨s, hquality, hlast⟩ := bind_ok_iff.mp hrest
    obtain ⟨-, rfl⟩ := fst_accepted_ok_iff.mp hquality
    cases hlast
    exact ⟨hquiet.reportQuality d.destination cqi, rfl⟩
  · cases hrest
    exact ⟨hquiet, rfl⟩

theorem quiet_start {setup : SidelinkSetup} {link : LinkModel} {t : SidelinkTraffic}
    (h : (start setup link).2 = .ok t) : t.scheduler.Quiet t.flows ∧ t.pending = [] := by
  unfold start at h
  split at h
  · cases h
  · next s hcreate =>
    refine collect_keeps (I := fun t : SidelinkTraffic =>
      t.scheduler.Quiet t.flows ∧ t.pending = []) h ⟨Sidelink.quiet_create hcreate, rfl⟩ ?_
    rintro t d t' o ⟨hquiet, hpending⟩ hconnect
    obtain ⟨hquiet', hpending'⟩ := connect_quiet hquiet hconnect
    exact ⟨hquiet', hpending'.trans hpending⟩

theorem steady_start {setup : SidelinkSetup} {link : LinkModel} {t : SidelinkTraffic}
    (h : (start setup link).2 = .ok t) : t.Steady := by
  obtain ⟨hquiet, hpending⟩ := quiet_start h
  refine ⟨hquiet.carries, ?_⟩
  rw [hpending]
  exact hquiet.holds

end SidelinkTraffic

theorem resourceBlockGroups_le {b : Bandwidth} {spacing : SubcarrierSpacing}
    {blocksPerGroup groups : UInt32} (h : resourceBlockGroups b spacing blocksPerGroup = .ok groups) :
    groups.toNat * blocksPerGroup.toNat < 65536 := by
  unfold resourceBlockGroups at h
  split at h
  · cases h
    rw [UInt32.toNat_zero, Nat.zero_mul]
    decide
  · obtain ⟨blocks, -, h⟩ := bind_ok_iff.mp h
    obtain rfl := pure_ok_iff.mp h
    rw [UInt32.toNat_div, UInt16.toNat_toUInt32]
    exact lt_of_le_of_lt (Nat.div_mul_le_self _ _) blocks.toNat_lt

namespace Simulator

variable {s s' : Simulator}

theorem frame_ok {scenario : Scenario} {f : Frame} (h : frame scenario = .ok f) :
    f.config = { scenario.scheduler with groups := f.config.groups } ∧
      f.config.groups.toNat * f.config.blocksPerGroup.toNat < 65536 := by
  simp only [frame, bind_ok_iff, pure_ok_iff] at h
  obtain ⟨bandwidth, -, spacing, -, link, -, groups, hgroups, rfl⟩ := h
  refine ⟨rfl, ?_⟩
  cases hblocks : resourceBlockGroups bandwidth spacing scenario.scheduler.blocksPerGroup with
  | error e =>
    rw [hblocks] at hgroups
    cases hgroups
  | ok n =>
    rw [hblocks] at hgroups
    cases hgroups
    exact resourceBlockGroups_le hblocks

theorem quiet_reportQuality {c c' : Cell} {config : CellConfig} {flows : Table Rnti Flow}
    (h : c.Quiet config flows) {r : Rnti} {cqi : UInt8} (hreport : reportQuality c r cqi = .ok c') :
    c'.Quiet config flows := by
  refine foldlM_keeps (I := fun c : Cell => c.Quiet config flows) hreport h ?_
  intro c d c' _ hc hok
  obtain ⟨-, rfl⟩ := fst_accepted_ok_iff.mp hok
  exact hc.reportQuality _

structure Connected (config : CellConfig) (time : SlotTime) (s : Simulator) : Prop where
  quiet : s.cell.Quiet config s.flows
  pending : s.pending = []
  sidelink : s.sidelink = none
  time : s.time = time

theorem Connected.connect {config : CellConfig} {time : SlotTime} (h : s.Connected config time)
    {u : UserSetup} {o : Option Confirmation} (hconnect : s.connect u = .ok (s', o)) :
    s'.Connected config time := by
  obtain ⟨⟨c, confirmation⟩, hchannel, hrest⟩ := bind_ok_iff.mp hconnect
  obtain ⟨hok, rfl⟩ := accepted_ok_iff.mp hchannel
  have hquiet := h.quiet.connect
    (f := ⟨u.channel, u.group, ⟨u.downlinkRate, 0⟩, ⟨u.uplinkRate, 0⟩⟩) rfl rfl rfl u.beam hok
  simp only at hrest
  split at hrest
  · obtain ⟨c, hquality, hlast⟩ := bind_ok_iff.mp hrest
    cases hlast
    exact ⟨quiet_reportQuality hquiet hquality, h.pending, h.sidelink, h.time⟩
  · cases hrest
    exact ⟨hquiet, h.pending, h.sidelink, h.time⟩

theorem startSidelink_ok {link : LinkModel} {setup : Option SidelinkSetup}
    (h : (s.startSidelink link setup).2 = .ok s') : ∃ side, s' = { s with sidelink := side } ∧
      (setup = none ∧ side = s.sidelink ∨ ∃ setup' t, setup = some setup' ∧
        (SidelinkTraffic.start setup' link).2 = .ok t ∧ side = some t) := by
  unfold startSidelink at h
  split at h
  · cases h
    exact ⟨s.sidelink, rfl, .inl ⟨rfl, rfl⟩⟩
  · next setup' =>
    simp only at h
    cases htraffic : (SidelinkTraffic.start setup' link).2 with
    | error e =>
      rw [htraffic] at h
      cases h
    | ok t =>
      rw [htraffic] at h
      cases h
      exact ⟨some t, rfl, .inr ⟨setup', t, rfl, htraffic, rfl⟩⟩

/-- A simulation that starts has its users connected one after the other, and then its sidelink. -/
theorem start_ok {scenario : Scenario} (h : (start scenario).2 = .ok s) :
    ∃ f cell s₁ side, frame scenario = .ok f ∧ Cell.create f.config f.link true = .ok cell ∧
      (collect connect (empty f scenario.channel.errorRate cell) scenario.users).2 = .ok s₁ ∧
      s = { s₁ with sidelink := side } ∧
      (scenario.sidelink = none ∧ side = s₁.sidelink ∨ ∃ setup t,
        scenario.sidelink = some setup ∧ (SidelinkTraffic.start setup f.link).2 = .ok t ∧
        side = some t) := by
  unfold start at h
  split at h
  · cases h
  next f hframe =>
  simp only at h
  split at h
  · cases h
  next cell hcell =>
  split at h
  · cases h
  next s₁ hconnected =>
  obtain ⟨side, hs, hside⟩ := startSidelink_ok h
  exact ⟨f, cell, s₁, side, hframe, hcell, hconnected, hs, hside⟩

theorem connected_start {f : Frame} {errorRate : Float} {cell : Cell} {users : List UserSetup}
    (hcell : Cell.create f.config f.link true = .ok cell)
    (h : (collect connect (empty f errorRate cell) users).2 = .ok s) :
    s.Connected f.config ⟨0, 0, 0, f.spacing.numerology⟩ := by
  have hempty : (empty f errorRate cell).Connected f.config ⟨0, 0, 0, f.spacing.numerology⟩ :=
    ⟨Cell.quiet_create hcell, rfl, rfl, rfl⟩
  exact collect_keeps (I := Connected f.config ⟨0, 0, 0, f.spacing.numerology⟩) h hempty
    fun s u s' o hs hconnect => hs.connect hconnect

/-- A simulation starts in a steady state, if the symbols of its slots are counted by half words. -/
theorem steady_start {scenario : Scenario} (hsymbols : scenario.scheduler.symbols.toNat < 65536)
    (h : (start scenario).2 = .ok s) : s.Steady := by
  obtain ⟨f, cell, s₁, side, hframe, hcell, hconnected, rfl, hside⟩ := start_ok h
  obtain ⟨hconfig, hband⟩ := frame_ok hframe
  have hall := connected_start hcell hconnected
  refine ⟨hall.quiet.sound, hall.quiet.carries, ?_, ?_, ?_, ?_, fun t ht => ?_⟩
  · rwa [hall.quiet.config]
  · rw [hall.quiet.config, hconfig]
    exact hsymbols
  · rw [hall.time]
    cases f.spacing <;> decide
  · rw [Matched, hall.pending]
    exact hall.quiet.matches_nil
  · rcases hside with ⟨-, rfl⟩ | ⟨setup, t', -, htraffic, rfl⟩
    · rw [hall.sidelink] at ht
      cases ht
    · cases ht
      exact SidelinkTraffic.steady_start htraffic

end Simulator

/-- A scenario that passed its check, with fewer than 2 ^ 16 symbols in a slot, and the simulation
that it starts. -/
structure Simulator.Starts (scenario : Scenario) (s : Simulator) : Prop where
  checked : scenario.check = .ok ()
  symbols : scenario.scheduler.symbols.toNat < 2 ^ 16
  started : (start scenario).2 = .ok s

/-- The processes that are held, and why. -/
structure Simulator.Accounted (s : Simulator) : Prop where
  /-- A block on its way over the cell was lost or has its feedback, once. -/
  matched : s.Matched
  carried : ∀ p u, s.cell.user? p.rnti = some u →
    ((u.link p.direction).harq.holder? p.id).isSome → (s.cell.block? p).isSome
  sidelink : ∀ t, s.sidelink = some t →
    ∀ e, e ∈ t.pending ↔ t.scheduler.harq.holder? e.2 = some e.1

theorem Simulator.Steady.accounted {s : Simulator} (h : s.Steady) : s.Accounted where
  matched := h.matched
  carried p u hu hheld := by
    obtain ⟨r, hr⟩ := Option.isSome_iff_exists.mp hheld
    obtain ⟨process, hprocess, hholder⟩ := HarqTable.holder?_eq_some_iff.mp hr
    rw [Cell.block?, hu]
    exact ((h.sound.user p.rnti u hu).2 p.direction).bound p.id process hprocess
      (by rw [hholder]; exact Option.some_ne_none r)
  sidelink t ht e := (h.sidelink t ht).holds.mem_iff

/-- Whatever is drawn, every slot of a simulation succeeds until a counter overflows, and after any
number of slots every process that is held is accounted for. -/
theorem simulation_leaks_no_process {scenario : Scenario} {s : Simulator}
    (h : Simulator.Starts scenario s) (chance : Chance) {n : Nat} (hcounts : ∀ m < n, ∀ t slots,
      s.run chance m = .ok (t, slots) → ¬ t.Overflows chance) :
    ∃ t slots, s.run chance n = .ok (t, slots) ∧ t.Accounted := by
  obtain ⟨t, slots, hrun, hsteady⟩ := (Simulator.steady_start h.symbols h.started).run hcounts
  exact ⟨t, slots, hrun, hsteady.accounted⟩

def sampleScenario : Scenario where
  users := [{ rnti := ⟨1⟩, downlinkRate := 40, uplinkRate := 9 }]
  sidelink := some { candidates := 1, period := 1, destinations := [{ destination := ⟨7⟩, rate := 5 }] }

def sampleChance : Chance := ⟨fun _ => 0.5, fun _ _ => 0, fun _ _ h => h⟩

/-- Two slots, after which feedback is due in both directions. -/
theorem simulation_leaks_no_process_sample : ∃ s t slots, Simulator.Starts sampleScenario s ∧
    s.run sampleChance 2 = .ok (t, slots) ∧ t.pending.length = 2 ∧ t.Accounted := by
  have hchecked : sampleScenario.check.toOption.any (fun _ => true) = true := by decide +kernel
  have hstarted : (Simulator.start sampleScenario).2.toOption.any (fun s =>
      (∀ m < 2, (s.run sampleChance m).toOption.all fun x => ¬ x.1.Overflows sampleChance) ∧
        (s.run sampleChance 2).toOption.all fun x => x.1.pending.length = 2) = true := by
    decide +kernel
  obtain ⟨_, hcheck, _⟩ := exists_ok_of_any hchecked
  obtain ⟨s, hstart, htest⟩ := exists_ok_of_any hstarted
  obtain ⟨hfits, hpending⟩ := of_decide_eq_true htest
  have h : Simulator.Starts sampleScenario s := ⟨hcheck, by decide, hstart⟩
  obtain ⟨t, slots, hrun, haccounted⟩ := simulation_leaks_no_process h sampleChance (n := 2)
    fun m hm t slots hrun => by
      have := hfits m hm
      rw [hrun] at this
      exact of_decide_eq_true this
  rw [hrun] at hpending
  exact ⟨s, t, slots, h, hrun, of_decide_eq_true hpending, haccounted⟩

end Airtime
