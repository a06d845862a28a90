import Airtime.Cell.State
import Airtime.Proofs.Channel
import Airtime.Proofs.Harq

/-! What holds of a cell between two operations. In each direction of a user the blocks on their way
and the bound processes are the same, block by block. -/

namespace Airtime

structure Assignment.InBand (a : Assignment) (groups : UInt32) : Prop where
  rbg_pos : 1 ≤ a.numRbg.toNat
  sym_pos : 1 ≤ a.numSym.toNat
  rbg_le : a.startRbg.toNat + a.numRbg.toNat ≤ groups.toNat

/-- A block on its way over process `id` of user `r`. -/
structure Block.Sound (config : CellConfig) (r : Rnti) (d : Direction) (id : ProcessId)
    (b : Block) : Prop where
  rnti : b.assignment.rnti = r
  direction : b.assignment.direction = d
  process : b.assignment.process = id
  size_ne : b.assignment.blockSize ≠ 0
  inBand : b.assignment.InBand config.groups
  sent : 1 ≤ b.transmissions.toNat
  limit : b.transmissions.toNat ≤ config.maxTransmissions.toNat
  retry : b.lost = true → b.transmissions.toNat < config.maxTransmissions.toNat

/-- What a process stores for a block of `size` bytes. -/
structure Payload (size : UInt32) (pdus : List Pdu) : Prop where
  ne_nil : pdus ≠ []
  channels_nodup : (pdus.map Pdu.channel).Nodup
  size_ne : ∀ p ∈ pdus, p.size ≠ 0
  fits : (pdus.map fun p => p.size.toNat).sum ≤ size.toNat

/-- The stores of user `r` in one direction. Uplink groups are reported as a whole, so their channel
has the number of the group. -/
structure LinkState.Sound (config : CellConfig) (r : Rnti) (d : Direction) (s : LinkState) :
    Prop where
  groups : s.groups.WellFormed
  uplink : d = .uplink → ∀ who, (s.groups.channel? who).isSome → who.2 = who.1
  harq : s.harq.WellFormed
  capacity : s.harq.capacity = config.processes.toNat
  bound : ∀ id p, s.harq.process? id = some p → p.holder ≠ none → (s.inFlight.get? id).isSome
  block : ∀ id b, s.inFlight.get? id = some b → b.Sound config r d id ∧
    ∃ p, s.harq.process? id = some p ∧ p.holder = some r ∧ Payload b.assignment.blockSize p.packets

/-- What scheduling relies on in a configuration. -/
structure CellConfig.Valid (c : CellConfig) : Prop where
  groups_pos : 1 ≤ c.groups.toNat
  blocks_pos : 1 ≤ c.blocksPerGroup.toNat
  control_lt : ∀ d, (c.control d).toNat < c.symbols.toNat
  transmissions_pos : 1 ≤ c.maxTransmissions.toNat

structure Cell.Sound (c : Cell) : Prop where
  config : c.config.problem? c.linkModel.maxMcs = none
  user : ∀ r u, c.user? r = some u → u.rnti = r ∧ ∀ d, (u.link d).Sound c.config r d

namespace LinkState.Sound

variable {config : CellConfig} {r : Rnti} {d : Direction} {s s' : LinkState}

theorem congr (hs : s.Sound config r d) (hg : s'.groups = s.groups) (hh : s'.harq = s.harq)
    (hf : s'.inFlight = s.inFlight) : s'.Sound config r d where
  groups := hg ▸ hs.groups
  uplink hd who := by
    rw [hg]
    exact hs.uplink hd who
  harq := hh ▸ hs.harq
  capacity := hh ▸ hs.capacity
  bound := by
    rw [hh, hf]
    exact hs.bound
  block := by
    rw [hh, hf]
    exact hs.block

theorem withGroups (hs : s.Sound config r d) {gs : Groups} (wf : gs.WellFormed)
    (uplink : d = .uplink → ∀ who, (gs.channel? who).isSome → who.2 = who.1) :
    LinkState.Sound config r d { s with groups := gs } :=
  ⟨wf, uplink, hs.harq, hs.capacity, hs.bound, hs.block⟩

theorem fresh (config : CellConfig) (r : Rnti) (d : Direction) (mcs : UInt8) :
    (LinkState.fresh config.processes mcs).Sound config r d where
  groups := Groups.wellFormed_empty
  uplink hd who h := by cases h
  harq := HarqTable.wellFormed_ofCapacity _
  capacity := HarqTable.capacity_ofCapacity _
  bound id p hp hh := by
    simp only [LinkState.fresh, HarqTable.process?_ofCapacity] at hp
    split at hp
    · cases hp
      exact absurd rfl hh
    · cases hp
  block id b h := by cases h

end LinkState.Sound

/-- What a direction of a user notes from a report: a group takes it in, or the coding scheme follows
the quality. -/
inductive LinkState.Noted (s : LinkState) : LinkState → Prop
  | bytes {r : BufferReport Rnti} {k : GroupId} {g g' : Group} (hg : s.groups.get? k = some g)
      (h : g.update r = .ok g') : Noted s { s with groups := s.groups.insert k g' }
  | quality (cqi : Option UInt8) (mcs : UInt8) : Noted s { s with cqi, mcs }

theorem LinkState.Sound.noted {config : CellConfig} {r : Rnti} {d : Direction} {s s' : LinkState}
    (hs : s.Sound config r d) (h : s.Noted s') : s'.Sound config r d := by
  cases h with
  | bytes hg h =>
    refine hs.withGroups (hs.groups.update hg h) fun hd who hwho => ?_
    exact hs.uplink hd who (Groups.isSome_channel?_update hg h who ▸ hwho)
  | quality cqi mcs => exact hs.congr rfl rfl rfl

theorem Group.insert_ok {g g' : Group} {c : Channel} (h : g.insert c = .ok g') :
    g' = { g with channels := g.channels.insert c.id c } := by
  unfold Group.insert at h
  split at h
  · cases h
  · split at h
    · cases h
    · exact (Except.ok.inj h).symm

namespace Groups

theorem ensure_group {gs : Groups} (wf : gs.WellFormed) (k : GroupId) {g : Group}
    (hg : (gs.get? k).getD (.empty k) = g) :
    WellFormed (gs.insert k g) ∧ ∀ who, channel? (gs.insert k g) who = gs.channel? who := by
  cases hk : gs.get? k with
  | none =>
    rw [hk, Option.getD_none] at hg
    exact hg ▸ ⟨wf.insert_empty hk, channel?_insert_empty hk⟩
  | some g' =>
    rw [hk, Option.getD_some] at hg
    rw [← hg, Table.insert_of_get? hk]
    exact ⟨wf, fun who => rfl⟩

theorem channel?_add_channel {gs : Groups} (wf : gs.WellFormed) {k : GroupId} {ch : ChannelId}
    {priority : UInt8} {g g' : Group} (hg : (gs.get? k).getD (.empty k) = g)
    (h : g.insert (.fresh ch k priority) = .ok g') (who : GroupId × ChannelId) :
    channel? (gs.insert k g') who =
      if who = (k, ch) then some (.fresh ch k priority) else gs.channel? who := by
  obtain rfl := Group.insert_ok h
  have hk : Table.get? (gs.insert k g) k = some g := Table.get?_insert_self gs k g
  rw [← Table.insert_insert gs k g]
  exact (channel?_insert hk ch _ who).trans (by rw [(ensure_group wf k hg).2])

/-- A new channel goes into its group if no other group has it. -/
theorem add_channel {gs : Groups} (wf : gs.WellFormed) {k : GroupId} {ch : ChannelId}
    {priority : UInt8} {g g' : Group} (hg : (gs.get? k).getD (.empty k) = g)
    (hnew : ∀ who, (gs.channel? who).isSome → who.2 = ch → who.1 = k)
    (h : g.insert (.fresh ch k priority) = .ok g') :
    WellFormed (gs.insert k g') ∧ ∀ who, (channel? (gs.insert k g') who).isSome →
      who = (k, ch) ∨ (gs.channel? who).isSome := by
  have hadded := channel?_add_channel wf hg h
  refine ⟨?_, fun who hwho => ?_⟩
  · obtain ⟨wf', hsame⟩ := ensure_group wf k hg
    have hk : Table.get? (gs.insert k g) k = some g := Table.get?_insert_self gs k g
    obtain rfl := Group.insert_ok h
    rw [← Table.insert_insert gs k g]
    exact wf'.insert_channel hk rfl rfl fun who hwho => hnew who (hsame who ▸ hwho)
  · rw [hadded] at hwho
    split at hwho
    · next hw => exact .inl hw
    · exact .inr hwho

end Groups

namespace Cell

theorem wellFormed_addDownlink {gs : Groups} (wf : gs.WellFormed) (r : ChannelRequest) :
    (addDownlink gs r).1.WellFormed := by
  unfold addDownlink
  split
  · exact wf
  · next hnone =>
    simp only
    split
    · exact (Groups.ensure_group wf r.group rfl).1
    · next h =>
      refine (Groups.add_channel wf rfl (fun who hwho heq => ?_) h).1
      exact absurd heq (Groups.holding?_none hnone who hwho)

theorem wellFormed_addUplink {gs : Groups} (wf : gs.WellFormed)
    (paired : ∀ who, (gs.channel? who).isSome → who.2 = who.1) (r : ChannelRequest) :
    (addUplink gs r).1.WellFormed ∧
      ∀ who, ((addUplink gs r).1.channel? who).isSome → who.2 = who.1 := by
  obtain ⟨wf', hsame⟩ := Groups.ensure_group wf r.group rfl
  have hensured : ∀ who, (Groups.channel? (Table.insert gs r.group _) who).isSome →
      who.2 = who.1 := fun who hwho => paired who (hsame who ▸ hwho)
  unfold addUplink
  simp only
  split
  · exact ⟨wf', hensured⟩
  · split
    · exact ⟨wf', hensured⟩
    · next h =>
      obtain ⟨wf'', hadded⟩ := Groups.add_channel wf rfl
        (fun who hwho heq => (paired who hwho).symm.trans heq) h
      refine ⟨wf'', ?_⟩
      intro who hwho
      rcases hadded who hwho with rfl | hwho
      · rfl
      · exact paired who hwho

end Cell

def User.Sound (config : CellConfig) (u : User) : Prop :=
  ∀ d, (u.link d).Sound config u.rnti d

theorem User.Sound.setLink {config : CellConfig} {u : User} (hu : u.Sound config) {d : Direction}
    {s : LinkState} (hs : s.Sound config u.rnti d) : (u.setLink d s).Sound config := by
  intro e
  rw [User.rnti_setLink]
  by_cases he : e = d
  · subst he
    rwa [User.link_setLink]
  · rw [User.link_setLink_of_ne u he]
    exact hu e

theorem User.Sound.withBeam {config : CellConfig} {u : User} (hu : u.Sound config)
    (beam : BeamId) : User.Sound config { u with beam } := hu

namespace Cell

variable {c : Cell}

theorem Sound.user_rnti (hc : c.Sound) {r : Rnti} {u : User} (hu : c.user? r = some u) :
    u.rnti = r := (hc.user r u hu).1

theorem Sound.user_sound (hc : c.Sound) {r : Rnti} {u : User} (hu : c.user? r = some u) :
    u.Sound c.config := by
  obtain ⟨rfl, hlinks⟩ := hc.user r u hu
  exact hlinks

theorem user?_put (c : Cell) (u : User) (r : Rnti) :
    (c.put u).user? r = if r = u.rnti then some u else c.user? r :=
  Table.get?_insert_if c.users u.rnti r u

/-- A checked configuration has a band and data symbols, and sends every block at least once. -/
theorem Sound.valid (hc : c.Sound) : c.config.Valid := by
  have h := hc.config
  unfold CellConfig.problem? at h
  split at h
  · cases h
  next hband =>
  simp only at h
  split at h
  · cases h
  next hcontrol =>
  split at h
  · cases h
  next hprocess =>
  simp only [List.find?_eq_none, List.mem_cons, List.not_mem_nil, or_false, forall_eq_or_imp,
    forall_eq, decide_eq_true_eq, UInt32.le_iff_toNat_le, Nat.not_le] at hcontrol
  refine ⟨?_, ?_, fun d => ?_, ?_⟩
  · exact Nat.pos_of_ne_zero fun h0 => hband (.inl (UInt32.toNat_inj.mp h0))
  · exact Nat.pos_of_ne_zero fun h0 => hband (.inr (UInt32.toNat_inj.mp h0))
  · cases d with
    | downlink => exact hcontrol.1
    | uplink => exact hcontrol.2
  · exact Nat.pos_of_ne_zero fun h0 => hprocess (.inr (UInt8.toNat_inj.mp h0))

theorem Sound.put (hc : c.Sound) {u : User} (hu : u.Sound c.config) : (c.put u).Sound where
  config := hc.config
  user r v hv := by
    rw [user?_put] at hv
    split at hv
    · next hr =>
      cases hv
      exact ⟨hr.symm, hr ▸ hu⟩
    · exact hc.user r v hv

theorem create_ok_iff {config : CellConfig} {link : LinkModel} {confirming : Bool} :
    create config link confirming = .ok c ↔
      config.problem? link.maxMcs = none ∧ c = ⟨config, link, ∅, confirming⟩ := by
  unfold create
  split
  · next hproblem => simp [hproblem]
  · next hproblem => simp [hproblem, eq_comm]

theorem sound_create {config : CellConfig} {link : LinkModel} {confirming : Bool}
    (h : create config link confirming = .ok c) : c.Sound := by
  obtain ⟨hproblem, rfl⟩ := create_ok_iff.mp h
  exact ⟨hproblem, fun r u hu => by cases hu⟩

theorem sound_freshUser (c : Cell) (r : Rnti) (beam : BeamId) :
    (c.freshUser r beam).Sound c.config := by
  intro d
  cases d <;> exact LinkState.Sound.fresh _ _ _ _

theorem sound_ensureUser (hc : c.Sound) (r : Rnti) (beam : BeamId) :
    (c.ensureUser r beam).2.Sound ∧ (c.ensureUser r beam).1.Sound (c.ensureUser r beam).2.config := by
  unfold ensureUser
  split
  · next u hu => exact ⟨hc, hc.user_sound hu⟩
  · exact ⟨hc.put (sound_freshUser c r beam), sound_freshUser c r beam⟩

theorem Sound.configureUser (hc : c.Sound) (r : Rnti) (beam : BeamId) :
    (c.configureUser r beam).Sound := by
  obtain ⟨hc', hu⟩ := sound_ensureUser hc r beam
  exact hc'.put (hu.withBeam beam)

theorem moveUser_cases (c : Cell) (r : Rnti) (beam : BeamId) : (c.moveUser r beam).1 = c ∨
    ∃ u, c.user? r = some u ∧ (c.moveUser r beam).1 = c.put { u with beam } := by
  unfold moveUser
  split
  · exact .inl rfl
  · next u hu => exact .inr ⟨u, hu, rfl⟩

theorem Sound.moveUser (hc : c.Sound) (r : Rnti) (beam : BeamId) : (c.moveUser r beam).1.Sound := by
  rcases moveUser_cases c r beam with hsame | ⟨u, hu, hput⟩
  · rwa [hsame]
  · rw [hput]
    exact hc.put ((hc.user_sound hu).withBeam beam)

theorem removeUser_frame (c : Cell) (r : Rnti) :
    (c.removeUser r).1 = { c with users := (c.removeUser r).1.users } := by
  unfold removeUser
  split
  · rfl
  · rfl

theorem user?_removeUser (c : Cell) (r r' : Rnti) :
    (c.removeUser r).1.user? r' = if r' = r then none else c.user? r' := by
  unfold removeUser
  split
  · next hnone =>
    split
    · next hr => rwa [hr]
    · rfl
  · exact Table.get?_erase_if c.users r r'

theorem Sound.removeUser (hc : c.Sound) (r : Rnti) : (c.removeUser r).1.Sound := by
  rw [removeUser_frame]
  refine ⟨hc.config, fun r' u hu => ?_⟩
  have hu : (c.removeUser r).1.user? r' = some u := hu
  rw [user?_removeUser] at hu
  split at hu
  · cases hu
  · exact hc.user r' u hu

theorem sound_addChannel {config : CellConfig} {u : User} (hu : u.Sound config) (d : Direction)
    (r : ChannelRequest) : (addChannel u d r).1.Sound config := by
  unfold addChannel
  split
  · apply hu.setLink
    have hs := hu d
    cases d with
    | downlink =>
      exact hs.withGroups (wellFormed_addDownlink hs.groups r) fun hd => by cases hd
    | uplink =>
      obtain ⟨wf, hpaired⟩ := wellFormed_addUplink hs.groups (hs.uplink rfl) r
      exact hs.withGroups wf fun _ => hpaired
  · exact hu

/-- A user for whom a channel is set up, in both directions unless the downlink refuses it. -/
def withChannel (u : User) (r : ChannelRequest) : User :=
  let down := addChannel u .downlink r
  if down.2.isOk then (addChannel down.1 .uplink r).1 else down.1

theorem configureChannel_eq_put (c : Cell) (r : ChannelRequest) : (c.configureChannel r).1 =
    (c.ensureUser r.rnti ⟨0⟩).2.put (withChannel (c.ensureUser r.rnti ⟨0⟩).1 r) := by
  unfold configureChannel withChannel
  simp only
  split
  · next hadd => simp [hadd, Except.isOk, Except.toBool]
  · next hadd =>
    split
    · next hadd' => simp [hadd, hadd', Except.isOk, Except.toBool]
    · next hadd' => simp [hadd, hadd', Except.isOk, Except.toBool]

theorem Sound.configureChannel (hc : c.Sound) (r : ChannelRequest) :
    (c.configureChannel r).1.Sound := by
  obtain ⟨hc', hu⟩ := sound_ensureUser hc r.rnti ⟨0⟩
  rw [configureChannel_eq_put]
  refine hc'.put ?_
  unfold withChannel
  simp only
  split
  · exact sound_addChannel (sound_addChannel hu .downlink r) .uplink r
  · exact sound_addChannel hu .downlink r

/-- A report about direction `d` of user `r` is refused, or noted there. -/
inductive Notes (c : Cell) (r : Rnti) (d : Direction) : Cell → Prop
  | refused : Notes c r d c
  | noted {u : User} {s : LinkState} (hu : c.user? r = some u) (h : (u.link d).Noted s) :
      Notes c r d (c.put (u.setLink d s))

theorem notes_reportBuffer (c : Cell) (r : BufferReport Rnti) :
    c.Notes r.destination .downlink (c.reportBuffer r).1 := by
  unfold reportBuffer
  split
  · exact .refused
  · next u hu =>
    split
    · exact .refused
    · next hupdate =>
      obtain ⟨g, g', hg, hg', rfl⟩ := Groups.updates_ok hupdate
      exact .noted hu (.bytes hg hg')

theorem notes_reportGroup (c : Cell) (r : GroupReport) :
    c.Notes r.rnti .uplink (c.reportGroup r).1 := by
  unfold reportGroup
  split
  · exact .refused
  · next u hu =>
    split
    · exact .refused
    · next hg =>
      split
      · exact .refused
      · next hg' => exact .noted hu (.bytes hg hg')

theorem notes_reportQuality (c : Cell) (r : QualityReport) :
    c.Notes r.rnti r.direction (c.reportQuality r).1 := by
  unfold reportQuality
  split
  · exact .refused
  · next u hu => exact .noted hu (.quality _ _)

theorem Notes.frame {c' : Cell} {r : Rnti} {d : Direction} (h : c.Notes r d c') :
    c' = { c with users := c'.users } := by
  cases h with
  | refused => rfl
  | noted hu h => rfl

theorem Sound.notes {c' : Cell} {r : Rnti} {d : Direction} (hc : c.Sound) (h : c.Notes r d c') :
    c'.Sound := by
  cases h with
  | refused => exact hc
  | noted hu h =>
    have hsound := hc.user_sound hu
    exact hc.put (hsound.setLink ((hsound d).noted h))

theorem sound_lost {config : CellConfig} {r : Rnti} {d : Direction} {s : LinkState}
    (hs : s.Sound config r d) {id : ProcessId} {b : Block} (hb : s.inFlight.get? id = some b)
    (hretry : b.transmissions.toNat < config.maxTransmissions.toNat) :
    LinkState.Sound config r d
      { s with inFlight := s.inFlight.insert id { b with lost := true } } where
  groups := hs.groups
  uplink := hs.uplink
  harq := hs.harq
  capacity := hs.capacity
  bound id' p hp hh := by
    rw [Table.get?_insert_if]
    split
    · rfl
    · exact hs.bound id' p hp hh
  block id' b' hb' := by
    rw [Table.get?_insert_if] at hb'
    split at hb'
    · next hid =>
      cases hb'
      subst hid
      obtain ⟨hsound, hpayload⟩ := hs.block id' b hb
      exact ⟨{ hsound with retry := fun _ => hretry }, hpayload⟩
    · exact hs.block id' b' hb'

theorem sound_released {config : CellConfig} {r : Rnti} {d : Direction} {s : LinkState}
    (hs : s.Sound config r d) {id : ProcessId} {harq : HarqTable Rnti Pdu}
    (h : s.harq.release r id = .ok harq) :
    LinkState.Sound config r d { s with inFlight := s.inFlight.erase id, harq } := by
  obtain ⟨-, -, hharq⟩ := HarqTable.release_ok_iff.mp h
  have hproc := HarqTable.process?_release h
  refine ⟨hs.groups, hs.uplink, HarqTable.wellFormed_release hs.harq h, ?_, ?_, ?_⟩
  · rw [← hs.capacity, hharq]
    simp [HarqTable.put, HarqTable.capacity]
  · intro id' q hq hh
    rw [hproc] at hq
    rw [Table.get?_erase_if]
    split at hq
    · cases hq
      exact absurd rfl hh
    · next hid =>
      rw [if_neg hid]
      exact hs.bound id' q hq hh
  · intro id' b hb
    rw [Table.get?_erase_if] at hb
    split at hb
    · cases hb
    · next hid =>
      rw [hproc, if_neg hid]
      exact hs.block id' b hb

theorem inFlight_of_not_released {config : CellConfig} {r : Rnti} {d : Direction} {s : LinkState}
    (hs : s.Sound config r d) {id : ProcessId} {e : HarqError}
    (h : s.harq.release r id = .error e) : s.inFlight.erase id = s.inFlight := by
  apply Table.ext_get?
  intro id'
  rw [Table.get?_erase_if]
  split
  · next hid =>
    subst hid
    cases hb : s.inFlight.get? id' with
    | none => rfl
    | some b =>
      obtain ⟨-, p, hp, hk, -⟩ := hs.block id' b hb
      have hfree : id' ∉ s.harq.free := by
        rw [hs.harq.free_iff]
        rintro ⟨q, hq, hnone⟩
        rw [hp, Option.some.injEq] at hq
        rw [← hq, hk] at hnone
        cases hnone
      have := HarqTable.release_ok_iff.mpr ⟨hfree, ⟨p, hp, hk⟩, rfl⟩
      rw [h] at this
      cases this
  · rfl

end Cell

/-- An answer marks a block to be sent again, or it takes the block away and releases its process. A
process that cannot be released stays as it is. -/
def LinkState.Answered (max : UInt8) (r : Rnti) (id : ProcessId) (success : Bool)
    (s s' : LinkState) : Prop :=
  (∃ b, s.inFlight.get? id = some b ∧ success = false ∧ b.transmissions.toNat < max.toNat ∧
      s' = { s with inFlight := s.inFlight.insert id { b with lost := true } }) ∨
    (∀ b, s.inFlight.get? id = some b → success = true ∨ max.toNat ≤ b.transmissions.toNat) ∧
      ∃ harq, s' = { s with inFlight := s.inFlight.erase id, harq } ∧
        (s.harq.release r id = .ok harq ∨ harq = s.harq ∧ ∃ e, s.harq.release r id = .error e)

namespace Cell

variable {c c' : Cell}

theorem feedback_cases (c : Cell) (f : Feedback) :
    c.user? f.rnti = none ∧ (c.feedback f).1 = c ∨
    ∃ u s, c.user? f.rnti = some u ∧ (c.feedback f).1 = c.put (u.setLink f.direction s) ∧
      (u.link f.direction).Answered c.config.maxTransmissions f.rnti f.process f.success s := by
  unfold Cell.feedback
  split
  · next hnone => exact .inl ⟨hnone, rfl⟩
  · next u hu =>
    simp only
    split
    · next b hretry =>
      obtain ⟨hb, hretry⟩ := Option.filter_eq_some_iff.mp hretry
      simp only [Bool.and_eq_true, decide_eq_true_eq, UInt8.lt_iff_toNat_lt,
        Bool.not_eq_true'] at hretry
      exact .inr ⟨u, _, hu, rfl, .inl ⟨b, hb, hretry.1, hretry.2, rfl⟩⟩
    · next hretry =>
      have hdone : ∀ b, (u.link f.direction).inFlight.get? f.process = some b →
          f.success = true ∨ c.config.maxTransmissions.toNat ≤ b.transmissions.toNat := by
        intro b hb
        have := Option.filter_eq_none_iff.mp hretry b hb
        simp only [Bool.and_eq_true, decide_eq_true_eq, UInt8.lt_iff_toNat_lt,
          Bool.not_eq_true', not_and, Nat.not_lt] at this
        cases hsuccess : f.success with
        | true => exact .inl rfl
        | false => exact .inr (this hsuccess)
      split
      · next e herror =>
        exact .inr ⟨u, _, hu, rfl, .inr ⟨hdone, _, rfl, .inr ⟨rfl, e, herror⟩⟩⟩
      · next harq hrelease =>
        exact .inr ⟨u, _, hu, rfl, .inr ⟨hdone, harq, rfl, .inl hrelease⟩⟩

theorem Sound.feedback (hc : c.Sound) (f : Feedback) : (c.feedback f).1.Sound := by
  rcases feedback_cases c f with ⟨-, hsame⟩ | ⟨u, s, hu, hput, hanswered⟩
  · rw [hsame]
    exact hc
  · have hs := hc.user_sound hu f.direction
    rw [hput]
    apply hc.put
    apply (hc.user_sound hu).setLink
    rw [hc.user_rnti hu] at hs ⊢
    rcases hanswered with ⟨b, hb, -, hretry, rfl⟩ | ⟨-, harq, rfl, hrelease | ⟨rfl, e, herror⟩⟩
    · exact sound_lost hs hb hretry
    · exact sound_released hs hrelease
    · exact hs.congr rfl rfl (inFlight_of_not_released hs herror)

end Cell

end Airtime
