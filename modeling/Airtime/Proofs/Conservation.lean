import Airtime.Proofs.Reachable

/-! What a slot does to the bytes that wait: a new block takes what fits, channel by channel, and its
process stores exactly what was taken. Nothing else moves. -/

namespace Airtime

def Channel.settings (c : Channel) : Channel := { c with tx := 0, retx := 0, status := 0 }

/-- A block of `size` bytes, paid for with `pdus` by the channels of `s`, which leaves `s'`. The bytes
waiting before and after are `queued` and `left`. -/
structure LinkState.Paid (s s' : LinkState) (size : UInt32) (pdus : List Pdu)
    (queued left : UInt32) : Prop where
  before : s.backlog = .ok queued
  after : s'.backlog = .ok left
  sum : (pdus.map fun p => p.size.toNat).sum = min size.toNat queued.toNat
  left_eq : left.toNat = queued.toNat - min size.toNat queued.toNat
  drop : ∀ p ∈ pdus, ∃ c c' n n', s.groups.channel? (p.group, p.channel) = some c ∧
    s'.groups.channel? (p.group, p.channel) = some c' ∧ c.total = .ok n ∧ c'.total = .ok n' ∧
    n'.toNat + p.size.toNat = n.toNat
  spared : ∀ who, (∀ p ∈ pdus, (p.group, p.channel) ≠ who) →
    s'.groups.channel? who = s.groups.channel? who

theorem Groups.Filled.settings {gs gs' : Groups} {bytes : UInt32} {pdus : List Pdu}
    (h : Groups.Filled gs bytes pdus gs') (who : GroupId × ChannelId) :
    (gs'.channel? who).map Channel.settings = (gs.channel? who).map Channel.settings := by
  by_cases hw : who ∈ pdus.map Groups.source
  · obtain ⟨p, hp, rfl⟩ := List.mem_map.mp hw
    obtain ⟨c, hc, -, hc'⟩ := h.taken p hp
    rw [hc, hc']
    rfl
  · rw [h.spared who hw]

namespace LinkState

variable {r : Rnti} {s s' : LinkState} {a : Assignment} {pdus : List Pdu}

theorem Started.paid (h : s.Started r s' a pdus) {queued : UInt32}
    (hqueued : s.backlog = .ok queued) : ∃ left, s.Paid s' a.blockSize pdus queued left := by
  have hbytes := Groups.total_ok_iff.mp hqueued
  have hfilled := h.filled
  have hle := hfilled.bytes_left
  rw [← hbytes] at hle
  obtain ⟨left, hleft⟩ := Word.exists_toNat (n := s'.groups.bytes) (w := queued) (by simp; omega)
  rw [Word.toNat_uint32] at hleft
  refine ⟨left, hqueued, Groups.total_ok_iff.mpr hleft, hbytes ▸ hfilled.sum, by omega,
    fun p hp => ?_, fun who hwho => hfilled.spared who fun hmem => ?_⟩
  · obtain ⟨c, hc, hsize, hc'⟩ := hfilled.taken p hp
    have hchannel := Groups.bytes_le hc
    obtain ⟨n, hn⟩ := Word.exists_toNat (n := c.bytes) (w := queued) (by simp; omega)
    obtain ⟨n', hn'⟩ := Word.exists_toNat (n := c.bytes - p.size.toNat) (w := n) (by omega)
    rw [Word.toNat_uint32] at hn hn'
    refine ⟨c, _, n, n', hc, hc', Channel.total_ok_iff.mpr hn, Channel.total_ok_iff.mpr ?_, ?_⟩
    · rw [Channel.bytes_drain, hn']
    · omega
  · obtain ⟨p, hp, rfl⟩ := List.mem_map.mp hmem
    exact hwho p hp rfl

/-- A turn starts no block and leaves both stores alone, or it starts exactly one. -/
theorem Turn.started {d : Direction} {beam : BeamId} {sent : List Assignment}
    (hg : s.groups.WellFormed) (hh : s.harq.WellFormed) (h : Turn r beam d s s' sent) :
    (∀ a ∈ sent, a.newData = false) ∧ s'.groups = s.groups ∧ s'.harq = s.harq ∨
      ∃ a pdus, a ∈ sent ∧ a.newData = true ∧ (∀ b ∈ sent, b.newData = true → b = a) ∧
        s.Waiting ∧ s.Started r s' a pdus := by
  obtain ⟨s₁, again, new, hresent, rfl, hnew⟩ := h
  have hagain := hresent.newData
  rcases hnew with ⟨halike, rfl⟩ | ⟨a, hopened, rfl⟩
  · rw [List.append_nil]
    exact .inl ⟨hagain, halike.groups.trans hresent.groups, halike.harq.trans hresent.harq⟩
  · have hwaiting := hopened.waiting
    obtain ⟨pdus, hstarted⟩ := hopened.started (hresent.groups ▸ hg) (hresent.harq ▸ hh)
    rw [Waiting, backlog, hresent.groups] at hwaiting
    refine .inr ⟨a, pdus, by simp, hopened.newData, fun b hb hnew => ?_, hwaiting, ?_⟩
    · rcases List.mem_append.mp hb with hb | hb
      · rw [hagain b hb] at hnew
        cases hnew
      · exact List.mem_singleton.mp hb
    · exact ⟨hresent.groups ▸ hstarted.filled, hresent.harq ▸ hstarted.free,
        hresent.harq ▸ hstarted.empty, hresent.harq ▸ hstarted.process?, hstarted.wellFormed,
        hresent.harq ▸ hstarted.capacity, hstarted.payload⟩

end LinkState

/-- What a slot does to the bytes and processes of one user in one direction. -/
theorem slot_conserves_bytes {c c' : Cell} {time : SlotTime} {slot : SlotAllocation} {r : Rnti}
    {u : User} (hc : c.Reachable) (h : c.scheduleSlot time = .ok (c', slot))
    (hu : c.user? r = some u) (d : Direction) :
    ∃ u', c'.user? r = some u' ∧
      (∀ a ∈ slot.assignments d, a.rnti = r → a.newData = true → ∃ pdus queued left,
        (u'.link d).harq.packets r a.process = .ok pdus ∧
        (u.link d).Paid (u'.link d) a.blockSize pdus queued left) ∧
      ((∀ a ∈ slot.assignments d, a.rnti = r → a.newData = false) →
        (u'.link d).groups = (u.link d).groups ∧ (u'.link d).harq = (u.link d).harq) ∧
      (∀ id, (∀ a ∈ slot.assignments d, a.rnti = r → a.newData = true → a.process ≠ id) →
        (u'.link d).harq.process? id = (u.link d).harq.process? id) ∧
      (∀ k, ((u'.link d).groups.get? k).map Group.id =
        ((u.link d).groups.get? k).map Group.id) ∧
      ∀ who, ((u'.link d).groups.channel? who).map Channel.settings =
        ((u.link d).groups.channel? who).map Channel.settings := by
  have hs := (hc.sound.user r u hu).2 d
  rcases Cell.scheduleSlot_user hc.sound h r with ⟨hnone, -⟩ | ⟨u₀, u', hu₀, hu', -, hturn⟩
  · rw [hu] at hnone
    cases hnone
  rw [hu, Option.some.injEq] at hu₀
  subst hu₀
  refine ⟨u', hu', ?_⟩
  have hmine : ∀ a, a ∈ (slot.assignments d).filter (·.rnti = r) ↔
      a ∈ slot.assignments d ∧ a.rnti = r := by
    intro a
    simp [List.mem_filter]
  rcases (hturn d).started hs.groups hs.harq with
    ⟨hold, hgroups, hharq⟩ | ⟨a, pdus, ha, hnew, hunique, ⟨queued, hqueued, -⟩, hstarted⟩
  · rw [hgroups, hharq]
    refine ⟨fun a ha hr hnew => ?_, fun _ => ⟨rfl, rfl⟩, fun id _ => rfl, fun k => rfl,
      fun who => rfl⟩
    rw [hold a ((hmine a).mpr ⟨ha, hr⟩)] at hnew
    cases hnew
  · obtain ⟨left, hpaid⟩ := hstarted.paid hqueued
    obtain ⟨ha, hr⟩ := (hmine a).mp ha
    refine ⟨fun b hb hrb hnewb => ?_, fun hnone => ?_, fun id hid => ?_, hstarted.filled.named,
      hstarted.filled.settings⟩
    · obtain rfl := hunique b ((hmine b).mpr ⟨hb, hrb⟩) hnewb
      have hproc := hstarted.process? b.process
      rw [if_pos rfl] at hproc
      refine ⟨pdus, queued, left, ?_, hpaid⟩
      rw [HarqTable.packets_of_held hproc (by simp), Process.packets_addAll, List.nil_append]
    · rw [hnone a ha hr] at hnew
      cases hnew
    · rw [hstarted.process?, if_neg (hid a ha hr hnew).symm]

/-- A user whose bytes all fit into its new block, next to a user whose block is sent again. -/
theorem slot_conserves_bytes_sample : ∃ (c c' : Cell) (slot : SlotAllocation) (u u' : User)
    (a : Assignment) (pdus : List Pdu) (queued left : UInt32), c.Reachable ∧
    c.scheduleSlot ⟨0, 0, 1, 0⟩ = .ok (c', slot) ∧ a ∈ slot.downlink ∧ a.newData = true ∧
    c.user? ⟨2⟩ = some u ∧ c'.user? ⟨2⟩ = some u' ∧
    u'.downlink.harq.packets ⟨2⟩ a.process = .ok pdus ∧
    u.downlink.Paid u'.downlink a.blockSize pdus queued left := by
  have hrun : (sampleCell.performAll sampleOperations).toOption.any (fun x =>
      (x.2.user? ⟨2⟩).isSome && (x.2.scheduleSlot ⟨0, 0, 1, 0⟩).toOption.any fun y =>
        y.2.downlink.any fun a => a.rnti = ⟨2⟩ && a.newData) = true := by
    decide +kernel
  obtain ⟨⟨events, c⟩, hops, htest⟩ := exists_ok_of_any hrun
  obtain ⟨huser, htest⟩ := (Bool.and_eq_true _ _).mp htest
  obtain ⟨⟨c', slot⟩, hslot, htest⟩ := exists_ok_of_any htest
  obtain ⟨a, ha, htest⟩ := List.any_eq_true.mp htest
  obtain ⟨hr, hnew⟩ := (Bool.and_eq_true _ _).mp htest
  obtain ⟨u, hu⟩ := Option.isSome_iff_exists.mp huser
  have hc : c.Reachable := ⟨_, _, _, _, run_sample hops⟩
  obtain ⟨u', hu', hpaid, -⟩ := slot_conserves_bytes hc hslot hu .downlink
  obtain ⟨pdus, queued, left, hstored, hpaid⟩ := hpaid a ha (by simpa using hr) hnew
  exact ⟨c, c', slot, u, u', a, pdus, queued, left, hc, hslot, ha, hnew, hu, hu', hstored, hpaid⟩

end Airtime
