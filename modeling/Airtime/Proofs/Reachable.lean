import Airtime.Proofs.Run

/-! What holds in every state that a run leads to: slots are laid out on the grid without overlap, and
the blocks on their way agree with the processes that are bound. -/

namespace Airtime

/-- In each direction all assignments of a slot, new data and retransmissions together, lie on the
grid and apart from each other. -/
theorem slot_on_grid {c c' : Cell} {time : SlotTime} {slot : SlotAllocation} (hc : c.Reachable)
    (h : c.scheduleSlot time = .ok (c', slot)) (d : Direction) :
    (∀ a ∈ slot.assignments d, a.OnGrid c.config d) ∧
      (slot.assignments d).Pairwise Assignment.Apart :=
  Cell.laid_of_scheduleSlot hc.sound h d

theorem slot_on_grid_sample : ∃ (c c' : Cell) (slot : SlotAllocation), c.Reachable ∧
    c.scheduleSlot ⟨0, 0, 1, 0⟩ = .ok (c', slot) ∧
    slot.downlink.map Assignment.newData = [false, true] ∧
    (∀ a ∈ slot.downlink, a.OnGrid c.config .downlink) ∧
    slot.downlink.Pairwise Assignment.Apart := by
  have hrun : ((sampleCell.performAll sampleOperations).bind fun x =>
      x.2.scheduleSlot ⟨0, 0, 1, 0⟩).toOption.any
        (fun x => x.2.downlink.map Assignment.newData = [false, true]) = true := by
    decide +kernel
  obtain ⟨⟨c', slot⟩, hslot, hkinds⟩ := exists_ok_of_any hrun
  obtain ⟨⟨events, c⟩, hops, hslot⟩ := bind_ok_iff.mp hslot
  have hc : c.Reachable := ⟨_, _, _, _, run_sample hops⟩
  obtain ⟨hgrid, hapart⟩ := slot_on_grid hc hslot .downlink
  exact ⟨c, c', slot, hc, hslot, by simpa using hkinds, hgrid, hapart⟩

/-- The blocks on their way and the processes of user `r` in one direction, side by side. -/
structure LinkState.Agrees (config : CellConfig) (r : Rnti) (d : Direction) (s : LinkState) :
    Prop where
  capacity : s.harq.capacity = config.processes.toNat
  bound_iff : ∀ id, (s.harq.holder? id).isSome ↔ id ∈ s.inFlight.keys
  holder : ∀ id k, s.harq.holder? id = some k → k = r
  free_iff : ∀ id, s.harq.isFree id = true ↔
    id.toNat < s.harq.capacity ∧ id ∉ s.inFlight.keys
  count : s.harq.available + s.inFlight.size = config.processes.toNat
  labelled : ∀ id b, s.inFlight.get? id = some b →
    b.assignment.process = id ∧ b.assignment.rnti = r ∧ b.assignment.direction = d
  sized : ∀ id b, s.inFlight.get? id = some b → 0 < b.assignment.blockSize.toNat
  sent : ∀ id b, s.inFlight.get? id = some b → 1 ≤ b.transmissions.toNat ∧
    b.transmissions.toNat ≤ config.maxTransmissions.toNat
  retry : ∀ id b, s.inFlight.get? id = some b → b.lost = true →
    b.transmissions.toNat < config.maxTransmissions.toNat
  payload : ∀ id b, s.inFlight.get? id = some b → ∃ pdus, s.harq.packets r id = .ok pdus ∧
    pdus ≠ [] ∧ (pdus.map Pdu.channel).Nodup ∧ (∀ p ∈ pdus, 0 < p.size.toNat) ∧
    (pdus.map fun p => p.size.toNat).sum ≤ b.assignment.blockSize.toNat

namespace LinkState.Sound

variable {config : CellConfig} {r : Rnti} {d : Direction} {s : LinkState}

theorem holder_of_mem (hs : s.Sound config r d) {id : ProcessId} (h : id ∈ s.inFlight.keys) :
    s.harq.holder? id = some r := by
  obtain ⟨b, hb⟩ := Option.isSome_iff_exists.mp (Table.mem_keys.mp h)
  obtain ⟨-, p, hp, hk, -⟩ := hs.block id b hb
  rw [HarqTable.holder?, ← HarqTable.process?, hp]
  exact hk

theorem mem_of_holder (hs : s.Sound config r d) {id : ProcessId} {k : Rnti}
    (h : s.harq.holder? id = some k) : id ∈ s.inFlight.keys := by
  obtain ⟨p, hp, hk⟩ := Option.bind_eq_some_iff.mp h
  exact Table.mem_keys.mpr (hs.bound id p hp (by simp [hk]))

theorem mem_free_iff (hs : s.Sound config r d) (id : ProcessId) :
    id ∈ s.harq.free ↔ id.toNat < s.harq.capacity ∧ id ∉ s.inFlight.keys := by
  rw [hs.harq.free_iff, ← HarqTable.process?_isSome_iff]
  constructor
  · rintro ⟨p, hp, hnone⟩
    refine ⟨by simp [hp], ?_⟩
    intro hmem
    have hr := hs.holder_of_mem hmem
    rw [HarqTable.holder?, ← HarqTable.process?, hp, Option.bind_some, hnone] at hr
    cases hr
  · rintro ⟨hsome, hmem⟩
    obtain ⟨p, hp⟩ := Option.isSome_iff_exists.mp hsome
    refine ⟨p, hp, ?_⟩
    by_contra hne
    exact hmem (Table.mem_keys.mpr (hs.bound id p hp hne))

theorem lt_capacity_of_mem (hs : s.Sound config r d) {id : ProcessId}
    (h : id ∈ s.inFlight.keys) : id.toNat < s.harq.capacity := by
  obtain ⟨p, hp, -⟩ := Option.bind_eq_some_iff.mp (hs.holder_of_mem h)
  exact HarqTable.process?_isSome_iff.mp (Option.isSome_iff_exists.mpr ⟨p, hp⟩)

theorem perm_range (hs : s.Sound config r d) :
    ((s.harq.free ++ s.inFlight.keys).map UInt8.toNat).Perm (List.range s.harq.capacity) := by
  have hnodup : (s.harq.free ++ s.inFlight.keys).Nodup := by
    refine List.nodup_append.mpr ⟨hs.harq.free_nodup, s.inFlight.keys_nodup, ?_⟩
    rintro id hid _ hmem rfl
    exact ((hs.mem_free_iff id).mp hid).2 hmem
  refine (List.perm_ext_iff_of_nodup
    (hnodup.map fun _ _ => UInt8.toNat_inj.mp) List.nodup_range).mpr fun n => ?_
  rw [List.mem_map, List.mem_range]
  constructor
  · rintro ⟨id, hid, rfl⟩
    rcases List.mem_append.mp hid with hid | hid
    · exact ((hs.mem_free_iff id).mp hid).1
    · exact hs.lt_capacity_of_mem hid
  · intro hn
    have hto := HarqTable.toNat_number (Nat.le_of_lt (Nat.lt_of_lt_of_le hn hs.harq.small))
    refine ⟨UInt8.ofNat n, List.mem_append.mpr ?_, hto⟩
    by_cases hmem : UInt8.ofNat n ∈ s.inFlight.keys
    · exact .inr hmem
    · exact .inl ((hs.mem_free_iff _).mpr ⟨by rwa [hto], hmem⟩)

end LinkState.Sound

/-- In every reachable state the blocks on their way and the bound processes agree. -/
theorem in_flight_agrees {c : Cell} {r : Rnti} {u : User} (hc : c.Reachable)
    (hu : c.user? r = some u) (d : Direction) : (u.link d).Agrees c.config r d := by
  have hs := (hc.sound.user r u hu).2 d
  constructor
  case capacity => exact hs.capacity
  case bound_iff =>
    intro id
    constructor
    · intro h
      obtain ⟨k, hk⟩ := Option.isSome_iff_exists.mp h
      exact hs.mem_of_holder hk
    · intro h
      rw [hs.holder_of_mem h]
      rfl
  case holder =>
    intro id k hk
    have := hs.holder_of_mem (hs.mem_of_holder hk)
    rw [hk, Option.some.injEq] at this
    exact this
  case free_iff => exact fun id => HarqTable.isFree_iff.trans (hs.mem_free_iff id)
  case count =>
    have hlen := hs.perm_range.length_eq
    rw [List.length_map, List.length_append, List.length_range, hs.capacity] at hlen
    rw [← hlen, HarqTable.available, Table.size, Table.keys, List.length_map]
  case labelled =>
    intro id b hb
    have hsound := (hs.block id b hb).1
    exact ⟨hsound.process, hsound.rnti, hsound.direction⟩
  case sized =>
    intro id b hb
    exact Nat.pos_of_ne_zero fun h0 => (hs.block id b hb).1.size_ne (UInt32.toNat_inj.mp h0)
  case sent =>
    intro id b hb
    have hsound := (hs.block id b hb).1
    exact ⟨hsound.sent, hsound.limit⟩
  case retry => exact fun id b hb => (hs.block id b hb).1.retry
  case payload =>
    intro id b hb
    obtain ⟨-, p, hp, hk, hpayload⟩ := hs.block id b hb
    refine ⟨p.packets, HarqTable.packets_of_held hp hk, hpayload.ne_nil, hpayload.channels_nodup,
      fun q hq => ?_, hpayload.fits⟩
    exact Nat.pos_of_ne_zero fun h0 => hpayload.size_ne q hq (UInt32.toNat_inj.mp h0)

/-- A user with one block on its way, which was lost. -/
theorem in_flight_agrees_sample : ∃ (c : Cell) (u : User), c.Reachable ∧ c.user? ⟨1⟩ = some u ∧
    u.downlink.inFlight.values.map Block.lost = [true] ∧
    u.downlink.Agrees c.config ⟨1⟩ .downlink := by
  have hrun : (sampleCell.performAll sampleOperations).toOption.any (fun x =>
      (x.2.user? ⟨1⟩).any fun u => u.downlink.inFlight.values.map Block.lost = [true]) = true := by
    decide +kernel
  obtain ⟨⟨events, c⟩, hops, huser⟩ := exists_ok_of_any hrun
  obtain ⟨u, hu, hlost⟩ := (Option.any_eq_true _ _).mp huser
  have hc : c.Reachable := ⟨_, _, _, _, run_sample hops⟩
  exact ⟨c, u, hc, hu, by simpa using hlost, in_flight_agrees hc hu .downlink⟩

end Airtime
