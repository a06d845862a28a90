import Airtime.Proofs.SidelinkStep

/-! One slot of the sidelink's traffic. What is due is delivered, and each destination in turn may then
send one block, whose process waits for the next delivery. -/

namespace Airtime

namespace Sidelink

variable {s s' : Sidelink} {id : DestinationId} {flows : Table DestinationId SidelinkFlow}

theorem Carries.withHarq (h : s.Carries flows) {harq : HarqTable DestinationId Packet}
    (wf : harq.WellFormed) : Carries { s with harq } flows := ⟨h.sound.withHarq wf, h.uses⟩

theorem grants_cons {chosen : List Candidate} (first : Grant) (h : chosen ≠ []) :
    ∃ g rest, grants chosen first = g :: rest ∧ g.process = first.process ∧
      g.content = first.content ∧ rest.length + 1 = chosen.length := by
  cases chosen with
  | nil => exact absurd rfl h
  | cons c cs =>
    refine ⟨_, _, rfl, rfl, rfl, ?_⟩
    rw [List.length_map, List.length_zipIdx, List.length_cons]

theorem Holds.taken {due : List (DestinationId × ProcessId)} (h : s.Holds due)
    {process : ProcessId} {q p : Process DestinationId Packet}
    (hq : s.harq.process? process = some q) (hfree : q.holder = none) (hk : p.holder = some id)
    (hbytes : heldBytes p < UInt32.size) (hprocess : ∀ process', s'.harq.process? process' =
      if process' = process then some p else s.harq.process? process') :
    s'.Holds (due ++ [(id, process)]) := by
  -- What is due is held, so none of these processes was taken.
  have hfresh : ∀ e ∈ due, e.2 ≠ process := by
    intro e he heq
    obtain ⟨q', hq', hholder, -⟩ := h.held e he
    rw [heq, hq, Option.some.injEq] at hq'
    rw [← hq', hfree] at hholder
    cases hholder
  refine ⟨?_, fun id' process' p' hp' hk' => ?_, fun e he => ?_⟩
  · rw [List.map_append, List.nodup_append]
    refine ⟨h.nodup, List.nodup_singleton _, fun a ha b hb => ?_⟩
    obtain ⟨e, he, rfl⟩ := List.mem_map.mp ha
    rw [List.mem_singleton.mp hb]
    exact hfresh e he
  · rw [hprocess] at hp'
    split at hp'
    · next hid =>
      cases hp'
      rw [hk] at hk'
      cases hk'
      rw [hid]
      exact List.mem_append_right _ (List.mem_singleton_self _)
    · exact List.mem_append_left _ (h.listed id' process' p' hp' hk')
  · rcases List.mem_append.mp he with he | he
    · obtain ⟨q', hq', hrest⟩ := h.held e he
      exact ⟨q', by rwa [hprocess, if_neg (hfresh e he)], hrest⟩
    · rw [List.mem_singleton.mp he]
      exact ⟨p, by rw [hprocess, if_pos rfl], hk, hbytes⟩

theorem Sent.carries {first : Grant} (hsent : s.Sent id first s') (h : s.Carries flows)
    (hid : (flows.get? id).isSome) :
    s'.Carries flows ∧ (first.content.map fun p => p.size.toNat).sum < UInt32.size := by
  obtain ⟨f, hf⟩ := Option.isSome_iff_exists.mp hid
  obtain ⟨d, harq, groups, hd, -, hassign, hfill, rfl⟩ := hsent.stored
  obtain ⟨d₀, k, hd₀, honly, hbytes⟩ := h.uses id f hf
  obtain rfl : d = d₀ := Option.some.inj (hd.symm.trans hd₀)
  have hfilled := Groups.filled_of_fill (h.sound.groups id d hd) hfill
  have hwf := HarqTable.wellFormed_assign h.sound.harq hassign
  refine ⟨(h.withHarq hwf).put hfilled.wellFormed (fun f' hf' => ?_) ?_, ?_⟩
  · obtain rfl : f = f' := Option.some.inj (hf.symm.trans hf')
    exact ⟨k, honly.filled hfilled⟩
  · have := hfilled.bytes_left
    simp only
    omega
  · rw [hfilled.sum]
    omega

/-- A block that was sent is stored in its process, which is then held like those whose feedback is
due already. -/
theorem Sent.store_ok {first : Grant} (hsent : s.Sent id first s') (h : s.Carries flows)
    (hid : (flows.get? id).isSome) {due : List (DestinationId × ProcessId)} (hdue : s.Holds due) :
    ∃ harq p, Carries { s' with harq } flows ∧
      Holds { s' with harq } (due ++ [(id, first.process)]) ∧
      heldBytes p = (first.content.map fun p => p.size.toNat).sum ∧ heldBytes p < UInt32.size ∧
      (∀ process, harq.process? process =
        if process = first.process then some p else s.harq.process? process) ∧
      first.content.foldlM (fun (s : Sidelink) p => Prod.fst <$> accepted
        (s.addPacket id p.channel first.process (List.replicate p.size.toNat 0))) s' =
          .ok { s' with harq } := by
  obtain ⟨hcarries, hsum⟩ := hsent.carries h hid
  obtain ⟨d, harq, groups, hd, -, hassign, hfill, hs'⟩ := hsent.stored
  have wf := h.sound.groups id d hd
  have hprocess : ∀ process, s'.harq.process? process =
      if process = first.process then some ⟨some id, ∅, []⟩ else s.harq.process? process := by
    rw [hs']
    exact HarqTable.process?_assign h.sound.harq hassign
  have htaken := (hprocess first.process).trans (if_pos rfl)
  obtain ⟨p, hk, hpaired, hsize, hstore⟩ := storeAll_ok (l := first.content) htaken rfl rfl
    ((Groups.filled_of_fill wf hfill).channels_nodup wf) fun _ _ => List.not_mem_nil
  have hwf := HarqTable.wellFormed_put hcarries.sound.harq htaken rfl hk hpaired
  have hheld : heldBytes p = (first.content.map fun p => p.size.toNat).sum := by
    simpa [heldBytes] using hsize
  have hafter : ∀ process, (s'.harq.put first.process p).process? process =
      if process = first.process then some p else s.harq.process? process := by
    intro process
    rw [HarqTable.process?_put htaken, hprocess]
    split <;> rfl
  rw [← hheld] at hsum
  exact ⟨_, p, hcarries.withHarq hwf, hdue.taken (HarqTable.process?_assigned h.sound.harq hassign)
    rfl hk hsum hafter, hheld, hsum, hafter, hstore⟩

end Sidelink

namespace SidelinkTraffic

variable {t : SidelinkTraffic} {chance : Chance} {id : DestinationId} {time : SlotTime}

/-- Between slots, each destination has its channel, and the processes held are those on their way. -/
structure Steady (t : SidelinkTraffic) : Prop where
  carries : t.scheduler.Carries t.flows
  holds : t.scheduler.Holds t.pending

theorem read_grant_le {n : Nat} (hn : n ≤ 255) (i : Nat) :
    Meter.read (SidelinkCounters.grant n) i ≤ 255 := by
  change SidelinkCounters.read _ i ≤ _
  unfold SidelinkCounters.read
  split
  · exact Nat.zero_le _
  · exact Nat.le_of_ble_eq_true rfl
  · exact (Nat.mod_le _ _).trans hn
  all_goals exact Nat.zero_le _

theorem read_missed_le (i : Nat) :
    Meter.read ({ missed := 1 } : SidelinkCounters) i ≤ 255 := by
  change SidelinkCounters.read _ i ≤ _
  unfold SidelinkCounters.read
  split
  all_goals exact Nat.le_of_ble_eq_true rfl

def taken (flows : Table DestinationId SidelinkFlow) (id : DestinationId) (bytes : UInt32) :
    Table DestinationId SidelinkFlow :=
  match flows.get? id with
  | some f => flows.insert id { f with queue := f.queue.remove bytes }
  | none => flows

theorem channel_taken (flows : Table DestinationId SidelinkFlow) (id : DestinationId)
    (bytes : UInt32) (id' : DestinationId) :
    ((taken flows id bytes).get? id').map SidelinkFlow.channel =
      (flows.get? id').map SidelinkFlow.channel := by
  unfold taken
  split
  · next f hf =>
    rw [Table.get?_insert_if]
    split
    · next he =>
      rw [he, hf]
      rfl
    · rfl
  · rfl

theorem send_ok {first g : Grant} {s : Sidelink} (h : t.Steady) (hid : (t.flows.get? id).isSome)
    (hsent : t.scheduler.Sent id first s) (hprocess : g.process = first.process)
    (hcontent : g.content = first.content) (transmissions : Nat) :
    ∃ t' : SidelinkTraffic, t'.Steady ∧
      (∀ id, (t'.flows.get? id).isSome = (t.flows.get? id).isSome) ∧
      Adds [(id, SidelinkCounters.grant transmissions)]
        (fun counters => send { t with scheduler := s, counters } id g transmissions)
        fun counters => { t' with counters } := by
  obtain ⟨harq, p, hcarries, hholds, hsum, hlt, -, hstore⟩ :=
    hsent.store_ok h.carries hid h.holds
  obtain ⟨bytes, hbytes⟩ : Succeeds (Word.sum (g.content.map Pdu.size)) := by
    rw [Word.succeeds_sum_iff, List.map_map, hcontent]
    exact lt_of_eq_of_lt hsum.symm hlt
  refine ⟨{ t with
    scheduler := { s with harq }, flows := taken t.flows id bytes,
    pending := t.pending ++ [(id, g.process)] }, ⟨hcarries.congr (channel_taken t.flows id bytes),
      hprocess ▸ hholds⟩, fun id' => ?_, adds_singleton fun counts c hc => ?_⟩
  · have := congrArg Option.isSome (channel_taken t.flows id bytes id')
    rwa [Option.isSome_map, Option.isSome_map] at this
  · obtain ⟨blocks, sent, hblocks, htransmissions, rfl⟩ := SidelinkCounters.add_grant_ok hc
    rw [← hcontent, ← hprocess] at hstore
    refine bind_ok_iff.mpr ⟨_, lift_refusal_ok_iff.mpr hstore, ?_⟩
    refine bind_ok_iff.mpr ⟨bytes, lift_fault_ok_iff.mpr hbytes, ?_⟩
    refine bind_ok_iff.mpr ⟨blocks, lift_fault_ok_iff.mpr hblocks, ?_⟩
    exact bind_ok_iff.mpr ⟨sent, lift_fault_ok_iff.mpr htransmissions, rfl⟩

/-- Every request for an allocation is answered: it is granted, passed over, or counted as missed. -/
theorem allocate_ok (chance : Chance) (h : t.Steady) (hid : (t.flows.get? id).isSome)
    (htime : time.numerology.toNat < 8) (drawn : Nat) :
    ∃ (t' : SidelinkTraffic) (drawn' : Nat) (amounts : List (DestinationId × SidelinkCounters)),
      t'.Steady ∧ (∀ id, (t'.flows.get? id).isSome = (t.flows.get? id).isSome) ∧
      CountsAtMost 255 amounts ∧
      Adds amounts (fun counters => allocate chance time ({ t with counters }, drawn) id)
        fun counters => ({ t' with counters }, drawn') := by
  obtain ⟨f, hf⟩ := Option.isSome_iff_exists.mp hid
  obtain ⟨d, k, hd, -, hbytes⟩ := h.carries.uses id f hf
  obtain ⟨offered, hoffered, htimes⟩ := candidates_ok t chance drawn htime
  obtain ⟨s, outcome, htrigger⟩ := Sidelink.trigger_ok h.carries.sound hd hbytes htimes
  rcases Sidelink.trigger_cases htrigger with ⟨rfl, hnone | ⟨why, hwhy⟩⟩ |
    ⟨chosen, first, hchosen, hlength, hgranted, hsent⟩
  · obtain rfl : outcome = none := Except.ok.inj hnone
    refine ⟨t, drawn + offered.length, [(id, { missed := 1 })], h, fun _ => rfl,
      countsAtMost_singleton read_missed_le, adds_singleton fun counts c hc => ?_⟩
    obtain ⟨missed, hmissed, rfl⟩ := SidelinkCounters.add_missed_ok hc
    refine bind_ok_iff.mpr ⟨offered, lift_fault_ok_iff.mpr hoffered, ?_⟩
    refine bind_ok_iff.mpr ⟨_, lift_fault_ok_iff.mpr htrigger, ?_⟩
    refine bind_ok_iff.mpr ⟨(t.scheduler, none), rfl, ?_⟩
    exact bind_ok_iff.mpr ⟨missed, lift_fault_ok_iff.mpr hmissed, rfl⟩
  · cases hwhy
  · obtain rfl : outcome = some (Sidelink.grants chosen first) := Except.ok.inj hgranted
    obtain ⟨g, rest, hgrants, hprocess, hcontent, hrest⟩ := Sidelink.grants_cons first hchosen
    obtain ⟨t', hsteady, hflows, hsend⟩ := send_ok h hid hsent hprocess hcontent (rest.length + 1)
    refine ⟨t', drawn + offered.length, [(id, .grant (rest.length + 1))], hsteady, hflows,
      countsAtMost_singleton (read_grant_le (by omega)), fun counts counters hcount => ?_⟩
    rw [hgrants] at htrigger
    refine bind_ok_iff.mpr ⟨offered, lift_fault_ok_iff.mpr hoffered, ?_⟩
    refine bind_ok_iff.mpr ⟨_, lift_fault_ok_iff.mpr htrigger, ?_⟩
    refine bind_ok_iff.mpr ⟨(s, some (g :: rest)), rfl, ?_⟩
    exact bind_ok_iff.mpr ⟨_, hsend counts counters hcount, rfl⟩

theorem allocateAll_ok (chance : Chance) {ids : List DestinationId} (h : t.Steady)
    (hids : ∀ id ∈ ids, (t.flows.get? id).isSome) (htime : time.numerology.toNat < 8)
    (drawn : Nat) :
    ∃ (t' : SidelinkTraffic) (drawn' : Nat) (amounts : List (DestinationId × SidelinkCounters)),
      t'.Steady ∧ CountsAtMost (ids.length * 255) amounts ∧
      Adds amounts (fun counters => ids.foldlM (allocate chance time) ({ t with counters }, drawn))
        fun counters => ({ t' with counters }, drawn') := by
  induction ids generalizing t drawn with
  | nil => exact ⟨t, drawn, [], h, countsAtMost_nil _, adds_nil fun _ => rfl⟩
  | cons id ids ih =>
    obtain ⟨t₁, drawn₁, amounts₁, h₁, hflows, hmost₁, hfirst⟩ :=
      allocate_ok chance h (hids id List.mem_cons_self) htime drawn
    obtain ⟨t', drawn', amounts, h', hmost, hrest⟩ :=
      ih h₁ (fun id hid => by rw [hflows]; exact hids id (List.mem_cons_of_mem _ hid)) drawn₁
    refine ⟨t', drawn', amounts₁ ++ amounts, h', ?_, hfirst.bind hrest⟩
    rw [List.length_cons, Nat.succ_mul, Nat.add_comm]
    exact hmost₁.append hmost

theorem deliver_ok (h : t.Steady) :
    ∃ (t' : SidelinkTraffic) (amounts : List (DestinationId × SidelinkCounters)), t'.Steady ∧
      CountsAtMost (UInt8.size * UInt32.size) amounts ∧
      Adds amounts (fun counters => deliver { t with counters }) fun counters =>
        { t' with counters } := by
  obtain ⟨harq, amounts, hsound, hholds, hmost, hall⟩ :=
    acknowledgeAll_ok (t := { t with pending := [] }) h.carries.sound h.holds
  have hlength := Table.length_le_of_numbered h.holds.nodup UInt8.toNat
    (fun _ _ => UInt8.toNat_inj.mp) UInt8.toNat_lt_size
  rw [List.length_map] at hlength
  exact ⟨{ t with scheduler := { t.scheduler with harq }, pending := [] }, amounts,
    ⟨⟨hsound, h.carries.uses⟩, hholds⟩,
    fun k i => (hmost k i).trans (Nat.mul_le_mul_right _ hlength), hall⟩

/-- The queues grow and blocks are sent, if the counters can take it. -/
theorem step_ok (chance : Chance) (h : t.Steady) (htime : time.numerology.toNat < 8)
    (drawn : Nat) :
    ∃ (t' : SidelinkTraffic) (drawn' : Nat) (amounts : List (DestinationId × SidelinkCounters)),
      t'.Steady ∧ CountsAtMost (UInt32.size * 255) amounts ∧
      Adds amounts (fun counters => step chance drawn time { t with counters })
        fun counters => ({ t' with counters }, drawn') := by
  obtain ⟨destinations, hcarries, hfill⟩ := fillQueues_ok h.carries
  obtain ⟨n, hn⟩ := SlotTime.succeeds_count htime
  let filled : SidelinkTraffic := { t with
    scheduler := { t.scheduler with destinations }, flows := t.flows.map arrived }
  have hsteady : filled.Steady := ⟨hcarries, h.holds.frame rfl⟩
  have hdue : ∀ counters, isDue { filled with counters } time =
      .ok (decide (n.toNat % max t.setup.period.toNat 1 = 0)) := fun _ =>
    bind_ok_iff.mpr ⟨n, hn, rfl⟩
  by_cases hperiod : n.toNat % max t.setup.period.toNat 1 = 0
  · obtain ⟨t', drawn', amounts, h', hmost, hall⟩ := allocateAll_ok chance hsteady
      (fun id (hid : id ∈ filled.flows.keys) => Table.mem_keys.mp hid) htime drawn
    refine ⟨t', drawn', amounts, h', fun k i => ?_, fun counts counters hcount => ?_⟩
    · have hlength := filled.flows.size_le fun id : DestinationId => id.value.toNat_lt_size
      rw [Table.size, ← List.length_map] at hlength
      exact (hmost k i).trans (Nat.mul_le_mul_right _ hlength)
    · refine bind_ok_iff.mpr ⟨_, hfill counts, ?_⟩
      refine bind_ok_iff.mpr ⟨_, lift_fault_ok_iff.mpr (hdue counts), ?_⟩
      rw [if_pos (decide_eq_true hperiod)]
      exact hall counts counters hcount
  · refine ⟨filled, drawn, [], hsteady, countsAtMost_nil _, adds_nil fun counts => ?_⟩
    refine bind_ok_iff.mpr ⟨_, hfill counts, ?_⟩
    refine bind_ok_iff.mpr ⟨_, lift_fault_ok_iff.mpr (hdue counts), ?_⟩
    rw [if_neg (by simpa using hperiod)]
    rfl

end SidelinkTraffic

end Airtime
