import Airtime.Proofs.SidelinkStep
import Airtime.Proofs.SlotRange

/-! When queues hold too much. Reports are taken as they come, and nothing but the bytes that wait can
leave the range of a computation on a small grid. So a scheduler works exactly as long as each total that
it needs is a word. -/

namespace Airtime

namespace Groups

theorem succeeds_totals {gs : Groups} (h : gs.bytes < UInt32.size) : Succeeds gs.total ∧
    ∀ g ∈ gs.values, Succeeds g.total ∧ ∀ ch ∈ g.channels.values, Succeeds ch.total := by
  refine ⟨succeeds_total_iff.mpr h, fun g hg => ?_⟩
  have hgroup : g.bytes < UInt32.size := (le_sum_map Group.bytes hg).trans_lt h
  refine ⟨(Word.succeeds_iff_lt fun _ => Group.total_ok_iff).mpr hgroup, fun ch hch => ?_⟩
  exact Channel.succeeds_total_iff.mpr ((le_sum_map Channel.bytes hch).trans_lt hgroup)

end Groups

namespace Draft

variable {config : CellConfig} {d : Direction} {draft draft' : Draft} {u u' : User}

theorem left_start (valid : config.Valid) (h : Draft.start config d = .ok draft) :
    draft.left ≠ 0 := by
  have hcontrol := valid.control_lt d
  simp only [start, bind_ok_iff, pure_ok_iff, Word.sub_eq_ok, Word.toNat_uint32] at h
  obtain ⟨left, hsum, rfl⟩ := h
  simp only
  rintro rfl
  rw [UInt32.toNat_zero] at hsum
  omega

theorem left_resendUser (hquiet : (u.link d).hasLost = false)
    (h : draft.resendUser d u = .ok (draft', u')) : draft'.left = draft.left := by
  obtain ⟨units, blocks, hwalk, -⟩ := resendUser_cases h
  refine hwalk.keeps (I := fun s => s.1.left = draft.left) rfl ?_
  rintro ⟨draft₁, units₁⟩ id b ⟨draft₂, units₂⟩ b' hb hsame hstep
  rcases resend_cases hstep with ⟨rfl, -, -⟩ | ⟨_, _, _, hlost, -⟩
  · exact hsame
  · have hkept : b.lost = false := by
      simpa using List.any_eq_false.mp hquiet b (List.mem_map_of_mem hb)
    rw [hkept] at hlost
    cases hlost

end Draft

namespace Cell

variable {c c' : Cell} {d : Direction} {draft : Draft}

theorem inRange_of_small (hc : c.Sound) (hgrid : c.config.groups.toNat *
      c.config.blocksPerGroup.toNat * c.config.symbols.toNat < UInt16.size)
    (hbytes : ∀ r u, c.user? r = some u → (u.link d).groups.bytes < UInt32.size) : c.InRange d := by
  have hblocks : 0 < c.config.groups.toNat * c.config.blocksPerGroup.toNat :=
    Nat.mul_pos hc.valid.groups_pos hc.valid.blocks_pos
  have hsymbols : c.config.symbols.toNat < UInt16.size :=
    (Nat.le_mul_of_pos_left _ hblocks).trans_lt hgrid
  refine ⟨?_, hbytes, fun _ => ?_⟩
  · rw [Nat.mul_assoc, Nat.mul_comm]
    exact hgrid.trans (by decide)
  · have hqueued : (c.users.sumOf fun u => (u.link d).groups.bytes) ≤ c.users.size * (2 ^ 32 - 1) :=
      Table.sumOf_le _ fun r u hu => Nat.le_sub_one_of_lt (hbytes r u hu)
    have husers : c.users.size ≤ 2 ^ 16 := Table.size_le _ fun r => r.value.toNat_lt
    calc c.config.symbols.toNat * (c.users.sumOf fun u => (u.link d).groups.bytes)
        ≤ (2 ^ 16 - 1) * (2 ^ 16 * (2 ^ 32 - 1)) :=
          Nat.mul_le_mul (Nat.le_sub_one_of_lt hsymbols)
            (hqueued.trans (Nat.mul_le_mul_right _ husers))
      _ < UInt64.size := by decide

theorem bytes_of_contenders {active : Contenders} (h : c.contenders d = .ok active) {r : Rnti}
    {u : User} (hu : c.user? r = some u) : (u.link d).groups.bytes < UInt32.size := by
  simp only [contenders, bind_ok_iff, pure_ok_iff] at h
  obtain ⟨all, hall, -⟩ := h
  obtain ⟨_, -, hread⟩ := exists_of_mapM_ok hall (Table.mem_values.mpr ⟨r, hu⟩)
  simp only [bind_ok_iff] at hread
  obtain ⟨n, hn, -⟩ := hread
  exact Groups.succeeds_total_iff.mp ⟨n, hn⟩

theorem bytes_of_scheduleDirection (hc : c.Sound)
    (hquiet : ∀ r u, c.user? r = some u → (u.link d).hasLost = false)
    (h : c.scheduleDirection d = .ok (c', draft)) {r : Rnti} {u : User} (hu : c.user? r = some u) :
    (u.link d).groups.bytes < UInt32.size := by
  simp only [scheduleDirection, bind_ok_iff, lift_fault_ok_iff] at h
  obtain ⟨draft₀, hstart, ⟨draft₁, users⟩, hresend, h⟩ := h
  have hresend := (Table.walk_ok hresend).imp fun _ _ _ _ => lift_fault_ok_iff.mp
  have hleft : draft₁.left = draft₀.left := by
    refine hresend.keeps (I := fun draft => draft.left = draft₀.left) rfl ?_
    intro draft r u draft' u' hu hsame hstep
    obtain ⟨u₀, hu₀, hlink⟩ := link_cleared (Table.mem_entries.mp hu)
    have hkept : (u.link d).hasLost = false := by
      rw [hlink]
      exact hquiet r u₀ hu₀
    rw [Draft.left_resendUser hkept hstep, hsame]
  rw [if_neg (hleft ▸ Draft.left_start hc.valid hstart)] at h
  simp only [addNewData, bind_ok_iff, lift_fault_ok_iff] at h
  obtain ⟨active, hactive, -⟩ := h
  obtain ⟨E, -, husers⟩ := resent_users (assignments_start hstart) hresend
  rcases husers r with ⟨hnone, -⟩ | ⟨u₀, s, hu₀, hu', hresent, -⟩
  · rw [hu] at hnone
    cases hnone
  · rw [hu, Option.some.injEq] at hu₀
    subst hu₀
    have hbytes := bytes_of_contenders (r := r) hactive hu'
    rwa [User.link_setLink, hresent.groups] at hbytes

/-- A slot counts the bytes of every user in both directions, if no block takes symbols before new
data. -/
theorem bytes_of_scheduleSlot (hc : c.Sound)
    (hquiet : ∀ r u d, c.user? r = some u → (u.link d).hasLost = false) {time : SlotTime}
    {slot : SlotAllocation} (h : c.scheduleSlot time = .ok (c', slot)) {r : Rnti} {u : User}
    (hu : c.user? r = some u) (d : Direction) : (u.link d).groups.bytes < UInt32.size := by
  obtain ⟨c₁, down, up, hdown, hup, -, -⟩ := scheduleSlot_cases h
  cases d with
  | downlink =>
    exact bytes_of_scheduleDirection hc (fun r u hu => hquiet r u .downlink hu) hdown hu
  | uplink =>
    have hfrom : ∀ r u', c₁.user? r = some u' → ∃ u, c.user? r = some u ∧ u'.uplink = u.uplink := by
      intro r u' hu'
      rcases scheduleDirection_user hc hdown r with ⟨-, hnone, -⟩ | ⟨u, s, hu, hsame, -⟩
      · rw [hnone] at hu'
        cases hu'
      · rw [hsame, Option.some.injEq] at hu'
        exact ⟨u, hu, hu' ▸ rfl⟩
    have hquiet₁ : ∀ r u', c₁.user? r = some u' → (u'.link .uplink).hasLost = false := by
      intro r u' hu'
      obtain ⟨u, hu, hsame⟩ := hfrom r u' hu'
      exact (congrArg LinkState.hasLost hsame).trans (hquiet r u .uplink hu)
    rcases scheduleDirection_user hc hdown r with ⟨hnone, -, -⟩ | ⟨u₀, s, hu₀, hu₁, -⟩
    · rw [hu] at hnone
      cases hnone
    · rw [hu, Option.some.injEq] at hu₀
      subst hu₀
      have hbytes := bytes_of_scheduleDirection (hc.scheduleDirection hdown) hquiet₁ hup hu₁
      exact hbytes

end Cell

theorem Sidelink.succeeds_trigger_iff {s : Sidelink} (hs : s.Sound) {id : DestinationId}
    {d : Destination} (hd : s.destination? id = some d) {cs : List Candidate}
    (htimes : ∀ c ∈ cs, c.time.numerology.toNat ≤ 7) :
    Succeeds (s.trigger id cs) ↔ d.groups.bytes < UInt32.size := by
  constructor
  · rintro ⟨answer, h⟩
    simp only [trigger, hd, bind_ok_iff] at h
    obtain ⟨n, hn, -⟩ := h
    exact Groups.succeeds_total_iff.mp ⟨n, hn⟩
  · intro hbytes
    obtain ⟨s', grants, h⟩ := trigger_ok hs hd hbytes fun c hc =>
      SlotTime.succeeds_count (Nat.lt_succ_of_le (htimes c hc))
    exact ⟨_, h⟩

/-- On a grid of fewer than 2 ^ 16 resource blocks nothing but the bytes that wait can stop a scheduler. A
slot succeeds if those of each user are a word in each direction, and unless lost blocks take the symbols
it succeeds only then. A trigger succeeds exactly if the bytes towards its destination are a word. -/
theorem only_totals_overflow {c : Cell} (hc : c.Reachable) (hgrid : c.config.groups.toNat *
      c.config.blocksPerGroup.toNat * c.config.symbols.toNat < UInt16.size)
    {s : Sidelink} (hs : s.Reachable) :
    (∀ time, (∀ r u d, c.user? r = some u → (u.link d).groups.bytes < UInt32.size) →
      Succeeds (c.scheduleSlot time)) ∧
    (∀ time, (∀ r u d, c.user? r = some u → (u.link d).hasLost = false) →
      Succeeds (c.scheduleSlot time) →
      ∀ r u d, c.user? r = some u → (u.link d).groups.bytes < UInt32.size) ∧
    (∀ id d cs, s.destination? id = some d → (∀ x ∈ cs, x.time.numerology.toNat ≤ 7) →
      (Succeeds (s.trigger id cs) ↔ d.groups.bytes < UInt32.size)) ∧
    ∀ gs : Groups, gs.bytes < UInt32.size → Succeeds gs.total ∧
      ∀ g ∈ gs.values, Succeeds g.total ∧ ∀ ch ∈ g.channels.values, Succeeds ch.total := by
  refine ⟨?_, ?_, ?_, fun _ => Groups.succeeds_totals⟩
  · intro time hbytes
    apply Cell.succeeds_scheduleSlot hc.sound
    intro d
    exact Cell.inRange_of_small hc.sound hgrid fun r u => hbytes r u d
  · rintro time hquiet ⟨⟨c', slot⟩, h⟩ r u d hu
    exact Cell.bytes_of_scheduleSlot hc.sound hquiet h hu d
  · intro id d cs hd htimes
    exact Sidelink.succeeds_trigger_iff hs.sound hd htimes

/-- A user and a destination with as many bytes as a word can count. -/
theorem only_totals_overflow_sample : ∃ (c : Cell) (s : Sidelink) (u : User) (d : Destination),
    c.Reachable ∧ s.Reachable ∧
    c.user? ⟨2⟩ = some u ∧ u.downlink.groups.bytes + 1 = UInt32.size ∧
    Succeeds (c.scheduleSlot ⟨0, 0, 1, 0⟩) ∧
    s.destination? ⟨255⟩ = some d ∧ d.groups.bytes + 1 = UInt32.size ∧
    Succeeds (s.trigger ⟨255⟩ [⟨⟨0, 2, 0, 1⟩, 0, 8, 1⟩]) := by
  have hcell : (sampleCell.performAll (sampleOperations ++
      [.reportBuffer ⟨⟨2⟩, 4, 4294967294, 0, 1, 0, 0⟩])).toOption.any (fun x =>
        (x.2.user? ⟨2⟩).any (fun u => u.downlink.groups.bytes + 1 = UInt32.size) &&
        x.2.users.values.all fun u => u.downlink.groups.bytes < UInt32.size &&
          u.uplink.groups.bytes < UInt32.size) = true := by
    decide +kernel
  have hsidelink : (sampleSidelink.performAll [
      .configureChannel { destination := ⟨255⟩, channel := 4, group := 3, priority := 1,
                          delayBudget := 20, repeated := true },
      .reportBuffer ⟨⟨255⟩, 4, 4294967294, 0, 1, 0, 0⟩]).toOption.any (fun x =>
        (x.2.destination? ⟨255⟩).any fun d => d.groups.bytes + 1 = UInt32.size) = true := by
    decide +kernel
  obtain ⟨⟨events, c⟩, hops, htest⟩ := exists_ok_of_any hcell
  simp only [Bool.and_eq_true, decide_eq_true_eq, List.all_eq_true] at htest
  obtain ⟨huser, hbytes⟩ := htest
  obtain ⟨u, hu, hfull⟩ := (Option.any_eq_true _ _).mp huser
  have hc := run_sample hops
  have hgrid : c.config.groups.toNat * c.config.blocksPerGroup.toNat * c.config.symbols.toNat <
      UInt16.size := by
    rw [hc.config]
    decide
  obtain ⟨⟨moreEvents, s⟩, hops', htest'⟩ := exists_ok_of_any hsidelink
  obtain ⟨d, hd, hfull'⟩ := (Option.any_eq_true _ _).mp htest'
  have hs : s.Reachable := ⟨_, _, _, _, sidelinkRun_sample hops'⟩
  obtain ⟨hslot, -, htrigger, -⟩ := only_totals_overflow ⟨_, _, _, _, hc⟩ hgrid hs
  refine ⟨c, s, u, d, ⟨_, _, _, _, hc⟩, hs, hu, by simpa using hfull, ?_, hd, by simpa using hfull', ?_⟩
  · apply hslot
    intro r u d hu
    have hle := hbytes u (Table.mem_values.mpr ⟨r, hu⟩)
    cases d with
    | downlink => exact hle.1
    | uplink => exact hle.2
  · refine (htrigger ⟨255⟩ d _ hd (by decide)).mpr ?_
    simp only [decide_eq_true_eq] at hfull'
    omega

/-- All three operations are accepted: the cell is set up, a channel is, and one report says that
2 ^ 32 - 1 new bytes wait there and one to be sent again. The next slot cannot add them up; nor can a
trigger towards a destination with such a report. -/
theorem accepted_reports_overflow :
    (∃ c c₁ c₂ : Cell, Cell.create sampleConfig (.proportional 10) = .ok c ∧
      c.configureChannel ⟨⟨1⟩, 4, 1, .both, 1⟩ = (c₁, .ok none) ∧
      c₁.reportBuffer ⟨⟨1⟩, 4, 4294967295, 0, 1, 0, 0⟩ = (c₂, .ok ()) ∧
      c₂.scheduleSlot ⟨0, 0, 0, 0⟩ = .error (.fault .add)) ∧
    ∃ s s₁ s₂ : Sidelink, Sidelink.create { initialMcs := 2 } (.proportional 10) = .ok s ∧
      s.configureChannel ⟨⟨255⟩, 4, 3, 1, 20, true⟩ = (s₁, .ok none) ∧
      s₁.reportBuffer ⟨⟨255⟩, 4, 4294967295, 0, 1, 0, 0⟩ = (s₂, .ok ()) ∧
      s₂.trigger ⟨255⟩ [⟨⟨0, 2, 0, 1⟩, 0, 8, 1⟩] = .error .add :=
  ⟨⟨_, _, _, rfl, rfl, rfl, rfl⟩, ⟨_, _, _, rfl, rfl, rfl, rfl⟩⟩

end Airtime
