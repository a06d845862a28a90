import Airtime.Proofs.CellStep
import Airtime.Proofs.SidelinkSlot

/-! Slots of a simulation. Between slots the cell and the sidelink are in order, and the feedback that
is due fits the blocks on their way (`Simulator.Steady`). From such a state the next slot succeeds and
leads to another one, as long as the counters can take what it counts. -/

namespace Airtime

def ProcessRef.number (p : ProcessRef) : Nat :=
  (p.rnti.value.toNat * 2 + if p.direction = .downlink then 0 else 1) * 256 + p.id.toNat

theorem ProcessRef.number_inj {p q : ProcessRef} (h : p.number = q.number) : p = q := by
  obtain ⟨⟨r⟩, d, i⟩ := p
  obtain ⟨⟨r'⟩, d', i'⟩ := q
  have hi := i.toNat_lt
  have hi' := i'.toNat_lt
  simp only [number] at h
  have hprocess : i.toNat = i'.toNat := by omega
  obtain rfl : i = i' := UInt8.toNat_inj.mp hprocess
  cases d <;> cases d' <;> simp only [reduceCtorEq, if_true, if_false] at h
  · obtain rfl : r = r' := UInt16.toNat_inj.mp (by omega)
    rfl
  · omega
  · omega
  · obtain rfl : r = r' := UInt16.toNat_inj.mp (by omega)
    rfl

theorem ProcessRef.number_lt (p : ProcessRef) : p.number < 2 ^ 25 := by
  have hr := p.rnti.value.toNat_lt
  have hi := p.id.toNat_lt
  unfold number
  split <;> omega

theorem Cell.Matches.length_le {c : Cell} {due : List ProcessRef} (h : c.Matches due) :
    due.length ≤ 2 ^ 25 := by
  refine Table.length_le_of_numbered (List.nodup_iff_count_le_one.mpr fun p => ?_)
    ProcessRef.number (fun _ _ => ProcessRef.number_inj) ProcessRef.number_lt
  by_cases hp : p ∈ due
  · obtain ⟨b, hb⟩ := Option.isSome_iff_exists.mp (h.named p hp)
    rw [h.block p b hb]
    split <;> omega
  · rw [List.count_eq_zero_of_not_mem hp]
    omega

theorem read_counts_awaited_le (a : Awaited) (i : Nat) : Meter.read a.counts i ≤ UInt32.size := by
  have hsize := a.blockSize.toNat_lt_size
  change Counters.read _ i ≤ _
  unfold Awaited.counts
  split
  · cases a.feedback.direction <;>
    · unfold Counters.read
      split
      all_goals first | exact Nat.zero_le _ | exact Nat.le_of_lt (by simpa using hsize)
  · unfold Counters.read
    split
    all_goals decide

theorem read_counts_assignment_le (a : Assignment) (i : Nat) : Meter.read a.counts i ≤ 1 := by
  change Counters.read _ i ≤ _
  unfold Assignment.counts
  split
  · unfold Counters.read
    split
    all_goals decide
  · unfold Counters.read
    split
    all_goals decide

namespace Simulator

variable {s : Simulator} {chance : Chance}

/-- The feedback that is due fits the blocks on their way: a block that was lost has none, any other
one has exactly one, and there is no feedback without its block. -/
def Matched (s : Simulator) : Prop := s.cell.Matches (s.pending.map fun a => a.feedback.ref)

/-- What holds between slots. -/
structure Steady (s : Simulator) : Prop where
  sound : s.cell.Sound
  carries : s.cell.Carries s.flows
  band : s.cell.config.groups.toNat * s.cell.config.blocksPerGroup.toNat < 65536
  symbols : s.cell.config.symbols.toNat < 65536
  numerology : s.time.numerology.toNat < 8
  matched : s.Matched
  sidelink : ∀ t, s.sidelink = some t → t.Steady

def withCounters (s : Simulator) (counters : Table Rnti Counters)
    (sidelinkCounters : Table DestinationId SidelinkCounters) : Simulator :=
  { s with
    counters
    sidelink := s.sidelink.map fun t => { t with counters := sidelinkCounters } }

def sidelinkCounters (s : Simulator) : Table DestinationId SidelinkCounters :=
  (s.sidelink.map SidelinkTraffic.counters).getD ∅

theorem withCounters_self (s : Simulator) : s.withCounters s.counters s.sidelinkCounters = s := by
  obtain ⟨_, _, _, sidelink, _⟩ := s
  cases sidelink <;> rfl

theorem Steady.withCounters (h : s.Steady) (counters : Table Rnti Counters)
    (sidelinkCounters : Table DestinationId SidelinkCounters) :
    (s.withCounters counters sidelinkCounters).Steady := by
  refine ⟨h.sound, h.carries, h.band, h.symbols, h.numerology, h.matched, fun t ht => ?_⟩
  obtain ⟨t₀, ht₀, rfl⟩ := Option.map_eq_some_iff.mp ht
  exact ⟨(h.sidelink t₀ ht₀).carries, (h.sidelink t₀ ht₀).holds⟩

theorem Steady.deliver_ok (h : s.Steady) :
    ∃ (t : Simulator) (amounts : List (Rnti × Counters))
      (sidelinkAmounts : List (DestinationId × SidelinkCounters)),
      t.Steady ∧ t.pending = [] ∧ t.sidelink.isSome = s.sidelink.isSome ∧
      CountsAtMost (2 ^ 25 * UInt32.size) amounts ∧
      CountsAtMost (UInt8.size * UInt32.size) sidelinkAmounts ∧
      ∀ sidelinkCounts sidelinkCounters,
        sidelinkAmounts.foldlM Table.tally sidelinkCounts = .ok sidelinkCounters →
        Adds amounts (fun counters => deliver (s.withCounters counters sidelinkCounts))
          fun counters => t.withCounters counters sidelinkCounters := by
  obtain ⟨cell, hsound, hcarries, hconfig, hmatches, hall⟩ :=
    deliverAll_ok (s := { s with pending := [] }) h.sound h.carries h.matched
  have hsteady : ∀ side : Option SidelinkTraffic, (∀ t, side = some t → t.Steady) →
      Steady { s with cell, pending := [], sidelink := side } := fun side hside =>
    ⟨hsound, hcarries, hconfig ▸ h.band, hconfig ▸ h.symbols, h.numerology, hmatches, hside⟩
  have hmost : CountsAtMost (2 ^ 25 * UInt32.size)
      (s.pending.map fun a => (a.feedback.rnti, a.counts)) := by
    have hlength := h.matched.length_le
    rw [List.length_map] at hlength
    intro k i
    refine (countsAtMost_of_reads (n := UInt32.size) (fun e he i => ?_) k i).trans ?_
    · obtain ⟨a, -, rfl⟩ := List.mem_map.mp he
      exact read_counts_awaited_le a i
    · rw [List.length_map]
      exact Nat.mul_le_mul_right _ hlength
  cases hside : s.sidelink with
  | none =>
    refine ⟨_, _, [], hsteady none fun t ht => (by cases ht), rfl, rfl, hmost, countsAtMost_nil _,
      fun sidelinkCounts sidelinkCounters _ counts counters hcount => ?_⟩
    exact bind_ok_iff.mpr ⟨_, hall (s.sidelink.map _) counts counters hcount, by rw [hside]; rfl⟩
  | some t =>
    obtain ⟨t', amounts, ht', hmost', hside'⟩ := SidelinkTraffic.deliver_ok (h.sidelink t hside)
    refine ⟨_, _, amounts, hsteady (some t') fun t ht => ?_, rfl, rfl, hmost, hmost',
      fun sidelinkCounts sidelinkCounters hcount' counts counters hcount => ?_⟩
    · cases ht
      exact ht'
    · refine bind_ok_iff.mpr ⟨_, hall (s.sidelink.map _) counts counters hcount, ?_⟩
      rw [hside]
      exact bind_ok_iff.mpr ⟨_, hside' sidelinkCounts sidelinkCounters hcount', rfl⟩

theorem Steady.fillQueues_ok (h : s.Steady) :
    ∃ t : Simulator, t.Steady ∧ t.pending = s.pending ∧ t.sidelink = s.sidelink ∧
      ∀ counts sidelinkCounts, fillQueues (s.withCounters counts sidelinkCounts) =
        .ok (t.withCounters counts sidelinkCounts) := by
  obtain ⟨cell, hrefilled, hfill⟩ := Simulator.fillQueues_ok h.sound h.carries
  refine ⟨{ s with cell, flows := s.flows.map arrived }, ⟨hrefilled.sound, ?_, ?_, ?_, h.numerology,
    ?_, h.sidelink⟩, rfl, rfl, fun counts sidelinkCounts => hfill _ counts⟩
  · refine hrefilled.carries.congr fun r => ?_
    rw [Table.get?_map, Option.map_map]
    rfl
  · exact hrefilled.config ▸ h.band
  · exact hrefilled.config ▸ h.symbols
  · refine h.matched.congr fun p => ?_
    rw [hrefilled.sound.block?_eq, h.sound.block?_eq, hrefilled.held]

theorem Steady.send_ok (h : s.Steady) (hpending : s.pending = []) (chance : Chance) :
    ∃ (cell : Cell) (slot : SlotAllocation) (t : Simulator) (amounts : List (Rnti × Counters)),
      s.cell.scheduleSlot s.time = .ok (cell, slot) ∧ t.Steady ∧ t.sidelink = s.sidelink ∧
      CountsAtMost (2 ^ 25 * 1) amounts ∧
      ∀ sidelinkCounts, Adds amounts
        (fun counters => (slot.downlink ++ slot.uplink).foldlM (transmit chance)
          { s.withCounters counters sidelinkCounts with cell })
        fun counters => t.withCounters counters sidelinkCounts := by
  obtain ⟨⟨cell, slot⟩, hslot⟩ :=
    h.carries.succeeds_scheduleSlot h.sound h.band h.symbols s.time
  obtain ⟨flows, pending, drawn, hflows, hrefs, hall⟩ :=
    transmitAll_ok chance { s with cell } (slot.downlink ++ slot.uplink)
  have hempty : s.cell.Matches [] := by
    have := h.matched
    rwa [Matched, hpending] at this
  have hmatched := hempty.scheduleSlot h.sound hslot
  have hconfig : cell.config = s.cell.config := by rw [Cell.scheduleSlot_frame hslot]
  refine ⟨cell, slot, { s with cell, flows, pending, drawn },
    (slot.downlink ++ slot.uplink).map fun a => (a.rnti, a.counts), hslot,
    ⟨h.sound.scheduleSlot hslot, (h.carries.scheduleSlot h.sound hslot).congr hflows,
      hconfig ▸ h.band, hconfig ▸ h.symbols, h.numerology, ?_, h.sidelink⟩, rfl, fun k i => ?_,
    fun sidelinkCounts => hall _⟩
  · rw [Matched, hrefs]
    simpa [hpending] using hmatched
  · have hlength := hmatched.length_le
    rw [List.length_map] at hlength
    refine (countsAtMost_of_reads (n := 1) (fun e he i => ?_) k i).trans ?_
    · obtain ⟨a, -, rfl⟩ := List.mem_map.mp he
      exact read_counts_assignment_le a i
    · rw [List.length_map]
      exact Nat.mul_le_mul_right _ hlength

theorem Steady.stepSidelink_ok (h : s.Steady) (chance : Chance) :
    ∃ (t : Simulator) (amounts : List (DestinationId × SidelinkCounters)),
      t.Steady ∧ t.sidelink.isSome = s.sidelink.isSome ∧
      CountsAtMost (UInt32.size * 255) amounts ∧
      ∀ counters, Adds amounts
        (fun sidelinkCounters => stepSidelink chance (s.withCounters counters sidelinkCounters))
        fun sidelinkCounters => t.withCounters counters sidelinkCounters := by
  obtain ⟨time, htime, hnumerology⟩ := SlotTime.next_ok h.numerology
  have hlater : time.numerology.toNat < 8 := hnumerology ▸ h.numerology
  cases hside : s.sidelink with
  | none =>
    refine ⟨{ s with time }, [], ⟨h.sound, h.carries, h.band, h.symbols, hlater, h.matched,
      h.sidelink⟩, by rw [hside], countsAtMost_nil _,
      fun counters => adds_nil fun sidelinkCounters => ?_⟩
    simp only [stepSidelink, Simulator.withCounters, hside, Option.map_none]
    exact bind_ok_iff.mpr ⟨_, rfl, bind_ok_iff.mpr ⟨time, lift_fault_ok_iff.mpr htime, rfl⟩⟩
  | some t =>
    obtain ⟨t', drawn, amounts, ht', hmost, hall⟩ :=
      SidelinkTraffic.step_ok chance (h.sidelink t hside) h.numerology s.drawn
    refine ⟨{ s with sidelink := some t', drawn, time }, amounts, ⟨h.sound, h.carries, h.band,
      h.symbols, hlater, h.matched, fun t ht => ?_⟩, rfl, hmost,
      fun counters sidelinkCounts sidelinkCounters hcount => ?_⟩
    · cases ht
      exact ht'
    · have hstep := hall sidelinkCounts sidelinkCounters hcount
      simp only [stepSidelink, Simulator.withCounters, hside, Option.map_some]
      refine bind_ok_iff.mpr ⟨_, hstep, ?_⟩
      exact bind_ok_iff.mpr ⟨_, rfl, bind_ok_iff.mpr ⟨time, lift_fault_ok_iff.mpr htime, rfl⟩⟩

theorem Steady.step_ok (h : s.Steady) (chance : Chance) :
    ∃ (t : Simulator) (slot : SlotAllocation) (amounts : List (Rnti × Counters))
      (sidelinkAmounts : List (DestinationId × SidelinkCounters)),
      t.Steady ∧ t.sidelink.isSome = s.sidelink.isSome ∧ CountsAtMost (2 ^ 58) amounts ∧
      CountsAtMost (2 ^ 58) sidelinkAmounts ∧
      ∀ sidelinkCounts sidelinkCounters,
        sidelinkAmounts.foldlM Table.tally sidelinkCounts = .ok sidelinkCounters →
        Adds amounts (fun counters => step chance (s.withCounters counters sidelinkCounts))
          fun counters => (t.withCounters counters sidelinkCounters, slot) := by
  obtain ⟨s₁, amounts₁, sidelinkAmounts₁, h₁, hpending₁, hside₁, hmost₁, hsideMost₁, hdeliver⟩ :=
    h.deliver_ok
  obtain ⟨s₂, h₂, hpending₂, hside₂, hfill⟩ := h₁.fillQueues_ok
  obtain ⟨cell, slot, s₃, amounts₃, hslot, h₃, hside₃, hmost₃, hsend⟩ :=
    h₂.send_ok (hpending₂.trans hpending₁) chance
  obtain ⟨t, sidelinkAmounts₄, h₄, hside₄, hsideMost₄, hsidelink⟩ := h₃.stepSidelink_ok chance
  refine ⟨t, slot, amounts₁ ++ amounts₃, sidelinkAmounts₁ ++ sidelinkAmounts₄, h₄,
    by rw [hside₄, hside₃, hside₂, hside₁],
    fun k i => (hmost₁.append hmost₃ k i).trans (by decide),
    fun k i => (hsideMost₁.append hsideMost₄ k i).trans (by decide),
    fun sidelinkCounts sidelinkCounters hside => ?_⟩
  rw [List.foldlM_append] at hside
  obtain ⟨sidelinkCounts₁, hside₁, hside⟩ := bind_ok_iff.mp hside
  have hcell : Adds (amounts₁ ++ amounts₃)
      (fun counters => stepCell chance (s.withCounters counters sidelinkCounts))
      fun counters => (s₃.withCounters counters sidelinkCounts₁, slot) := by
    refine (hdeliver sidelinkCounts sidelinkCounts₁ hside₁).bind fun counts counters hcount => ?_
    refine bind_ok_iff.mpr ⟨_, hfill counts sidelinkCounts₁, ?_⟩
    refine bind_ok_iff.mpr ⟨(cell, slot), hslot, ?_⟩
    exact bind_ok_iff.mpr ⟨_, hsend sidelinkCounts₁ counts counters hcount, rfl⟩
  intro counts counters hcount
  refine bind_ok_iff.mpr ⟨_, hcell counts counters hcount, ?_⟩
  exact bind_ok_iff.mpr ⟨_, hsidelink counters sidelinkCounts₁ sidelinkCounters hside, rfl⟩

/-- Whether a counter overflows in the next slot: what the slot counts from zero does not fit on top
of what was counted so far. -/
def Overflows (chance : Chance) (s : Simulator) : Prop :=
  ∃ t slot, step chance (s.withCounters ∅ ∅) = .ok (t, slot) ∧
    ¬ (s.counters.Fits t.counters ∧ s.sidelinkCounters.Fits t.sidelinkCounters)

instance (chance : Chance) (s : Simulator) : Decidable (s.Overflows chance) :=
  match h : (s.withCounters ∅ ∅).step chance with
  | .error _ => isFalse fun ⟨t, slot, hstep, _⟩ => by
    rw [hstep] at h
    cases h
  | .ok (t, slot) =>
    decidable_of_iff
      (¬ (s.counters.Fits t.counters ∧ s.sidelinkCounters.Fits t.sidelinkCounters))
      ⟨fun hover => ⟨t, slot, h, hover⟩, fun ⟨t', slot', hstep, hover⟩ => by
        rw [h] at hstep
        cases hstep
        exact hover⟩

/-- The next slot succeeds, unless a counter overflows. -/
theorem Steady.step (h : s.Steady) (hcounts : ¬ s.Overflows chance) :
    ∃ t slot, s.step chance = .ok (t, slot) ∧ t.Steady := by
  obtain ⟨t, slot, amounts, sidelinkAmounts, ht, hside, hmost, hsideMost, hstep⟩ := h.step_ok chance
  obtain ⟨total, htotal⟩ := hmost.succeeds (by decide)
  obtain ⟨sidelinkTotal, hsidelinkTotal⟩ := hsideMost.succeeds (by decide)
  have hzero := hstep ∅ sidelinkTotal hsidelinkTotal ∅ total htotal
  have hfits : s.counters.Fits total ∧
      s.sidelinkCounters.Fits (t.withCounters total sidelinkTotal).sidelinkCounters := by
    by_contra hover
    exact hcounts ⟨_, slot, hzero, hover⟩
  obtain ⟨counters, hcounters⟩ := succeeds_tallied_of_totals htotal hfits.1
  obtain ⟨sidelinkCounters, hsidelinkCounters⟩ :
      Succeeds (sidelinkAmounts.foldlM Table.tally s.sidelinkCounters) := by
    cases htraffic : t.sidelink with
    | some t' =>
      refine succeeds_tallied_of_totals hsidelinkTotal ?_
      simpa [Simulator.sidelinkCounters, Simulator.withCounters, htraffic] using hfits.2
    | none =>
      -- Without a sidelink nothing was counted before.
      rw [htraffic] at hside
      have hnone : s.sidelinkCounters = ∅ := by
        have hside : s.sidelink = none := Option.not_isSome_iff_eq_none.mp (by simp [← hside])
        rw [Simulator.sidelinkCounters, hside]
        rfl
      exact ⟨sidelinkTotal, by rw [hnone, hsidelinkTotal]⟩
  have hnext := hstep s.sidelinkCounters sidelinkCounters hsidelinkCounters s.counters counters
    hcounters
  simp only [withCounters_self] at hnext
  exact ⟨_, slot, hnext, ht.withCounters counters sidelinkCounters⟩

/-- Any number of slots succeeds, unless a counter overflows in one of them. -/
theorem Steady.run (h : s.Steady) {n : Nat} (hcounts : ∀ m < n, ∀ t slots,
    s.run chance m = .ok (t, slots) → ¬ t.Overflows chance) :
    ∃ t slots, s.run chance n = .ok (t, slots) ∧ t.Steady := by
  induction n generalizing s with
  | zero => exact ⟨s, [], rfl, h⟩
  | succ n ih =>
    obtain ⟨s₁, slot, hstep, h₁⟩ := h.step (hcounts 0 (Nat.succ_pos n) s [] rfl)
    obtain ⟨t, slots, hrun, ht⟩ := ih h₁ fun m hm t slots hrun =>
      hcounts (m + 1) (Nat.succ_lt_succ hm) t (slot :: slots)
        (bind_ok_iff.mpr ⟨_, hstep, bind_ok_iff.mpr ⟨_, hrun, rfl⟩⟩)
    exact ⟨t, slot :: slots, bind_ok_iff.mpr ⟨_, hstep, bind_ok_iff.mpr ⟨_, hrun, rfl⟩⟩, ht⟩

end Simulator

end Airtime
