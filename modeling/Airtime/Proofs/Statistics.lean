import Airtime.Proofs.Ledger
import Airtime.Proofs.Stages

/-! The counters of a simulation, set against what was sent to a user and what was answered. Blocks are
counted when they are first sent, bytes when they arrive, losses with each answer, in different slots;
the ledger of the user ties them together (`Cell.Books`), while feedback is delivered and from slot to
slot. -/

namespace Airtime

def Answer.counts (a : Answer) : Counters :=
  Awaited.counts ⟨a.feedback, a.block.assignment.blockSize⟩

/-- Counters that read what was sent and answered. -/
def Counters.Sums (c : Counters) (sent : List Assignment) (answers : List Answer) : Prop :=
  ∀ i, c.read i =
    (sent.map fun a => a.counts.read i).sum + (answers.map fun a => a.counts.read i).sum

def SlotAllocation.sentTo (slot : SlotAllocation) (r : Rnti) : List Assignment :=
  (slot.downlink ++ slot.uplink).filter (·.rnti = r)

theorem read_tally {κ γ : Type} [Key κ] [Meter γ] [DecidableEq κ] {t t' : Table κ γ} {e : κ × γ}
    (h : t.tally e = .ok t') (k : κ) (i : Nat) : Meter.read (t'.meter k) i =
      Meter.read (t.meter k) i + if e.1 = k then Meter.read e.2 i else 0 := by
  have hfold : [e].foldlM Table.tally t = .ok t' := by
    rw [List.foldlM_cons, h, ok_bind]
    rfl
  have hread := read_tallied hfold k i
  rw [counted_cons] at hread
  exact hread

namespace Cell

variable {c c' : Cell} {counters counters' : Table Rnti Counters} {r : Rnti}
  {sent : List Assignment} {answers : List Answer}

/-- The books of a user: the blocks on their way, the counters and the feedback that is due agree with
what was sent and answered so far. -/
structure Books (c : Cell) (counters : Table Rnti Counters) (due : List Awaited) (r : Rnti)
    (sent : List Assignment) (answers : List Answer) : Prop where
  sound : c.Sound
  matched : c.Matches (due.map fun a => a.feedback.ref)
  sizes : c.Sizes (due.map Awaited.due)
  ledger : Ledger c.config.maxTransmissions (c.blocksOf r) sent answers
  reads : (counters.meter r).Sums sent answers
  length : sent.length = answers.length + (due.filter (·.feedback.rnti = r)).length

theorem Books.feedback {a : Awaited} {due : List Awaited}
    (h : c.Books counters (a :: due) r sent answers)
    (htally : counters.tally (a.feedback.rnti, a.counts) = .ok counters') :
    ∃ x, (c.block? a.feedback.ref).map (Answer.mk a.feedback) = some x ∧
      (c.feedback a.feedback).1.Books counters' due r sent
        (answers ++ [x].filter (·.feedback.rnti = r)) := by
  have hmatched : c.Matches (a.feedback.ref :: due.map fun a => a.feedback.ref) := h.matched
  obtain ⟨b, rest, hb, hlost, hlimit, hblocks, hafter, hother⟩ := h.sound.answered hmatched
  have hrefs : c.Matches (a.feedback.ref :: (due.map Awaited.due).map Prod.fst) := by
    rw [List.map_map]
    exact hmatched
  have hsizes := h.sound.sizes_feedback hrefs h.sizes
  have hsize : b.assignment.blockSize = a.blockSize :=
    h.sizes (a.feedback.ref, a.blockSize) List.mem_cons_self b hb
  have hconfig : (c.feedback a.feedback).1.config = c.config := by
    rw [perform_frame (show c.perform (.feedback a.feedback) = .ok (_, none) from rfl)]
  have hread := read_tally htally r
  have hlength := h.length
  refine ⟨⟨a.feedback, b⟩, by rw [hb]; rfl, ?_⟩
  by_cases hr : a.feedback.rnti = r
  · rw [List.filter_cons_of_pos (by simpa using hr), List.filter_nil]
    refine ⟨h.sound.feedback _, hmatched.feedback h.sound, hsizes, ?_, fun i => ?_, ?_⟩
    · rw [hconfig]
      rw [hr] at hblocks hafter
      exact h.ledger.answer hblocks hlost hlimit hafter
    · have hold := h.reads i
      have hnew : Answer.counts ⟨a.feedback, b⟩ = a.counts := by
        rw [Answer.counts, hsize]
      have hstep := hread i
      rw [if_pos hr] at hstep
      simp only [List.map_append, List.sum_append, List.map_singleton, List.sum_singleton, hnew]
      rw [← Nat.add_assoc, ← hold]
      exact hstep
    · rw [List.filter_cons_of_pos (by simpa using hr)] at hlength
      simp only [List.length_append, List.length_cons, List.length_nil] at hlength ⊢
      omega
  · rw [List.filter_cons_of_neg (by simpa using hr), List.filter_nil, List.append_nil]
    refine ⟨h.sound.feedback _, hmatched.feedback h.sound, hsizes, ?_, fun i => ?_, ?_⟩
    · rw [hconfig, hother r (Ne.symm hr)]
      exact h.ledger
    · have hstep := hread i
      rw [if_neg hr] at hstep
      exact hstep.trans (h.reads i)
    · rwa [List.filter_cons_of_neg (by simpa using hr)] at hlength

theorem Books.refilled {due : List Awaited} {flows : Table Rnti Flow}
    (h : c.Books counters due r sent answers) (hrefilled : c.Refilled flows c') :
    c'.Books counters due r sent answers := by
  have hblock : ∀ p, c'.block? p = c.block? p := fun p => by
    rw [hrefilled.sound.block?_eq, h.sound.block?_eq, hrefilled.held]
  refine ⟨hrefilled.sound, h.matched.congr hblock, fun e he b hb => ?_, ?_, h.reads, h.length⟩
  · exact h.sizes e he b (hblock e.1 ▸ hb)
  · rw [hrefilled.config, blocksOf_congr hblock]
    exact h.ledger

theorem Books.slot {time : SlotTime} {slot : SlotAllocation} {due : List Awaited}
    (h : c.Books counters [] r sent answers) (hslot : c.scheduleSlot time = .ok (c', slot))
    (hcounts : ((slot.downlink ++ slot.uplink).map fun a => (a.rnti, a.counts)).foldlM Table.tally
      counters = .ok counters')
    (hdue : due.map Awaited.due = (slot.downlink ++ slot.uplink).map Assignment.due) :
    c'.Books counters' due r (sent ++ slot.sentTo r) answers := by
  have hrefs : due.map (fun a => a.feedback.ref) =
      (slot.downlink ++ slot.uplink).map Assignment.ref := by
    have hfirst := congrArg (List.map Prod.fst) hdue
    rwa [List.map_map, List.map_map] at hfirst
  have hcount : (due.filter (·.feedback.rnti = r)).length = (slot.sentTo r).length := by
    have hrnti := congrArg (fun l => (l.filter (·.rnti = r)).length) hrefs
    simp only [List.filter_map, List.length_map] at hrnti
    exact hrnti
  refine ⟨h.sound.scheduleSlot hslot, ?_, ?_, ?_, fun i => ?_, ?_⟩
  · rw [hrefs]
    exact Matches.scheduleSlot h.matched h.sound hslot
  · rw [hdue]
    exact h.sound.sizes_of_slot hslot
  · rw [scheduleSlot_frame hslot]
    exact h.ledger.grow (h.sound.grows_of_slot hslot r)
  · have hread := read_tallied hcounts r i
    have hmine : counted ((slot.downlink ++ slot.uplink).map fun a => (a.rnti, a.counts)) r i =
        ((slot.sentTo r).map fun a => a.counts.read i).sum := by
      rw [counted, List.filter_map, List.map_map]
      rfl
    have hold := h.reads i
    rw [List.map_append, List.sum_append]
    rw [hmine] at hread
    refine hread.trans ?_
    rw [show Meter.read (counters.meter r) i = _ from hold]
    omega
  · have hlength := h.length
    rw [List.length_append, hcount, hlength, List.filter_nil, List.length_nil]
    omega

end Cell

namespace Simulator

variable {s t : Simulator} {chance : Chance} {slot : SlotAllocation} {r : Rnti}
  {sent : List Assignment} {past : List Answer}

def answers (s : Simulator) : List Answer := s.cell.answers (s.pending.map Awaited.feedback)

/-- The answers delivered in a number of slots. -/
def history (chance : Chance) : Nat → Simulator → List Answer
  | 0, _ => []
  | n + 1, s => s.answers ++
    match s.step chance with
    | .ok (t, _) => history chance n t
    | .error _ => []

def Books (s : Simulator) (r : Rnti) (sent : List Assignment) (past : List Answer) : Prop :=
  s.cell.Books s.counters s.pending r sent past

theorem Books.deliver (h : s.Books r sent past) (hok : s.deliver = .ok t) :
    t.Books r sent (past ++ s.answers.filter (·.feedback.rnti = r)) := by
  obtain ⟨⟨done, hdone, hbooks⟩, hframe⟩ := deliver_keeps
    (I := fun rest c counters => ∃ done, s.answers = done ++ c.answers (rest.map Awaited.feedback) ∧
      c.Books counters rest r sent (past ++ done.filter (·.feedback.rnti = r)))
    hok ⟨[], rfl, by simpa [Books] using h⟩ fun a rest c counters counters' hI _ htally => by
      obtain ⟨done, hdone, hbooks⟩ := hI
      obtain ⟨x, hx, hnext⟩ := hbooks.feedback htally
      refine ⟨done ++ [x], ?_, by rwa [List.filter_append, ← List.append_assoc]⟩
      rw [hdone, List.map_cons, Cell.answers, hx, List.append_assoc]
      rfl
  have hall : s.answers = done := by
    rw [hdone]
    exact List.append_nil done
  have hpending : t.pending = [] := by rw [hframe]
  rw [Books, hpending, hall]
  exact hbooks

theorem Books.step (h : s.Books r sent past) (hs : s.InOrder)
    (hok : s.step chance = .ok (t, slot)) : t.Books r (sent ++ slot.sentTo r)
      (past ++ s.answers.filter (·.feedback.rnti = r)) := by
  obtain ⟨s₁, s₂, s₃, cell, hdeliver, hfill, hslot, hsend, hsidelink⟩ := step_cases hok
  obtain ⟨h₁, hnone, -, -⟩ := hs.deliver hdeliver
  obtain ⟨-, hfilled⟩ := fillQueues_cases hfill
  have hcounters : s₂.counters = s₁.counters := by rw [hfilled]
  have hpending : s₂.pending = [] := by rw [hfilled]; exact hnone
  have hbooks := Cell.Books.refilled (h.deliver hdeliver) (refilled_fillQueues h₁.sound h₁.carries hfill)
  rw [hnone, ← hcounters] at hbooks
  obtain ⟨hcounts, hcell, -, -, hdue, -⟩ := transmitAll_cases hsend
  have hsent := hbooks.slot hslot hcounts
    (hdue.trans (by simp only [hpending, List.map_nil, List.nil_append]))
  obtain ⟨time, -, hframe, -⟩ := stepSidelink_cases hsidelink
  rw [Books, hframe]
  exact hcell ▸ hsent

theorem Books.run {n : Nat} {slots : List SlotAllocation} (h : s.Books r sent past)
    (hs : s.InOrder) (hok : s.run chance n = .ok (t, slots)) :
    t.Books r (sent ++ slots.flatMap (·.sentTo r))
      (past ++ (s.history chance n).filter (·.feedback.rnti = r)) := by
  induction n generalizing s sent past slots with
  | zero =>
    cases hok
    simpa [history] using h
  | succ n ih =>
    obtain ⟨⟨s₁, slot⟩, hstep, hok⟩ := bind_ok_iff.mp hok
    obtain ⟨⟨t', slots'⟩, hrest, hok⟩ := bind_ok_iff.mp hok
    cases pure_ok_iff.mp hok
    have hlast := ih (h.step hs hstep) (hs.step hstep) hrest
    rw [history, hstep, List.filter_append, List.flatMap_cons, ← List.append_assoc,
      ← List.append_assoc]
    exact hlast

theorem books_start {scenario : Scenario} (h : (start scenario).2 = .ok s) (r : Rnti) :
    s.Books r [] [] := by
  obtain ⟨hs, hblank, hpending, -, hidle⟩ := inOrder_start h
  have hnone : ∀ p, s.cell.block? p = none := fun p => by
    rw [hs.sound.block?_eq, hidle]
    rfl
  have hblocks : s.cell.blocksOf r = [] := by
    have hempty : ∀ d, s.cell.inFlightOf r d = ∅ := fun d => Table.ext_get? fun id => by
      rw [Cell.get?_inFlightOf, hnone]
      rfl
    rw [Cell.blocksOf, hempty, hempty]
    rfl
  refine ⟨hs.sound, hs.matched, fun e _ b hb => ?_, ?_, fun i => ?_, ?_⟩
  · rw [hnone] at hb
    cases hb
  · rw [hblocks]
    exact .start _
  · have hzero : s.counters.meter r = {} := hblank.counted r
    rw [hzero]
    exact @Meter.read_zero Counters _ i
  · rw [hpending]
    rfl

end Simulator

theorem sum_map_ite {α : Type} (l : List α) (p : α → Bool) (f : α → Nat) :
    (l.map fun a => if p a then f a else 0).sum = ((l.filter p).map f).sum := by
  induction l with
  | nil => rfl
  | cons a l ih =>
    rw [List.map_cons, List.sum_cons, ih, List.filter_cons]
    split
    · rfl
    · exact Nat.zero_add _

/-- The last answers of blocks are those for blocks that arrived and those for blocks dropped. -/
theorem last_perm (max : UInt8) (answers : List Answer) : (answers.filter (·.last max)).Perm
    (answers.filter (·.feedback.success) ++ answers.filter (·.dropped max)) := by
  have hsplit := (List.filter_append_perm (·.feedback.success) (answers.filter (·.last max))).symm
  rw [List.filter_filter, List.filter_filter] at hsplit
  refine hsplit.trans (List.Perm.of_eq ?_)
  congr 2
  · funext a
    unfold Answer.last
    cases a.feedback.success <;> rfl
  · funext a
    unfold Answer.last Answer.dropped
    cases a.feedback.success <;> simp

theorem Counters.Sums.values {c : Counters} {sent : List Assignment} {answers : List Answer}
    (h : c.Sums sent answers) :
    (c.downlinkBytes.toNat =
      ((answers.filter fun a => a.feedback.success && a.feedback.direction = .downlink).map
        (·.block.assignment.blockSize.toNat)).sum ∧
    c.uplinkBytes.toNat =
      ((answers.filter fun a => a.feedback.success && a.feedback.direction = .uplink).map
        (·.block.assignment.blockSize.toNat)).sum) ∧
    c.newBlocks.toNat = (sent.filter (·.newData)).length ∧
    c.resent.toNat = (sent.filter (!·.newData)).length ∧
    c.losses.toNat = (answers.filter (!·.feedback.success)).length := by
  have hsent : ∀ a : Assignment, a.counts.read 0 = 0 ∧ a.counts.read 1 = 0 ∧
      a.counts.read 2 = (if a.newData then 1 else 0) ∧
      a.counts.read 3 = (if !a.newData then 1 else 0) ∧ a.counts.read 4 = 0 := by
    intro a
    unfold Assignment.counts
    cases a.newData <;> exact ⟨rfl, rfl, rfl, rfl, rfl⟩
  have hanswer : ∀ a : Answer,
      a.counts.read 0 = (if a.feedback.success && a.feedback.direction = .downlink then
        a.block.assignment.blockSize.toNat else 0) ∧
      a.counts.read 1 = (if a.feedback.success && a.feedback.direction = .uplink then
        a.block.assignment.blockSize.toNat else 0) ∧
      a.counts.read 2 = 0 ∧ a.counts.read 3 = 0 ∧
      a.counts.read 4 = (if !a.feedback.success then 1 else 0) := by
    intro a
    unfold Answer.counts Awaited.counts
    cases a.feedback.success <;> cases a.feedback.direction <;>
      simp [Counters.read]
  have hones : ∀ {α : Type} (l : List α), (l.map fun _ => 1).sum = l.length := by simp
  have hzeros : ∀ {α : Type} (l : List α), (l.map fun _ => 0).sum = 0 := by simp
  refine ⟨⟨?_, ?_⟩, ?_, ?_, ?_⟩
  · have hread := h 0
    simp only [hsent, hanswer, sum_map_ite, hzeros, Nat.zero_add] at hread
    exact hread
  · have hread := h 1
    simp only [hsent, hanswer, sum_map_ite, hzeros, Nat.zero_add] at hread
    exact hread
  · have hread := h 2
    simp only [hsent, hanswer, sum_map_ite, hzeros, hones, Nat.add_zero] at hread
    exact hread
  · have hread := h 3
    simp only [hsent, hanswer, sum_map_ite, hzeros, hones, Nat.add_zero] at hread
    exact hread
  · have hread := h 4
    simp only [hsent, hanswer, sum_map_ite, hzeros, hones, Nat.zero_add] at hread
    exact hread

theorem totalSends_le {max : Nat} {l : List Block} (h : ∀ b ∈ l, b.transmissions.toNat ≤ max) :
    totalSends l ≤ max * l.length := by
  have hle := List.sum_le_card_nsmul (l.map (·.transmissions.toNat)) max fun n hn => by
    obtain ⟨b, hb, rfl⟩ := List.mem_map.mp hn
    exact h b hb
  simpa [totalSends, Nat.mul_comm] using hle

theorem Cell.Sound.transmissions_le {c : Cell} (hc : c.Sound) {r : Rnti} {b : Block}
    (hb : b ∈ c.blocksOf r) : b.transmissions.toNat ≤ c.config.maxTransmissions.toNat := by
  have hflight : ∀ d, b ∈ (c.inFlightOf r d).values →
      b.transmissions.toNat ≤ c.config.maxTransmissions.toNat := by
    intro d hd
    obtain ⟨id, hid⟩ := Table.mem_values.mp hd
    rw [get?_inFlightOf] at hid
    obtain ⟨u, hu, hget⟩ := Option.bind_eq_some_iff.mp hid
    exact (((hc.user r u hu).2 d).block id b hget).1.limit
  rcases List.mem_append.mp hb with hb | hb
  · exact hflight .downlink hb
  · exact hflight .uplink hb

namespace Simulator

/-- What the counters of a user say, after some slots sent `sent` to it and delivered `answers`. -/
structure Statistics (s : Simulator) (r : Rnti) (sent : List Assignment) (answers : List Answer) :
    Prop where
  blocks : (s.counterOf r).newBlocks.toNat = (answers.filter (·.feedback.success)).length +
    (answers.filter (·.dropped s.cell.config.maxTransmissions)).length +
      (s.cell.blocksOf r).length
  transmissions : (s.counterOf r).newBlocks.toNat + (s.counterOf r).resent.toNat =
    (s.counterOf r).losses.toNat + (answers.filter (·.feedback.success)).length +
      (s.pending.filter (·.feedback.rnti = r)).length
  resent_le_losses : (s.counterOf r).resent.toNat ≤ (s.counterOf r).losses.toNat
  resent_le : (s.counterOf r).resent.toNat ≤
    (s.cell.config.maxTransmissions.toNat - 1) * (s.counterOf r).newBlocks.toNat
  downlinkBytes : (s.counterOf r).downlinkBytes.toNat =
    ((answers.filter fun a => a.feedback.success && a.feedback.direction = .downlink).map
      (·.block.assignment.blockSize.toNat)).sum
  uplinkBytes : (s.counterOf r).uplinkBytes.toNat =
    ((answers.filter fun a => a.feedback.success && a.feedback.direction = .uplink).map
      (·.block.assignment.blockSize.toNat)).sum
  /-- Every block that was started is among those that arrived, those that were dropped and those on
  their way, once. -/
  once : ((sent.filter (·.newData)).map Assignment.common).Perm
    ((answers.filter (·.feedback.success)).map (·.block.assignment.common) ++
      (answers.filter (·.dropped s.cell.config.maxTransmissions)).map (·.block.assignment.common) ++
      (s.cell.blocksOf r).map (·.assignment.common))

theorem Books.statistics {s : Simulator} {r : Rnti} {sent : List Assignment}
    {answers : List Answer} (h : s.Books r sent answers) : s.Statistics r sent answers := by
  have hledger := h.ledger
  have hlast := last_perm s.cell.config.maxTransmissions answers
  have honce := hledger.started.trans ((hlast.map (·.block.assignment.common)).append_right _)
  rw [List.map_append] at honce
  obtain ⟨⟨hdown, hup⟩, hnew, hresent, hlosses⟩ :=
    Counters.Sums.values (show (s.counterOf r).Sums sent answers from h.reads)
  have hstarted := honce.length_eq
  simp only [List.length_append, List.length_map] at hstarted
  have hsent : (sent.filter (·.newData)).length + (sent.filter (!·.newData)).length =
      sent.length := by
    rw [← List.length_append]
    exact (List.filter_append_perm _ sent).length_eq
  have hanswers : (answers.filter (·.feedback.success)).length +
      (answers.filter (!·.feedback.success)).length = answers.length := by
    rw [← List.length_append]
    exact (List.filter_append_perm _ answers).length_eq
  have hlength := h.length
  have hanswered := hledger.answered
  have hopen : (openBlocks (s.cell.blocksOf r)).length ≤ (s.cell.blocksOf r).length :=
    List.length_filter_le _ _
  refine ⟨by omega, by omega, by omega, ?_, hdown, hup, honce⟩
  -- Each block was sent at most as often as the configuration allows.
  have hmax : sent.length ≤ s.cell.config.maxTransmissions.toNat * (s.counterOf r).newBlocks.toNat := by
    have hdone := totalSends_le (l := (answers.filter (·.last s.cell.config.maxTransmissions)).map
      Answer.block) fun b hb => by
        obtain ⟨a, ha, rfl⟩ := List.mem_map.mp hb
        exact hledger.limit a (List.mem_of_mem_filter ha)
    have hway := totalSends_le fun b hb => h.sound.transmissions_le (r := r) hb
    have hlasts := hlast.length_eq
    rw [List.length_append] at hlasts
    rw [List.length_map, hlasts] at hdone
    rw [hledger.sends, hnew, hstarted, Nat.mul_add]
    exact Nat.add_le_add hdone hway
  rw [Nat.sub_one_mul]
  omega

end Simulator

/-- After any number of slots, the counters of every user agree with the blocks that arrived, the
blocks that were dropped, the blocks on their way and the feedback that is due; every block counts
once, however often it was sent. -/
theorem statistics_add_up {scenario : Scenario} {s t : Simulator} {chance : Chance} {n : Nat}
    {slots : List SlotAllocation} (h : (Simulator.start scenario).2 = .ok s)
    (hrun : s.run chance n = .ok (t, slots)) (r : Rnti) :
    t.Statistics r (slots.flatMap (·.sentTo r))
      ((s.history chance n).filter (·.feedback.rnti = r)) := by
  have hbooks := (Simulator.books_start h r).run (Simulator.inOrder_start h).1 hrun
  rw [List.nil_append, List.nil_append] at hbooks
  exact hbooks.statistics

def patchyScenario : Scenario where
  users := [{ rnti := ⟨1⟩, downlinkRate := 40, uplinkRate := 9 }]
  scheduler := { maxTransmissions := 2 }

def patchyChance : Chance :=
  ⟨fun n => if n < 3 then 0 else 0.5, fun _ _ => 0, fun _ _ h => h⟩

/-- Of six blocks three arrived, one was dropped and two are on their way. -/
theorem statistics_add_up_sample : ∃ s t slots answers,
    (Simulator.start patchyScenario).2 = .ok s ∧ s.run patchyChance 4 = .ok (t, slots) ∧
    answers = (s.history patchyChance 4).filter (·.feedback.rnti = ⟨1⟩) ∧
    t.counterOf ⟨1⟩ = ⟨82, 49, 6, 2, 3⟩ ∧ (answers.filter (·.feedback.success)).length = 3 ∧
    (answers.filter (·.dropped 2)).length = 1 ∧
    t.Statistics ⟨1⟩ (slots.flatMap (·.sentTo ⟨1⟩)) answers := by
  have hstarted : (Simulator.start patchyScenario).2.toOption.any (fun s =>
      (s.run patchyChance 4).toOption.any fun x =>
        let answers := (s.history patchyChance 4).filter (·.feedback.rnti = ⟨1⟩)
        x.1.counterOf ⟨1⟩ = ⟨82, 49, 6, 2, 3⟩ ∧ (answers.filter (·.feedback.success)).length = 3 ∧
          (answers.filter (·.dropped 2)).length = 1) = true := by
    decide +kernel
  obtain ⟨s, hstart, htest⟩ := exists_ok_of_any hstarted
  obtain ⟨⟨t, slots⟩, hrun, htest⟩ := exists_ok_of_any htest
  obtain ⟨hcounters, harrived, hdropped⟩ := of_decide_eq_true htest
  exact ⟨s, t, slots, _, hstart, hrun, rfl, hcounters, harrived, hdropped,
    statistics_add_up hstart hrun ⟨1⟩⟩

end Airtime
