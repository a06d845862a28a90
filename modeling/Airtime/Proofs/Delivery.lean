import Airtime.Proofs.Queues
import Airtime.Proofs.SidelinkLedger
import Airtime.Proofs.Statistics

/-! What arrives, set against what was offered. The data of a user waits in its queue, then it is in the
process of its block, and after the last answer to the block it arrived or was dropped; no stage of a
slot makes more of it (`Simulator.Supplied`). The counters add up whole blocks, which may be larger than
the data in them. -/

namespace Airtime

/-- The part of an answered block that was no data. -/
def Receipt.padding (x : Receipt) : Nat := x.answer.block.assignment.blockSize.toNat - x.size

def Receipt.arrived (l : List Receipt) : Nat :=
  ((l.filter (·.answer.feedback.success)).map Receipt.size).sum

/-- The data of the blocks that were sent as often as possible and never arrived. -/
def Receipt.dropped (max : UInt8) (l : List Receipt) : Nat :=
  ((l.filter (·.answer.dropped max)).map Receipt.size).sum

def Receipt.padded (l : List Receipt) : Nat :=
  ((l.filter (·.answer.feedback.success)).map Receipt.padding).sum

theorem Receipt.settled_eq (max : UInt8) (l : List Receipt) :
    settled max l = arrived l + dropped max l := by
  rw [settled, arrived, dropped, ← sum_map_ite, ← sum_map_ite, ← sum_map_ite, ← List.sum_map_add]
  refine congrArg List.sum (List.map_congr_left fun x _ => ?_)
  unfold Answer.last Answer.dropped
  cases x.answer.feedback.success <;> simp

def Counters.bytes (c : Counters) : Direction → UInt64
  | .downlink => c.downlinkBytes
  | .uplink => c.uplinkBytes

theorem Counters.Sums.bytes {c : Counters} {sent : List Assignment} {answers : List Answer}
    (h : c.Sums sent answers) (d : Direction) : (c.bytes d).toNat =
      ((answers.filter fun a => a.feedback.success && a.feedback.direction = d).map
        (·.block.assignment.blockSize.toNat)).sum := by
  cases d with
  | downlink => exact h.values.1.1
  | uplink => exact h.values.1.2

def UserSetup.rate (u : UserSetup) : Direction → UInt32
  | .downlink => u.downlinkRate
  | .uplink => u.uplinkRate

theorem Queue.rate_removed (l : List Assignment) (q : Queue) :
    (l.foldl (fun q a => q.remove a.blockSize) q).rate = q.rate := by
  induction l generalizing q with
  | nil => rfl
  | cons a l ih => exact ih (q.remove a.blockSize)

namespace Scenario

variable {scenario : Scenario}

theorem nodup_of_check (h : scenario.check = .ok ()) :
    (scenario.users.map UserSetup.rnti).Nodup := by
  simp only [check, bind_ok_iff] at h
  obtain ⟨-, -, -, -, h⟩ := h
  split at h
  · cases h
  · split at h
    · assumption
    · cases h

theorem find?_user (h : scenario.check = .ok ()) {u : UserSetup} (hu : u ∈ scenario.users) :
    scenario.users.reverse.find? (·.rnti = u.rnti) = some u := by
  cases hfound : scenario.users.reverse.find? (·.rnti = u.rnti) with
  | none => simpa using List.find?_eq_none.mp hfound u (List.mem_reverse.mpr hu)
  | some v =>
    have hv := List.mem_reverse.mp (List.mem_of_find?_eq_some hfound)
    have hsame := List.find?_some hfound
    exact congrArg some (List.inj_on_of_nodup_map (nodup_of_check h) hv hu (by simpa using hsame))

end Scenario

namespace Cell

variable {c : Cell}

/-- The answers that feedback gives, delivered one after the other, with the data of their blocks. -/
def receipts (c : Cell) : List Feedback → List Receipt
  | [] => []
  | f :: fs => (c.receipt? f).toList ++ (c.feedback f).1.receipts fs

theorem Sound.answers_eq (hc : c.Sound) (fs : List Feedback) :
    c.answers fs = (c.receipts fs).map Receipt.answer := by
  induction fs generalizing c with
  | nil => rfl
  | cons f fs ih =>
    rw [answers, receipts, List.map_append, ih (hc.feedback f), hc.block?_eq, receipt?]
    cases c.held? f.ref <;> rfl

theorem Sound.receipts_fit (hc : c.Sound) {fs : List Feedback} {x : Receipt}
    (hx : x ∈ c.receipts fs) : x.size ≤ x.answer.block.assignment.blockSize.toNat := by
  induction fs generalizing c with
  | nil => cases hx
  | cons f fs ih =>
    rcases List.mem_append.mp hx with hx | hx
    · obtain ⟨⟨b, pdus⟩, hheld, rfl⟩ := Option.map_eq_some_iff.mp (Option.mem_toList.mp hx)
      obtain ⟨u, hu, hlink⟩ := Option.bind_eq_some_iff.mp hheld
      exact LinkState.dataIn_le ((hc.user f.rnti u hu).2 f.direction) hlink
    · exact ih (hc.feedback f) hx

end Cell

namespace Simulator

variable {s t : Simulator} {chance : Chance} {slot : SlotAllocation} {n : Nat} {r : Rnti}
  {d : Direction} {past : List Receipt}

def receiptsDue (s : Simulator) : List Receipt := s.cell.receipts (s.pending.map Awaited.feedback)

def receipts (chance : Chance) : Nat → Simulator → List Receipt
  | 0, _ => []
  | n + 1, s => s.receiptsDue ++
    match s.step chance with
    | .ok (t, _) => receipts chance n t
    | .error _ => []

theorem InOrder.history_eq (hs : s.InOrder) :
    s.history chance n = (s.receipts chance n).map Receipt.answer := by
  induction n generalizing s with
  | zero => rfl
  | succ n ih =>
    rw [history, receipts, List.map_append, answers, receiptsDue, hs.sound.answers_eq]
    cases hstep : s.step chance with
    | error e => rfl
    | ok x => exact congrArg (_ ++ ·) (ih (hs.step hstep))

theorem InOrder.receipts_fit (hs : s.InOrder) {x : Receipt} (hx : x ∈ s.receipts chance n) :
    x.size ≤ x.answer.block.assignment.blockSize.toNat := by
  induction n generalizing s with
  | zero => cases hx
  | succ n ih =>
    rcases List.mem_append.mp hx with hx | hx
    · exact hs.sound.receipts_fit hx
    · cases hstep : s.step chance with
      | error e =>
        rw [hstep] at hx
        cases hx
      | ok y =>
        rw [hstep] at hx
        exact ih (hs.step hstep) hx

def waiting (s : Simulator) (r : Rnti) (d : Direction) : Nat :=
  ((s.flows.get? r).map fun f => (f.queue d).waiting.toNat).getD 0

def arriving (s : Simulator) (r : Rnti) (d : Direction) : Nat :=
  ((s.flows.get? r).map fun f =>
    (f.queue d).arrive.waiting.toNat - (f.queue d).waiting.toNat).getD 0

def rate? (s : Simulator) (r : Rnti) (d : Direction) : Option UInt32 :=
  (s.flows.get? r).map fun f => (f.queue d).rate

/-- All data of a user in one direction: in blocks that were answered for the last time, on its way or
waiting. -/
def supply (s : Simulator) (r : Rnti) (d : Direction) (past : List Receipt) : Nat :=
  Receipt.settled s.cell.config.maxTransmissions past + s.cell.carried r d + s.waiting r d

theorem InOrder.supply_deliver (hs : s.InOrder) (hok : s.deliver = .ok t) :
    t.supply r d (past ++ s.receiptsDue.filter (·.concerns r d)) = s.supply r d past := by
  obtain ⟨-, -, hflows, hconfig⟩ := hs.deliver hok
  obtain ⟨⟨done, hdone, -, -, hsum⟩, -⟩ := deliver_keeps
    (I := fun rest c _ => ∃ done,
      s.receiptsDue = done ++ c.receipts (rest.map Awaited.feedback) ∧ c.Sound ∧
      c.config = s.cell.config ∧
      Receipt.settled s.cell.config.maxTransmissions (done.filter (·.concerns r d)) +
        c.carried r d = s.cell.carried r d)
    hok ⟨[], rfl, hs.sound, rfl, Nat.zero_add _⟩ fun a rest c _ _ hI _ _ => by
      obtain ⟨done, hdone, hc, hconfig, hsum⟩ := hI
      refine ⟨done ++ (c.receipt? a.feedback).toList, ?_, hc.feedback _, ?_, ?_⟩
      · rw [hdone, List.append_assoc]
        rfl
      · rw [Cell.perform_frame (show c.perform (.feedback a.feedback) = .ok (_, none) from rfl)]
        exact hconfig
      · have hfeedback := hc.carried_feedback a.feedback r d
        rw [hconfig] at hfeedback
        rw [List.filter_append, Receipt.settled_append]
        omega
  have hall : s.receiptsDue = done := hdone.trans (List.append_nil done)
  rw [supply, supply, waiting, waiting, hflows, hconfig, Receipt.settled_append, hall]
  omega

theorem InOrder.supply_fillQueues (hs : s.InOrder) (hok : s.fillQueues = .ok t) :
    t.supply r d past = s.supply r d past + s.arriving r d := by
  have hrefilled := refilled_fillQueues hs.sound hs.carries hok
  obtain ⟨-, hframe⟩ := fillQueues_cases hok
  have hflows : t.flows = s.flows.map arrived := by rw [hframe]
  have hwaiting : t.waiting r d = s.waiting r d + s.arriving r d := by
    rw [waiting, waiting, arriving, hflows, Table.get?_map]
    cases s.flows.get? r with
    | none => rfl
    | some f =>
      have hqueue : (arrived f).queue d = (f.queue d).arrive := by cases d <;> rfl
      simp only [Option.map_some, Option.getD_some, hqueue]
      exact (Nat.add_sub_of_le (f.queue d).waiting_le_arrive).symm
  have hcarried := Cell.carried_congr fun id => hrefilled.held ⟨r, d, id⟩
  rw [supply, supply, hrefilled.config, hcarried, hwaiting]
  omega

theorem InOrder.bytes_eq_waiting (hs : s.InOrder) (hstep : s.QueuesInStep) (r : Rnti)
    (d : Direction) : (s.cell.groupsOf r d).bytes = s.waiting r d := by
  rw [waiting]
  cases hf : s.flows.get? r with
  | none =>
    have hnone : s.cell.user? r = none := by
      rw [← Option.not_isSome_iff_eq_none, hs.carries.known, hf]
      exact Bool.false_ne_true
    rw [Cell.groupsOf, hnone]
    rfl
  | some f =>
    exact (hstep r f d hf).bytes_eq (hs.sound.groups_wellFormed r d) (hs.carries.uses r f d hf)

/-- A new block takes as much data from the queue as it carries. -/
theorem InOrder.supply_send (hs : s.InOrder) (hstep : s.QueuesInStep) {cell : Cell}
    (hslot : s.cell.scheduleSlot s.time = .ok (cell, slot))
    (hsend : (slot.downlink ++ slot.uplink).foldlM (transmit chance) { s with cell } = .ok t) :
    t.supply r d past = s.supply r d past := by
  obtain ⟨sent, hflows, hsent⟩ := hs.queue_send hslot hsend r
  obtain ⟨-, hcell, -⟩ := transmitAll_cases hsend
  have hconfig : cell.config = s.cell.config := by rw [Cell.scheduleSlot_frame hslot]
  have hwaiting : t.waiting r d = ((s.flows.get? r).map fun f => (((slot.assignments d).filter
      fun a => a.rnti = r && a.newData).foldl (fun q a => q.remove a.blockSize)
        (f.queue d)).waiting.toNat).getD 0 := by
    simp only [waiting, hflows, Option.map_map, Function.comp_def, hsent]
  rw [supply, supply, hcell, hconfig]
  rcases hs.sound.carried_of_slot hslot r d with ⟨hnone, -, hsame⟩ | ⟨a, pdus, hone, hfilled, hmore⟩
  · rw [hnone] at hwaiting
    rw [hsame, hwaiting]
    rfl
  · have hbytes := hs.bytes_eq_waiting hstep r d
    have hsum : dataIn pdus = min a.blockSize.toNat (s.cell.groupsOf r d).bytes := hfilled.sum
    have hleft : t.waiting r d = s.waiting r d - a.blockSize.toNat := by
      rw [hwaiting, hone, waiting]
      cases s.flows.get? r with
      | none => exact (Nat.zero_sub _).symm
      | some f => exact Word.toNat_subSat (f.queue d).waiting a.blockSize
    simp only
    omega

theorem InOrder.rate?_step (hs : s.InOrder) (hok : s.step chance = .ok (t, slot)) :
    t.rate? r d = s.rate? r d := by
  obtain ⟨s₁, s₂, s₃, cell, hdeliver, hfill, hslot, hsend, hsidelink⟩ := step_cases hok
  obtain ⟨h₁, -, hflows₁, -⟩ := hs.deliver hdeliver
  obtain ⟨h₂, -, -⟩ := h₁.fillQueues hfill
  obtain ⟨-, hfilled⟩ := fillQueues_cases hfill
  obtain ⟨sent, hflows₃, hsent⟩ := h₂.queue_send hslot hsend r
  obtain ⟨time, -, hframe, -⟩ := stepSidelink_cases hsidelink
  have hflows₂ : s₂.flows = s.flows.map arrived := by rw [hfilled, hflows₁]
  have hflows : t.flows = s₃.flows := by rw [hframe]
  simp only [rate?, hflows, hflows₃, hflows₂, Table.get?_map, Option.map_map, Function.comp_def,
    hsent, Queue.rate_removed]
  refine congrArg (Option.map · _) (funext fun f => ?_)
  cases d <;> rfl

theorem InOrder.supply_step (hs : s.InOrder) (hok : s.step chance = .ok (t, slot)) :
    t.supply r d (past ++ s.receiptsDue.filter (·.concerns r d)) =
      s.supply r d past + s.arriving r d := by
  obtain ⟨s₁, s₂, s₃, cell, hdeliver, hfill, hslot, hsend, hsidelink⟩ := step_cases hok
  obtain ⟨h₁, -, hflows, -⟩ := hs.deliver hdeliver
  obtain ⟨h₂, -, -⟩ := h₁.fillQueues hfill
  obtain ⟨time, -, hframe, -⟩ := stepSidelink_cases hsidelink
  have harriving : s₁.arriving r d = s.arriving r d := by rw [arriving, arriving, hflows]
  rw [← hs.supply_deliver hdeliver, ← harriving, ← h₁.supply_fillQueues hfill,
    ← h₂.supply_send (h₁.fillQueues_inStep hfill) hslot hsend, hframe]
  rfl

/-- After `n` slots the supply is what was offered, unless a queue was cut off at the largest word. -/
structure Supplied (s : Simulator) (r : Rnti) (d : Direction) (rate : UInt32) (n : Nat)
    (past : List Receipt) : Prop where
  fixed : s.rate? r d = some rate
  bound : s.supply r d past ≤ rate.toNat * n
  all : rate.toNat * n < UInt32.size → s.supply r d past = rate.toNat * n

theorem Supplied.step {rate : UInt32} (h : s.Supplied r d rate n past) (hs : s.InOrder)
    (hok : s.step chance = .ok (t, slot)) :
    t.Supplied r d rate (n + 1) (past ++ s.receiptsDue.filter (·.concerns r d)) := by
  obtain ⟨f, hf, hrate⟩ := Option.map_eq_some_iff.mp h.fixed
  have harrive := (f.queue d).waiting_arrive
  have harriving : s.arriving r d =
      (f.queue d).arrive.waiting.toNat - (f.queue d).waiting.toNat := by
    rw [arriving, hf]
    rfl
  have hwaiting : s.waiting r d = (f.queue d).waiting.toNat := by
    rw [waiting, hf]
    rfl
  have hle : s.waiting r d ≤ s.supply r d past := Nat.le_add_left _ _
  have hbound := h.bound
  rw [hrate] at harrive
  refine ⟨(hs.rate?_step hok).trans h.fixed, ?_, fun hfits => ?_⟩
  · rw [hs.supply_step hok, Nat.mul_succ]
    omega
  · rw [Nat.mul_succ] at hfits
    have hall := h.all (by omega)
    rw [hs.supply_step hok, Nat.mul_succ]
    omega

theorem Supplied.run {rate : UInt32} {m : Nat} {slots : List SlotAllocation}
    (h : s.Supplied r d rate n past) (hs : s.InOrder) (hok : s.run chance m = .ok (t, slots)) :
    t.Supplied r d rate (n + m) (past ++ (s.receipts chance m).filter (·.concerns r d)) := by
  induction m generalizing s n past slots with
  | zero =>
    cases hok
    simpa [receipts] using h
  | succ m ih =>
    obtain ⟨⟨s₁, slot⟩, hstep, hok⟩ := bind_ok_iff.mp hok
    obtain ⟨⟨t', slots'⟩, hrest, hok⟩ := bind_ok_iff.mp hok
    cases pure_ok_iff.mp hok
    have hlast := ih (h.step hs hstep) (hs.step hstep) hrest
    rw [Nat.add_assoc, Nat.add_comm 1] at hlast
    rw [receipts, hstep, List.filter_append, ← List.append_assoc]
    exact hlast

theorem rate?_start {scenario : Scenario} (hcheck : scenario.check = .ok ())
    (h : (start scenario).2 = .ok s) {u : UserSetup} (hu : u ∈ scenario.users) (d : Direction) :
    s.rate? u.rnti d = some (u.rate d) := by
  obtain ⟨f, cell, s₁, side, -, -, hconnected, rfl, -⟩ := start_ok h
  have hflows := get?_of_collected Simulator.flows
    (fun _ _ _ _ hconnect => by rw [connect_frame hconnect]) hconnected u.rnti
  rw [Scenario.find?_user hcheck hu, Option.map_some, Option.some_or] at hflows
  rw [rate?]
  simp only [hflows]
  cases d <;> rfl

theorem supplied_start {scenario : Scenario} (hcheck : scenario.check = .ok ())
    (h : (start scenario).2 = .ok s) {u : UserSetup} (hu : u ∈ scenario.users) (d : Direction) :
    s.Supplied u.rnti d (u.rate d) 0 [] := by
  obtain ⟨-, hblank, -, -, hidle⟩ := inOrder_start h
  have hwaiting : s.waiting u.rnti d = 0 := by
    rw [waiting]
    cases hf : s.flows.get? u.rnti with
    | none => rfl
    | some f => exact congrArg UInt32.toNat (hblank.waiting u.rnti f d hf)
  have hcarried : s.cell.carried u.rnti d = 0 :=
    Finset.sum_eq_zero fun id _ => by rw [hidle, loadOf_none]
  have hsupply : s.supply u.rnti d [] = 0 := by
    rw [supply, hwaiting, hcarried, Receipt.settled_nil]
  exact ⟨rate?_start hcheck h hu d, by rw [hsupply]; exact Nat.zero_le _, fun _ => hsupply⟩

/-- So many bytes came for the destinations of a sidelink in `n` slots, and all of them are in its
books. -/
structure SidelinkSupplied (s : Simulator) (setup : SidelinkSetup) (n : Nat) : Prop where
  numerology : s.time.numerology.toNat < 8
  books : ∃ x came asked, s.sidelink = some x ∧ x.Books setup x.pending came asked ∧
    ∀ id, came id ≤ setup.offered id * n

theorem SidelinkSupplied.step {setup : SidelinkSetup} (h : s.SidelinkSupplied setup n)
    (hok : s.step chance = .ok (t, slot)) : t.SidelinkSupplied setup (n + 1) := by
  obtain ⟨x, came, asked, hx, hbooks, hcame⟩ := h.books
  obtain ⟨htime, x', hx', hbooks'⟩ := books_of_step h.numerology hx hbooks hok
  refine ⟨htime, x', _, _, hx', hbooks', fun id => ?_⟩
  have harriving := SidelinkTraffic.arriving_le hbooks.rates id
  exact Nat.add_le_add (hcame id) harriving

theorem SidelinkSupplied.run {setup : SidelinkSetup} {slots : List SlotAllocation}
    (h : s.SidelinkSupplied setup 0) (hok : s.run chance n = .ok (t, slots)) :
    t.SidelinkSupplied setup n := by
  induction n generalizing t slots with
  | zero =>
    cases hok
    exact h
  | succ n ih =>
    obtain ⟨s₁, past, slot, hrun, hlast, -⟩ := run_last hok
    exact (ih hrun).step hlast

theorem sidelinkSupplied_start {scenario : Scenario} {setup : SidelinkSetup}
    (h : (start scenario).2 = .ok s) (hsetup : scenario.sidelink = some setup) :
    s.SidelinkSupplied setup 0 := by
  obtain ⟨htime, x, hx, hbooks⟩ := sidelinkBooks_start h hsetup
  exact ⟨htime, x, _, _, hx, hbooks, fun id => Nat.le_refl _⟩

/-- The data of a user that was taken in and has not arrived: dropped, on its way or waiting. -/
def outstanding (s : Simulator) (r : Rnti) (d : Direction) (receipts : List Receipt) : Nat :=
  Receipt.dropped s.cell.config.maxTransmissions receipts + s.cell.carried r d + s.waiting r d

/-- What arrived for a user in one direction, by the answers to its blocks, when so many bytes were
offered. -/
structure Delivered (s : Simulator) (r : Rnti) (d : Direction) (offered : Nat)
    (receipts : List Receipt) : Prop where
  counter : ((s.counterOf r).bytes d).toNat = Receipt.arrived receipts + Receipt.padded receipts
  fits : ∀ x ∈ receipts, x.size ≤ x.answer.block.assignment.blockSize.toNat
  data_le : Receipt.arrived receipts + s.outstanding r d receipts ≤ offered
  data_eq : offered < UInt32.size →
    Receipt.arrived receipts + s.outstanding r d receipts = offered
  /-- The counter stays within the offer as long as the padding is no more than what has not arrived. -/
  within_iff : offered < UInt32.size → (((s.counterOf r).bytes d).toNat ≤ offered ↔
    Receipt.padded receipts ≤ s.outstanding r d receipts)

theorem sum_sizes {l : List Receipt}
    (h : ∀ x ∈ l, x.size ≤ x.answer.block.assignment.blockSize.toNat) :
    (l.map (·.answer.block.assignment.blockSize.toNat)).sum =
      (l.map Receipt.size).sum + (l.map Receipt.padding).sum := by
  rw [← List.sum_map_add]
  refine congrArg List.sum (List.map_congr_left fun x hx => ?_)
  exact (Nat.add_sub_of_le (h x hx)).symm

theorem Books.counter_eq {sent : List Assignment} {receipts : List Receipt}
    (h : s.Books r sent ((receipts.map Receipt.answer).filter (·.feedback.rnti = r)))
    (d : Direction) : ((s.counterOf r).bytes d).toNat =
      (((receipts.filter (·.concerns r d)).filter (·.answer.feedback.success)).map
        (·.answer.block.assignment.blockSize.toNat)).sum := by
  have hsums : (s.counterOf r).Sums sent _ := h.reads
  rw [hsums.bytes d, List.filter_filter, List.filter_map, List.map_map, List.filter_filter]
  congr 2
  refine List.filter_congr fun x _ => ?_
  simp only [Receipt.concerns, Function.comp_apply]
  cases x.answer.feedback.success <;> simp [Bool.and_comm]

end Simulator

/-- After any number of slots, the data of a user in the blocks that arrived, in the blocks that were
dropped, on its way and in its queue is no more than was offered; it is all that was offered unless
the queue may have been cut off. The counter exceeds the data that arrived by the padding of its blocks,
and so the offer exactly when the padding exceeds what has not arrived. The counter of a sidelink
destination is of data, and exceeds nothing. -/
theorem data_was_offered {scenario : Scenario} {s t : Simulator} {chance : Chance} {n : Nat}
    {slots : List SlotAllocation} (hcheck : scenario.check = .ok ())
    (h : (Simulator.start scenario).2 = .ok s) (hrun : s.run chance n = .ok (t, slots)) :
    (∀ u ∈ scenario.users, ∀ d, t.Delivered u.rnti d ((u.rate d).toNat * n)
      ((s.receipts chance n).filter (·.concerns u.rnti d))) ∧
    ∀ setup, scenario.sidelink = some setup → ∃ x, t.sidelink = some x ∧
      ∀ id, (x.counterOf id).bytes.toNat + x.scheduler.buffered x.pending id + x.waiting id ≤
        setup.offered id * n := by
  obtain ⟨hs, -⟩ := Simulator.inOrder_start h
  refine ⟨fun u hu d => ?_, fun setup hsetup => ?_⟩
  · have hsupplied := (Simulator.supplied_start hcheck h hu d).run hs hrun
    rw [Nat.zero_add, List.nil_append] at hsupplied
    have hbooks := (Simulator.books_start h u.rnti).run hs hrun
    rw [List.nil_append, List.nil_append, hs.history_eq] at hbooks
    have hfits : ∀ x ∈ (s.receipts chance n).filter (·.concerns u.rnti d),
        x.size ≤ x.answer.block.assignment.blockSize.toNat :=
      fun x hx => hs.receipts_fit (List.mem_of_mem_filter hx)
    have hbound := hsupplied.bound
    have hall := hsupplied.all
    rw [Simulator.supply, Receipt.settled_eq, Nat.add_assoc, Nat.add_assoc,
      ← Nat.add_assoc (Receipt.dropped _ _), ← Simulator.outstanding] at hbound hall
    have hcounter := hbooks.counter_eq d
    rw [Simulator.sum_sizes fun x hx => hfits x (List.mem_of_mem_filter hx), ← Receipt.arrived,
      ← Receipt.padded] at hcounter
    refine ⟨hcounter, hfits, hbound, hall, fun hoffer => ?_⟩
    rw [hcounter, ← hall hoffer, Nat.add_le_add_iff_left]
  · obtain ⟨-, x, came, asked, hx, hbooks, hcame⟩ :=
      (Simulator.sidelinkSupplied_start h hsetup).run hrun
    refine ⟨x, hx, fun id => ?_⟩
    have hbytes := hbooks.bytes id
    have hle := hcame id
    omega

def sharedScenario : Scenario := { patchyScenario with sidelink := some sharedSetup }

def poorChance : Chance :=
  ⟨fun n => if n < 5 then 0 else 0.5, fun _ _ => 0, fun _ _ h => h⟩

/-- Of the 160 bytes offered in the downlink 80 arrived, 40 were dropped and 40 are on their way. The
counters read 82 there, and in the uplink 49 for 27 bytes that arrived. On the sidelink 150 bytes arrived
of the 240 offered. -/
theorem data_was_offered_sample : ∃ s t slots x, sharedScenario.check = .ok () ∧
    (Simulator.start sharedScenario).2 = .ok s ∧ s.run poorChance 4 = .ok (t, slots) ∧
    t.counterOf ⟨1⟩ = ⟨82, 49, 6, 2, 3⟩ ∧
    Receipt.arrived ((s.receipts poorChance 4).filter (·.concerns ⟨1⟩ .downlink)) = 80 ∧
    Receipt.arrived ((s.receipts poorChance 4).filter (·.concerns ⟨1⟩ .uplink)) = 27 ∧
    t.cell.carried ⟨1⟩ .downlink = 40 ∧ t.sidelink = some x ∧ (x.counterOf ⟨7⟩).bytes = 150 ∧
    (x.counterOf ⟨7⟩).bytes.toNat + x.scheduler.buffered x.pending ⟨7⟩ + x.waiting ⟨7⟩ ≤ 60 * 4 := by
  have hchecked : sharedScenario.check.toOption.any (fun _ => true) = true := by decide +kernel
  have hstarted : (Simulator.start sharedScenario).2.toOption.any (fun s =>
      (s.run poorChance 4).toOption.any fun r =>
        let receipts := (s.receipts poorChance 4).filter (·.concerns ⟨1⟩ .downlink)
        r.1.counterOf ⟨1⟩ = ⟨82, 49, 6, 2, 3⟩ ∧ Receipt.arrived receipts = 80 ∧
          Receipt.dropped r.1.cell.config.maxTransmissions receipts = 40 ∧
          r.1.waiting ⟨1⟩ .downlink = 0 ∧
          Receipt.arrived ((s.receipts poorChance 4).filter (·.concerns ⟨1⟩ .uplink)) = 27 ∧
          r.1.sidelink.any fun x => (x.counterOf ⟨7⟩).bytes = 150) = true := by
    decide +kernel
  obtain ⟨_, hcheck, _⟩ := exists_ok_of_any hchecked
  obtain ⟨s, hstart, htest⟩ := exists_ok_of_any hstarted
  obtain ⟨⟨t, slots⟩, hrun, htest⟩ := exists_ok_of_any htest
  obtain ⟨hcounters, hdown, hdropped, hwaiting, hup, htest⟩ := of_decide_eq_true htest
  obtain ⟨x, hx, htest⟩ := (Option.any_eq_true _ _).mp htest
  obtain ⟨husers, hsidelink⟩ := data_was_offered hcheck hstart hrun
  obtain ⟨x', hx', hbytes⟩ := hsidelink sharedSetup rfl
  obtain rfl : x = x' := Option.some.inj (hx.symm.trans hx')
  refine ⟨s, t, slots, x, hcheck, hstart, hrun, hcounters, hdown, hup, ?_, hx,
    of_decide_eq_true htest, hbytes ⟨7⟩⟩
  -- The data on its way is what is left of the offer.
  have hdata : Receipt.arrived _ + t.outstanding ⟨1⟩ .downlink _ = 160 :=
    (husers _ (List.mem_singleton_self _) .downlink).data_eq (by decide)
  rw [Simulator.outstanding, hdown, hdropped, hwaiting] at hdata
  omega

def sparseScenario : Scenario where
  users := [{ rnti := ⟨1⟩, downlinkRate := 1, uplinkRate := 1 }]
  channel := { errorRate := 0 }

/-- The smallest block has 16 bytes. After two slots one block with one byte of data arrived in each
direction, and its padding is counted with it, more than the two bytes that were offered. -/
theorem padding_is_counted : ∃ s t slots, sparseScenario.check = .ok () ∧
    (Simulator.start sparseScenario).2 = .ok s ∧ s.run sampleChance 2 = .ok (t, slots) ∧
    ∀ u ∈ sparseScenario.users, ∀ d, ((t.counterOf u.rnti).bytes d).toNat = 16 ∧
      (u.rate d).toNat * 2 < ((t.counterOf u.rnti).bytes d).toNat ∧
      Receipt.arrived ((s.receipts sampleChance 2).filter (·.concerns u.rnti d)) = 1 := by
  have hchecked : sparseScenario.check.toOption.any (fun _ => true) = true := by decide +kernel
  have hstarted : (Simulator.start sparseScenario).2.toOption.any (fun s =>
      (s.run sampleChance 2).toOption.any fun r => r.1.counterOf ⟨1⟩ = ⟨16, 16, 4, 0, 0⟩ ∧
        Receipt.arrived ((s.receipts sampleChance 2).filter (·.concerns ⟨1⟩ .downlink)) = 1 ∧
        Receipt.arrived ((s.receipts sampleChance 2).filter (·.concerns ⟨1⟩ .uplink)) = 1) = true := by
    decide +kernel
  obtain ⟨_, hcheck, _⟩ := exists_ok_of_any hchecked
  obtain ⟨s, hstart, htest⟩ := exists_ok_of_any hstarted
  obtain ⟨⟨t, slots⟩, hrun, htest⟩ := exists_ok_of_any htest
  obtain ⟨hcounters, hdown, hup⟩ := of_decide_eq_true htest
  refine ⟨s, t, slots, hcheck, hstart, hrun, fun u hu d => ?_⟩
  obtain rfl := List.mem_singleton.mp hu
  simp only
  rw [hcounters]
  cases d with
  | downlink => exact ⟨rfl, by decide, hdown⟩
  | uplink => exact ⟨rfl, by decide, hup⟩

end Airtime
