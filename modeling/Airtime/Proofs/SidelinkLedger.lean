import Airtime.Proofs.SidelinkBooks
import Airtime.Proofs.Stages

/-! The bytes of the sidelink over a whole simulation. A slot of the simulation is one of its sidelink,
at the same time; as long as no queue is cut off, the books of the sidelink follow from the number of
slots and the number of those in which it asks for allocations (`Simulator.SidelinkBooks`). -/

namespace Airtime

def SidelinkSetup.asksIn (setup : SidelinkSetup) (slot : SlotAllocation) : Bool :=
  slot.time.any setup.asks

theorem Cell.time_of_slot {c c' : Cell} {time : SlotTime} {slot : SlotAllocation}
    (h : c.scheduleSlot time = .ok (c', slot)) : slot.time = some time := by
  obtain ⟨⟨c₁, down⟩, -, h⟩ := bind_ok_iff.mp h
  obtain ⟨⟨c₂, up⟩, -, h⟩ := bind_ok_iff.mp h
  cases pure_ok_iff.mp h
  rfl

namespace Simulator

variable {s t : Simulator} {chance : Chance} {slot : SlotAllocation} {setup : SidelinkSetup}
  {n requests : Nat}

theorem deliver_sidelink (h : s.deliver = .ok t) : t.time = s.time ∧
    ∀ x, s.sidelink = some x → ∃ x', x.deliver = .ok x' ∧ t.sidelink = some x' := by
  obtain ⟨s₁, hfold, hlast, hside⟩ := deliver_cases h
  obtain ⟨-, hframe⟩ := deliverAll_keeps (I := fun _ _ _ => True) hfold trivial
    fun _ _ _ _ _ _ _ _ => trivial
  have hsame : s₁.sidelink = s.sidelink := by rw [hframe]
  refine ⟨by rw [hlast, hframe], fun x hx => ?_⟩
  rcases hside with ⟨hnone, -⟩ | ⟨y, x', hy, hdeliver, hx'⟩
  · rw [hsame, hx] at hnone
    cases hnone
  · obtain rfl : x = y := Option.some.inj ((hsame.trans hx).symm.trans hy)
    exact ⟨x', hdeliver, hx'⟩

theorem step_sidelink (h : s.step chance = .ok (t, slot)) :
    slot.time = some s.time ∧ s.time.next = .ok t.time ∧
      ∀ x, s.sidelink = some x → ∃ x' drawn drawn', t.sidelink = some x' ∧
        x.slot chance drawn s.time = .ok (x', drawn') := by
  obtain ⟨s₁, s₂, s₃, cell, hdeliver, hfill, hslot, hsend, hsidelink⟩ := step_cases h
  obtain ⟨htime₁, hdelivered⟩ := deliver_sidelink hdeliver
  obtain ⟨-, hfilled⟩ := fillQueues_cases hfill
  obtain ⟨-, -, hside₃, htime₃, -, -⟩ := transmitAll_cases hsend
  obtain ⟨time, hnext, hframe, hside⟩ := stepSidelink_cases hsidelink
  have htime₂ : s₂.time = s.time := by rw [hfilled]; exact htime₁
  have hside₂ : s₃.sidelink = s₁.sidelink := by rw [hside₃, hfilled]
  have htime : t.time = time := by rw [hframe]
  rw [show s₃.time = s.time from htime₃.trans htime₂] at hnext hside
  refine ⟨(Cell.time_of_slot hslot).trans (congrArg some htime₂), htime ▸ hnext, fun x hx => ?_⟩
  obtain ⟨x₁, hxdeliver, hx₁⟩ := hdelivered x hx
  rcases hside with ⟨hnone, -⟩ | ⟨y, x', hy, hxstep, hx'⟩
  · rw [hside₂, hx₁] at hnone
    cases hnone
  · obtain rfl : x₁ = y := Option.some.inj ((hside₂.trans hx₁).symm.trans hy)
    exact ⟨x', _, _, hx', bind_ok_iff.mpr ⟨x₁, hxdeliver, hxstep⟩⟩

/-- What a slot of the simulation adds to the books of its sidelink. -/
theorem books_of_step {x : SidelinkTraffic} {came asked : DestinationId → Nat}
    (htime : s.time.numerology.toNat < 8) (hx : s.sidelink = some x)
    (h : x.Books setup x.pending came asked) (hok : s.step chance = .ok (t, slot)) :
    t.time.numerology.toNat < 8 ∧ ∃ x', t.sidelink = some x' ∧
      x'.Books setup x'.pending (fun id => came id + x.arriving id) fun id =>
        asked id + if setup.asksIn slot && (setup.rate? id).isSome then 1 else 0 := by
  obtain ⟨hslot, hnext, hside⟩ := step_sidelink hok
  obtain ⟨x', drawn, drawn', hx', hstep⟩ := hside x hx
  obtain ⟨next, hnext', hsame⟩ := SlotTime.next_ok htime
  obtain rfl : t.time = next := Except.ok.inj (hnext.symm.trans hnext')
  have hasks : setup.asksIn slot = setup.asks s.time := by
    rw [SidelinkSetup.asksIn, hslot]
    rfl
  rw [hasks]
  exact ⟨hsame ▸ htime, x', hx', (h.slot htime drawn).of_ok hstep⟩

structure SidelinkBooks (s : Simulator) (setup : SidelinkSetup) (n requests : Nat) : Prop where
  numerology : s.time.numerology.toNat < 8
  books : ∃ x, s.sidelink = some x ∧ x.Books setup x.pending (fun id => setup.offered id * n)
    fun id => if (setup.rate? id).isSome then requests else 0

theorem SidelinkBooks.step (h : s.SidelinkBooks setup n requests)
    (hroom : ∀ x ∈ s.sidelink, x.HasRoom) (hok : s.step chance = .ok (t, slot)) :
    t.SidelinkBooks setup (n + 1) (requests + if setup.asksIn slot then 1 else 0) := by
  obtain ⟨x, hx, hbooks⟩ := h.books
  obtain ⟨htime, x', hx', hnew⟩ := books_of_step h.numerology hx hbooks hok
  refine ⟨htime, x', hx', ?_⟩
  have hcame : (fun id => setup.offered id * n + x.arriving id) =
      fun id => setup.offered id * (n + 1) := by
    funext id
    rw [SidelinkTraffic.arriving_of_room hbooks.rates (hroom x hx), Nat.mul_succ]
  have hasked : (fun id => (if (setup.rate? id).isSome then requests else 0) +
      if setup.asksIn slot && (setup.rate? id).isSome then 1 else 0) = fun id =>
        if (setup.rate? id).isSome then requests + if setup.asksIn slot then 1 else 0 else 0 := by
    funext id
    cases (setup.rate? id).isSome <;> simp
  rw [hcame, hasked] at hnew
  exact hnew

theorem SidelinkBooks.run {slots : List SlotAllocation} (h : s.SidelinkBooks setup 0 0)
    (hroom : ∀ m < n, ∀ t slots, s.run chance m = .ok (t, slots) → ∀ x ∈ t.sidelink, x.HasRoom)
    (hok : s.run chance n = .ok (t, slots)) :
    t.SidelinkBooks setup n (slots.filter setup.asksIn).length := by
  induction n generalizing t slots with
  | zero =>
    cases hok
    exact h
  | succ n ih =>
    obtain ⟨s₁, past, slot, hrun, hlast, rfl⟩ := run_last hok
    have hpast := ih (fun m hm => hroom m (Nat.lt_succ_of_lt hm)) hrun
    have hstep := hpast.step (hroom n (Nat.lt_succ_self n) s₁ past hrun) hlast
    rw [List.filter_append, List.length_append]
    cases hasks : setup.asksIn slot with
    | true => simpa [hasks] using hstep
    | false => simpa [hasks] using hstep

theorem sidelinkBooks_start {scenario : Scenario} (h : (start scenario).2 = .ok s)
    (hsetup : scenario.sidelink = some setup) : s.SidelinkBooks setup 0 0 := by
  obtain ⟨f, cell, s₁, side, -, hcell, hconnected, rfl, hside⟩ := start_ok h
  have hall := connected_start hcell hconnected
  refine ⟨?_, ?_⟩
  · change s₁.time.numerology.toNat < 8
    rw [hall.time]
    cases f.spacing <;> decide
  · rcases hside with ⟨hnone, -⟩ | ⟨setup', x, hsome, hstart, rfl⟩
    · rw [hsetup] at hnone
      cases hnone
    · obtain rfl : setup = setup' := Option.some.inj (hsetup.symm.trans hsome)
      refine ⟨x, rfl, ?_⟩
      simpa using SidelinkTraffic.books_start hstart

end Simulator

/-- What the books of the sidelink say after `n` slots, in so many of which allocations were asked
for. -/
structure SidelinkTraffic.AddsUp (x : SidelinkTraffic) (n requests : Nat) : Prop where
  bytes : ∀ id f, x.flows.get? id = some f → f.queue.rate.toNat * n =
    f.queue.waiting.toNat + x.scheduler.buffered x.pending id + (x.counterOf id).bytes.toNat
  requests : ∀ id f, x.flows.get? id = some f →
    (x.counterOf id).blocks.toNat + (x.counterOf id).missed.toNat = requests
  held : ∀ e, e ∈ x.pending ↔ x.scheduler.harq.holder? e.2 = some e.1
  once : (x.pending.map Prod.snd).Nodup

theorem SidelinkTraffic.Books.addsUp {x : SidelinkTraffic} {setup : SidelinkSetup} {n requests : Nat}
    (h : x.Books setup x.pending (fun id => setup.offered id * n)
      fun id => if (setup.rate? id).isSome then requests else 0) : x.AddsUp n requests := by
  have hrate : ∀ id f, x.flows.get? id = some f → setup.rate? id = some f.queue.rate := by
    intro id f hf
    rw [← h.rates, hf]
    rfl
  refine ⟨fun id f hf => ?_, fun id f hf => ?_, fun e => h.holds.mem_iff, h.holds.nodup⟩
  · have hbytes := h.bytes id
    rw [SidelinkSetup.offered, hrate id f hf, waiting, hf] at hbytes
    exact hbytes
  · have hanswers := h.answers id
    rw [hrate id f hf] at hanswers
    exact hanswers.symm

/-- As long as no queue of the sidelink is cut off, after every slot the bytes that came for a
destination are those that wait, those on their way and those that arrived; each request was granted
or counted as missed; and just the processes of the blocks on their way are held. The next delivery
and the next step are not refused, and in the first 2 ^ 31 slots no counter can be full. -/
theorem sidelink_bytes_add_up {scenario : Scenario} {setup : SidelinkSetup} {s t : Simulator}
    {chance : Chance} {n : Nat} {slots : List SlotAllocation}
    (h : (Simulator.start scenario).2 = .ok s) (hsetup : scenario.sidelink = some setup)
    (hroom : ∀ m < n, ∀ t slots, s.run chance m = .ok (t, slots) → ∀ x ∈ t.sidelink, x.HasRoom)
    (hrun : s.run chance n = .ok (t, slots)) :
    ∃ x, t.sidelink = some x ∧ (∀ id, (x.flows.get? id).map (·.queue.rate) = setup.rate? id) ∧
      x.AddsUp n (slots.filter setup.asksIn).length ∧
      ∀ drawn, Yields (fun _ => True) (x.slot chance drawn t.time) ∧
        (n < 2 ^ 31 → Succeeds (x.slot chance drawn t.time)) := by
  have hall := (Simulator.sidelinkBooks_start h hsetup).run hroom hrun
  obtain ⟨x, hx, hbooks⟩ := hall.books
  refine ⟨x, hx, hbooks.rates, hbooks.addsUp, fun drawn => ⟨?_, fun hn => ?_⟩⟩
  · exact (hbooks.slot hall.numerology drawn).imp fun _ _ => trivial
  · refine hbooks.succeeds_slot hall.numerology (fun id => ?_) (fun id => ?_) drawn
    · calc setup.offered id * n < 2 ^ 32 * 2 ^ 31 := Nat.mul_lt_mul'' (setup.offered_lt id) hn
        _ = 2 ^ 63 := by rw [← Nat.pow_add]
    · have hle := (slots.length_filter_le setup.asksIn).trans_eq (Simulator.length_of_run hrun)
      split <;> omega

def sharedSetup : SidelinkSetup where
  scheduler := { processes := 1 }
  subchannels := 2
  symbols := 1
  period := 2
  candidates := 1
  destinations := [{ destination := ⟨7⟩, rate := 60 }, { destination := ⟨9⟩, rate := 5 }]

/-- Of the 180 bytes that came for the first destination 30 wait, 90 are on their way and 60 arrived;
the other one was never granted the process. -/
theorem sidelink_bytes_add_up_sample : ∃ s t slots x,
    (Simulator.start { sidelink := some sharedSetup }).2 = .ok s ∧
    s.run sampleChance 3 = .ok (t, slots) ∧ t.sidelink = some x ∧
    x.scheduler.buffered x.pending ⟨7⟩ = 90 ∧ x.counterOf ⟨7⟩ = ⟨60, 2, 2, 0⟩ ∧
    x.counterOf ⟨9⟩ = ⟨0, 0, 0, 2⟩ ∧ x.AddsUp 3 2 ∧
    Succeeds (x.slot sampleChance t.drawn t.time) := by
  have hstarted : (Simulator.start { sidelink := some sharedSetup }).2.toOption.any (fun s =>
      (∀ m < 3, (s.run sampleChance m).toOption.all fun r => ∀ x ∈ r.1.sidelink, x.HasRoom) ∧
        (s.run sampleChance 3).toOption.any fun r =>
          (r.2.filter sharedSetup.asksIn).length = 2 ∧ r.1.sidelink.any fun x =>
            x.scheduler.buffered x.pending ⟨7⟩ = 90 ∧ x.counterOf ⟨7⟩ = ⟨60, 2, 2, 0⟩ ∧
              x.counterOf ⟨9⟩ = ⟨0, 0, 0, 2⟩) = true := by
    decide +kernel
  obtain ⟨s, hstart, htest⟩ := exists_ok_of_any hstarted
  obtain ⟨hroom, htest⟩ := of_decide_eq_true htest
  obtain ⟨⟨t, slots⟩, hrun, htest⟩ := exists_ok_of_any htest
  obtain ⟨hasked, htest⟩ := of_decide_eq_true htest
  obtain ⟨x, hx, htest⟩ := (Option.any_eq_true _ _).mp htest
  obtain ⟨hbuffered, hfirst, hsecond⟩ := of_decide_eq_true htest
  obtain ⟨x', hx', -, haddsUp, hnext⟩ := sidelink_bytes_add_up hstart rfl
    (fun m hm t slots hrun => by
      have := hroom m hm
      rw [hrun] at this
      exact of_decide_eq_true this) hrun
  obtain rfl : x = x' := Option.some.inj (hx.symm.trans hx')
  rw [hasked] at haddsUp
  exact ⟨s, t, slots, x, hstart, hrun, hx, hbuffered, hfirst, hsecond, haddsUp,
    (hnext t.drawn).2 (by decide)⟩

end Airtime
