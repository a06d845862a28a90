import Airtime.Proofs.Simulation

/-! The books of the sidelink's traffic. Its bytes wait in a queue and on the channel of their
destination, then in the process of their block, and are counted when the block arrived. At every stage
of a slot the books say how many there are in each place, and how many allocations were asked for
(`SidelinkTraffic.Books`). No stage is refused, and none ends early unless a counter is full. -/

namespace Airtime

/-- What a computation gives has property `Q`. It ends early only when a counter is full. -/
def Yields {α : Type} (Q : α → Prop) : Except Failure α → Prop
  | .ok a => Q a
  | .error e => e = .fault .add

namespace Yields

variable {α β : Type} {P : α → Prop} {Q : β → Prop} {x : Except Failure α} {f : α → Except Failure β}

theorem of_ok {a : α} (h : Yields P x) (hx : x = .ok a) : P a := by
  rw [hx] at h
  exact h

theorem imp {P' : α → Prop} (h : Yields P x) (hP : ∀ a, P a → P' a) : Yields P' x := by
  cases x with
  | error e => exact h
  | ok a => exact hP a h

theorem bind (h : Yields P x) (hf : ∀ a, P a → Yields Q (f a)) : Yields Q (x >>= f) := by
  cases x with
  | error e => exact h
  | ok a => exact hf a h

theorem bind_ok {a : α} (hx : x = .ok a) (hf : Yields Q (f a)) : Yields Q (x >>= f) := by
  rw [hx]
  exact hf

theorem add (a b : UInt64) : Yields (fun c : UInt64 => c.toNat = a.toNat + b.toNat)
    (liftM (Word.add a b) : Except Failure UInt64) := by
  cases hsum : Word.add a b with
  | ok c => exact Word.add_uint64_ok_iff.mp hsum
  | error e =>
    unfold Word.add Word.fit at hsum
    split at hsum
    · cases hsum
    · cases hsum
      rfl

theorem foldlM {I : List α → β → Prop} {f : β → α → Except Failure β} {l : List α} {b : β}
    (hb : I l b) (step : ∀ a rest b, I (a :: rest) b → Yields (I rest) (f b a)) :
    Yields (I []) (l.foldlM f b) := by
  induction l generalizing b with
  | nil => exact hb
  | cons a l ih =>
    rw [List.foldlM_cons]
    exact (step a l b hb).bind fun b' hb' => ih hb'

end Yields

namespace Sidelink

variable {s s' : Sidelink} {id : DestinationId} {flows : Table DestinationId SidelinkFlow}
  {due : List (DestinationId × ProcessId)}

def bytesIn (s : Sidelink) (e : DestinationId × ProcessId) : Nat :=
  match s.packets e.1 e.2 with
  | .ok packets => packets.flatten.length
  | .error _ => 0

/-- Bytes towards a destination in its processes of a list. -/
def buffered (s : Sidelink) (due : List (DestinationId × ProcessId)) (id : DestinationId) : Nat :=
  ((due.filter (·.1 = id)).map s.bytesIn).sum

theorem bytesIn_of_held {e : DestinationId × ProcessId} {p : Process DestinationId Packet}
    (hp : s.harq.process? e.2 = some p) (hk : p.holder = some e.1) : s.bytesIn e = heldBytes p := by
  rw [bytesIn, packets_of_held hp hk]
  rfl

theorem bytesIn_congr {e : DestinationId × ProcessId}
    (h : s'.harq.process? e.2 = s.harq.process? e.2) : s'.bytesIn e = s.bytesIn e := by
  unfold HarqTable.process? at h
  unfold bytesIn packets HarqTable.packets HarqTable.held
  rw [h]

theorem buffered_congr (h : ∀ e ∈ due, s'.harq.process? e.2 = s.harq.process? e.2)
    (id : DestinationId) : s'.buffered due id = s.buffered due id :=
  congrArg List.sum (List.map_congr_left fun e he => bytesIn_congr (h e (List.mem_of_mem_filter he)))

theorem buffered_append (s : Sidelink) (due more : List (DestinationId × ProcessId))
    (id : DestinationId) : s.buffered (due ++ more) id = s.buffered due id + s.buffered more id := by
  simp [buffered]

theorem buffered_singleton (s : Sidelink) (e : DestinationId × ProcessId) (id : DestinationId) :
    s.buffered [e] id = if id = e.1 then s.bytesIn e else 0 := by
  unfold buffered
  by_cases he : e.1 = id
  · simp [he]
  · simp [he, Ne.symm he]

theorem buffered_taken {e : DestinationId × ProcessId} {p : Process DestinationId Packet}
    (h : s'.Holds (due ++ [e])) (hafter : ∀ process, s'.harq.process? process =
      if process = e.2 then some p else s.harq.process? process) (id : DestinationId) :
    s'.buffered (due ++ [e]) id = s.buffered due id + if id = e.1 then heldBytes p else 0 := by
  have hnodup := h.nodup
  rw [List.map_append, List.nodup_append] at hnodup
  have hothers : ∀ e' ∈ due, s'.harq.process? e'.2 = s.harq.process? e'.2 := fun e' he' => by
    rw [hafter, if_neg (hnodup.2.2 e'.2 (List.mem_map_of_mem he') e.2 (List.mem_singleton_self _))]
  obtain ⟨q, hq, hk, -⟩ := h.held e (List.mem_append_right _ (List.mem_singleton_self e))
  have hpq := hafter e.2
  rw [hq, if_pos rfl, Option.some.injEq] at hpq
  rw [buffered_append, buffered_singleton, buffered_congr hothers, bytesIn_of_held hq hk, hpq]

/-- What waits on the channels of a destination is what its queue says. -/
def Reports (s : Sidelink) (flows : Table DestinationId SidelinkFlow) : Prop :=
  ∀ id f, flows.get? id = some f →
    ∃ d, s.destination? id = some d ∧ d.groups.bytes = f.queue.waiting.toNat

theorem Sent.bytes_left {first : Grant} (hsent : s.Sent id first s') (hs : s.Sound) :
    ∃ d d', s.destination? id = some d ∧
      (∀ id', s'.destination? id' = if id' = id then some d' else s.destination? id') ∧
      d'.groups.bytes + (first.content.map fun p => p.size.toNat).sum = d.groups.bytes := by
  obtain ⟨d, harq, groups, hd, -, -, hfill, rfl⟩ := hsent.stored
  have hfilled := Groups.filled_of_fill (hs.groups id d hd) hfill
  refine ⟨d, { d with groups, mcs := first.mcs }, hd, fun id' => destination?_put _ _ _ _, ?_⟩
  have hleft := hfilled.bytes_left
  have hsum := hfilled.sum
  simp only
  omega

end Sidelink

theorem Queue.waiting_arrive (q : Queue) :
    q.arrive.waiting.toNat = min (q.waiting.toNat + q.rate.toNat) (UInt32.size - 1) :=
  Word.toNat_addSat q.waiting q.rate

theorem Queue.waiting_le_arrive (q : Queue) : q.waiting.toNat ≤ q.arrive.waiting.toNat := by
  rw [waiting_arrive]
  exact Nat.le_min.mpr ⟨Nat.le_add_right _ _, Nat.le_sub_one_of_lt q.waiting.toNat_lt_size⟩

/-- The rate of the last setup of a destination. -/
def SidelinkSetup.rate? (setup : SidelinkSetup) (id : DestinationId) : Option UInt32 :=
  (setup.destinations.reverse.find? (·.destination = id)).map DestinationSetup.rate

def SidelinkSetup.offered (setup : SidelinkSetup) (id : DestinationId) : Nat :=
  ((setup.rate? id).map UInt32.toNat).getD 0

theorem SidelinkSetup.offered_lt (setup : SidelinkSetup) (id : DestinationId) :
    setup.offered id < 2 ^ 32 := by
  unfold offered
  cases setup.rate? id with
  | none => exact Nat.two_pow_pos 32
  | some rate => exact rate.toNat_lt

def SidelinkSetup.asks (setup : SidelinkSetup) (time : SlotTime) : Bool :=
  time.count.toOption.any fun n => n.toNat % max setup.period.toNat 1 = 0

namespace SidelinkTraffic

variable {t t' : SidelinkTraffic} {setup : SidelinkSetup} {id : DestinationId} {chance : Chance}
  {due : List (DestinationId × ProcessId)} {came asked : DestinationId → Nat} {time : SlotTime}

def waiting (t : SidelinkTraffic) (id : DestinationId) : Nat :=
  ((t.flows.get? id).map fun f => f.queue.waiting.toNat).getD 0

def arriving (t : SidelinkTraffic) (id : DestinationId) : Nat :=
  ((t.flows.get? id).map fun f =>
    f.queue.arrive.waiting.toNat - f.queue.waiting.toNat).getD 0

theorem counterOf_count (t : SidelinkTraffic) (id id' : DestinationId) (c : SidelinkCounters) :
    (t.count id c).counterOf id' = if id' = id then c else t.counterOf id' :=
  Table.meter_insert t.counters id id' c

/-- The books of a sidelink's traffic, of whose blocks those of `due` are on their way: so many bytes
came for each destination, and so many allocations were asked for. -/
structure Books (t : SidelinkTraffic) (setup : SidelinkSetup)
    (due : List (DestinationId × ProcessId)) (came asked : DestinationId → Nat) : Prop where
  fixed : t.setup = setup
  rates : ∀ id, (t.flows.get? id).map (·.queue.rate) = setup.rate? id
  carries : t.scheduler.Carries t.flows
  holds : t.scheduler.Holds due
  reports : t.scheduler.Reports t.flows
  bytes : ∀ id, came id =
    t.waiting id + t.scheduler.buffered due id + (t.counterOf id).bytes.toNat
  answers : ∀ id, asked id = (t.counterOf id).blocks.toNat + (t.counterOf id).missed.toNat
  transmissions : ∀ id,
    (t.counterOf id).transmissions.toNat ≤ 255 * (t.counterOf id).blocks.toNat

theorem Books.acknowledge {e : DestinationId × ProcessId} (h : t.Books setup (e :: due) came asked) :
    Yields (fun t' => t'.Books setup due came asked ∧ t'.pending = t.pending ∧ t'.flows = t.flows)
      (t.acknowledge e) := by
  obtain ⟨p, hp, hk, hlt⟩ := h.holds.held e List.mem_cons_self
  obtain ⟨harq, hfeedback, hsound, hholds, hothers⟩ := Sidelink.feedback_ok h.carries.sound h.holds
  have haccepted := accepted_ok_iff.mpr ⟨congrArg Prod.snd hfeedback, congrArg Prod.fst hfeedback⟩
  have hheld : (UInt64.ofNat p.packets.flatten.length).toNat = t.scheduler.bytesIn e := by
    rw [Sidelink.bytesIn_of_held hp hk]
    exact UInt64.toNat_ofNat_of_lt' (hlt.trans (by decide))
  refine .bind_ok (lift_refusal_ok_iff.mpr (Sidelink.packets_of_held hp hk)) ?_
  refine (Yields.add _ _).bind fun bytes hbytes => ?_
  refine .bind_ok (lift_refusal_ok_iff.mpr haccepted) ?_
  have hcounter := counterOf_count { t with scheduler := { t.scheduler with harq } } e.1
  refine ⟨⟨h.fixed, h.rates, ⟨hsound, h.carries.uses⟩, hholds, h.reports, fun id => ?_,
    fun id => ?_, fun id => ?_⟩, rfl, rfl⟩
  · have hold := h.bytes id
    have hrest : Sidelink.buffered { t.scheduler with harq } due id =
        t.scheduler.buffered due id := Sidelink.buffered_congr hothers id
    rw [← List.singleton_append, Sidelink.buffered_append, Sidelink.buffered_singleton, ← hrest,
      ← hheld] at hold
    rw [hcounter]
    split
    · next hid =>
      subst hid
      rw [if_pos rfl] at hold
      simp only [waiting, count] at hold ⊢
      omega
    · next hid =>
      rw [if_neg hid, Nat.zero_add] at hold
      exact hold
  · rw [hcounter, h.answers]
    split
    · next hid => rw [hid]
    · rfl
  · rw [hcounter]
    split
    · exact h.transmissions e.1
    · exact h.transmissions id

theorem Books.deliver (h : t.Books setup t.pending came asked) :
    Yields (fun t' => t'.Books setup t'.pending came asked ∧ t'.flows = t.flows) t.deliver := by
  have hstart : Books { t with pending := [] } setup t.pending came asked := { h with }
  have hall := Yields.foldlM (f := SidelinkTraffic.acknowledge)
    (I := fun due t' => Books t' setup due came asked ∧ t'.pending = [] ∧ t'.flows = t.flows)
    ⟨hstart, rfl, rfl⟩ fun e rest t' ht => ht.1.acknowledge.imp fun t'' h' =>
      ⟨h'.1, h'.2.1.trans ht.2.1, h'.2.2.trans ht.2.2⟩
  exact hall.imp fun t' h' => ⟨h'.2.1 ▸ h'.1, h'.2.2⟩

/-- After all reports, what waits towards each destination is what its queue says. -/
theorem reports_of_walked {s s' : Sidelink} {flows : Table DestinationId SidelinkFlow}
    {l l' : List (DestinationId × SidelinkFlow)} (hs : s.Carries flows)
    (hl : ∀ e ∈ l, flows.get? e.1 = some e.2) (hnodup : (l.map Prod.fst).Nodup)
    (h : Table.Walked reportFlow s l s' l') :
    (∀ e ∈ l', ∃ d, s'.destination? e.1 = some d ∧ d.groups.bytes = e.2.queue.waiting.toNat) ∧
      ∀ id, id ∉ l.map Prod.fst → s'.destination? id = s.destination? id := by
  induction h with
  | nil s => exact ⟨fun e he => (by cases he), fun id _ => rfl⟩
  | @cons s s₁ s' id f f' l l' first rest ih =>
    rw [List.map_cons, List.nodup_cons] at hnodup
    obtain ⟨d, hbytes, hok, hs₁⟩ := reportFlow_ok hs (hl (id, f) List.mem_cons_self)
    rw [hok] at first
    cases first
    obtain ⟨hrest, hkept⟩ := ih hs₁ (fun e he => hl e (List.mem_cons_of_mem _ he)) hnodup.2
    refine ⟨fun e he => ?_, fun id' hid' => ?_⟩
    · rcases List.mem_cons.mp he with rfl | he
      · exact ⟨d, by rw [hkept id hnodup.1, Sidelink.destination?_put, if_pos rfl], hbytes⟩
      · exact hrest e he
    · rw [List.map_cons, List.mem_cons, not_or] at hid'
      rw [hkept id' hid'.2, Sidelink.destination?_put, if_neg hid'.1]

theorem Books.fillQueues (h : t.Books setup due came asked) :
    ∃ t', t.fillQueues = .ok t' ∧ t'.pending = t.pending ∧
      t'.Books setup due (fun id => came id + t.arriving id) asked := by
  obtain ⟨destinations, hcarries, hfill⟩ := fillQueues_ok h.carries
  have hok : t.fillQueues = _ := hfill t.counters
  refine ⟨_, hok, rfl, h.fixed, fun id => ?_, hcarries, h.holds.frame rfl, fun id f hf => ?_,
    fun id => ?_, h.answers, h.transmissions⟩
  · rw [← h.rates, Table.get?_map, Option.map_map]
    rfl
  · rw [fillQueues_eq] at hok
    obtain ⟨⟨scheduler, flows⟩, hwalk, hok⟩ := bind_ok_iff.mp hok
    cases pure_ok_iff.mp hok
    exact (reports_of_walked h.carries (fun e he => Table.mem_entries.mp he) t.flows.keys_nodup
      (Table.walk_ok hwalk)).1 (id, f) (Table.mem_entries.mpr hf)
  · have hold := h.bytes id
    have hbuffered : Sidelink.buffered { t.scheduler with destinations } due id =
        t.scheduler.buffered due id := Sidelink.buffered_congr (fun _ _ => rfl) id
    have hwaiting : waiting { t with flows := t.flows.map arrived } id =
        t.waiting id + t.arriving id := by
      unfold waiting arriving
      rw [Table.get?_map]
      cases t.flows.get? id with
      | none => rfl
      | some f => exact (Nat.add_sub_of_le f.queue.waiting_le_arrive).symm
    change _ = waiting { t with flows := t.flows.map arrived } id +
      Sidelink.buffered { t.scheduler with destinations } due id + (t.counterOf id).bytes.toNat
    omega

theorem queue_taken (flows : Table DestinationId SidelinkFlow) (id : DestinationId)
    (bytes : UInt32) (id' : DestinationId) :
    ((taken flows id bytes).get? id').map (fun f => (f.queue.rate, f.queue.waiting.toNat)) =
      (flows.get? id').map fun f =>
        (f.queue.rate, f.queue.waiting.toNat - if id' = id then bytes.toNat else 0) := by
  unfold taken
  split
  · next f hf =>
    rw [Table.get?_insert_if]
    split
    · next he =>
      rw [he, hf]
      exact congrArg some (Prod.ext rfl (Word.toNat_subSat f.queue.waiting bytes))
    · rfl
  · next hnone =>
    split
    · next he =>
      rw [he, hnone]
      rfl
    · rfl

theorem waiting_taken (t : SidelinkTraffic) (id : DestinationId) (bytes : UInt32)
    (id' : DestinationId) : waiting { t with flows := taken t.flows id bytes } id' =
      t.waiting id' - if id' = id then bytes.toNat else 0 := by
  have hqueue := congrArg (Option.map Prod.snd) (queue_taken t.flows id bytes id')
  rw [Option.map_map, Option.map_map] at hqueue
  refine (congrArg (Option.getD · 0) hqueue).trans ?_
  unfold waiting
  cases t.flows.get? id' with
  | none => exact (Nat.zero_sub _).symm
  | some f => rfl

theorem rate_taken (flows : Table DestinationId SidelinkFlow) (id : DestinationId)
    (bytes : UInt32) (id' : DestinationId) :
    ((taken flows id bytes).get? id').map (·.queue.rate) =
      (flows.get? id').map (·.queue.rate) := by
  have hqueue := congrArg (Option.map Prod.fst) (queue_taken flows id bytes id')
  rwa [Option.map_map, Option.map_map] at hqueue

/-- A block takes as many bytes from the channels of its destination as from its queue. -/
theorem reports_taken {s s' : Sidelink} {flows : Table DestinationId SidelinkFlow} {first : Grant}
    {bytes : UInt32} (h : s.Reports flows) (hs : s.Sound) (hsent : s.Sent id first s')
    (hbytes : bytes.toNat = (first.content.map fun p => p.size.toNat).sum) :
    s'.Reports (taken flows id bytes) ∧
      ∀ f, flows.get? id = some f → bytes.toNat ≤ f.queue.waiting.toNat := by
  obtain ⟨d, d', hd, hd', hleft⟩ := hsent.bytes_left hs
  have hhere : ∀ f, flows.get? id = some f → d.groups.bytes = f.queue.waiting.toNat := by
    intro f hf
    obtain ⟨d₀, hd₀, hwaiting⟩ := h id f hf
    obtain rfl : d = d₀ := Option.some.inj (hd.symm.trans hd₀)
    exact hwaiting
  refine ⟨fun id' f' hf' => ?_, fun f hf => ?_⟩
  · have hqueue := queue_taken flows id bytes id'
    rw [hf'] at hqueue
    obtain ⟨f, hf, hpair⟩ := Option.map_eq_some_iff.mp hqueue.symm
    have hwaiting := (Prod.mk.inj hpair).2
    rw [hd']
    split
    · next he =>
      rw [if_pos he] at hwaiting
      have := hhere f (he ▸ hf)
      exact ⟨d', rfl, by omega⟩
    · next he =>
      obtain ⟨d₀, hd₀, hwaiting₀⟩ := h id' f hf
      rw [if_neg he] at hwaiting
      exact ⟨d₀, hd₀, by omega⟩
  · have := hhere f hf
    omega

theorem send_yields {g : Grant} {s s' : Sidelink} {n : Nat} (hn : n ≤ 255)
    (hstore : g.content.foldlM (fun (s : Sidelink) p => Prod.fst <$> accepted
      (s.addPacket id p.channel g.process (List.replicate p.size.toNat 0))) s = .ok s')
    (hfits : (g.content.map fun p => p.size.toNat).sum < UInt32.size) :
    Yields (fun t' => ∃ (bytes : UInt32) (c : SidelinkCounters),
        t' = ({ t with
          scheduler := s', flows := taken t.flows id bytes,
          pending := t.pending ++ [(id, g.process)] } : SidelinkTraffic).count id c ∧
        bytes.toNat = (g.content.map fun p => p.size.toNat).sum ∧
        c.bytes = (t.counterOf id).bytes ∧ c.missed = (t.counterOf id).missed ∧
        c.blocks.toNat = (t.counterOf id).blocks.toNat + 1 ∧
        c.transmissions.toNat = (t.counterOf id).transmissions.toNat + n)
      (SidelinkTraffic.send { t with scheduler := s } id g n) := by
  obtain ⟨bytes, hbytes⟩ : Succeeds (Word.sum (g.content.map Pdu.size)) := by
    rw [Word.succeeds_sum_iff, List.map_map]
    exact hfits
  have hsum := Word.sum_ok_iff.mp hbytes
  rw [List.map_map] at hsum
  refine .bind_ok (lift_refusal_ok_iff.mpr hstore) ?_
  refine .bind_ok (lift_fault_ok_iff.mpr hbytes) ?_
  refine (Yields.add _ _).bind fun blocks hblocks => ?_
  refine (Yields.add _ _).bind fun transmissions htransmissions => ?_
  rw [UInt64.toNat_ofNat_of_lt' (lt_of_le_of_lt hn (by decide))] at htransmissions
  exact ⟨bytes, _, rfl, hsum, rfl, rfl, hblocks, htransmissions⟩

/-- A granted block takes its bytes from the queue into its process. -/
theorem Books.send {first g : Grant} {s : Sidelink} {n : Nat}
    (h : t.Books setup t.pending came asked) (hid : (t.flows.get? id).isSome)
    (hsent : t.scheduler.Sent id first s) (hprocess : g.process = first.process)
    (hcontent : g.content = first.content) (hn : n ≤ 255) :
    Yields (fun t' => t'.Books setup t'.pending came fun id' => asked id' + [id].count id')
      (SidelinkTraffic.send { t with scheduler := s } id g n) := by
  obtain ⟨harq, p, hcarries, hholds, hsum, hlt, hafter, hstore⟩ :=
    hsent.store_ok h.carries hid h.holds
  rw [← hprocess] at hholds hafter hstore
  rw [← hcontent] at hsum hstore
  refine (send_yields hn hstore (hsum ▸ hlt)).imp ?_
  rintro _ ⟨bytes, c, rfl, hbytes, hsame, hmissed, hblocks, htransmissions⟩
  obtain ⟨hreports, hcovered⟩ := reports_taken h.reports h.carries.sound hsent (hcontent ▸ hbytes)
  have hcounter := counterOf_count { t with
    scheduler := { s with harq }, flows := taken t.flows id bytes,
    pending := t.pending ++ [(id, g.process)] } id
  refine ⟨h.fixed, fun id' => (rate_taken t.flows id bytes id').trans (h.rates id'),
    hcarries.congr (channel_taken t.flows id bytes), hholds, hreports, fun id' => ?_,
    fun id' => ?_, fun id' => ?_⟩
  · have hold := h.bytes id'
    have hwaiting := waiting_taken t id bytes id'
    have hbuffered := Sidelink.buffered_taken (e := (id, g.process)) hholds hafter id'
    change came id' = waiting { t with flows := taken t.flows id bytes } id' +
      Sidelink.buffered { s with harq } (t.pending ++ [(id, g.process)]) id' + _
    rw [hwaiting, hbuffered, hcounter]
    split
    · next he =>
      subst he
      obtain ⟨f, hf⟩ := Option.isSome_iff_exists.mp hid
      have hle : bytes.toNat ≤ t.waiting id' := by
        rw [waiting, hf]
        exact hcovered f hf
      rw [hsame]
      omega
    · exact hold
  · rw [hcounter, h.answers, List.count_singleton]
    by_cases he : id' = id
    · subst he
      simp only [beq_self_eq_true, if_true, hblocks, hmissed]
      omega
    · rw [if_neg he, if_neg (by simpa using Ne.symm he)]
      rfl
  · rw [hcounter]
    split
    · have := h.transmissions id
      omega
    · exact h.transmissions id'

theorem Books.missed (h : t.Books setup t.pending came asked) (id : DestinationId)
    {missed : UInt64} (hmissed : missed.toNat = (t.counterOf id).missed.toNat + 1) :
    (t.count id { t.counterOf id with missed }).Books setup t.pending came
      fun id' => asked id' + [id].count id' := by
  have hcounter := counterOf_count t id
  refine ⟨h.fixed, h.rates, h.carries, h.holds, h.reports, fun id' => ?_, fun id' => ?_,
    fun id' => ?_⟩
  · rw [hcounter]
    split
    · next he => exact he ▸ h.bytes id'
    · exact h.bytes id'
  · rw [hcounter, h.answers, List.count_singleton]
    by_cases he : id' = id
    · subst he
      simp only [beq_self_eq_true, if_true, hmissed]
      omega
    · rw [if_neg he, if_neg (by simpa using Ne.symm he)]
      rfl
  · rw [hcounter]
    split
    · exact h.transmissions id
    · exact h.transmissions id'

/-- A request is granted or counted as missed. -/
theorem Books.allocate (h : t.Books setup t.pending came asked) (hid : (t.flows.get? id).isSome)
    (htime : time.numerology.toNat < 8) (drawn : Nat) :
    Yields (fun r => r.1.Books setup r.1.pending came fun id' => asked id' + [id].count id')
      (SidelinkTraffic.allocate chance time (t, drawn) id) := by
  obtain ⟨f, hf⟩ := Option.isSome_iff_exists.mp hid
  obtain ⟨d, k, hd, -, hbytes⟩ := h.carries.uses id f hf
  obtain ⟨offered, hoffered, htimes⟩ := candidates_ok t chance drawn htime
  obtain ⟨s, outcome, htrigger⟩ := Sidelink.trigger_ok h.carries.sound hd hbytes htimes
  refine .bind_ok (lift_fault_ok_iff.mpr hoffered) ?_
  refine .bind_ok (lift_fault_ok_iff.mpr htrigger) ?_
  rcases Sidelink.trigger_cases htrigger with ⟨rfl, hnone | ⟨why, hwhy⟩⟩ |
    ⟨chosen, first, hchosen, hlength, hgranted, hsent⟩
  · obtain rfl : outcome = none := Except.ok.inj hnone
    refine .bind_ok (a := (t.scheduler, none)) rfl ?_
    exact (Yields.add _ _).bind fun missed hmissed => h.missed id hmissed
  · cases hwhy
  · obtain rfl : outcome = some (Sidelink.grants chosen first) := Except.ok.inj hgranted
    obtain ⟨g, rest, hgrants, hprocess, hcontent, hrest⟩ := Sidelink.grants_cons first hchosen
    rw [hgrants]
    refine .bind_ok (a := (s, some (g :: rest))) rfl ?_
    exact (h.send hid hsent hprocess hcontent (by omega)).bind fun t' ht' => ht'

theorem Books.allocateAll {ids : List DestinationId} (h : t.Books setup t.pending came asked)
    (hids : ∀ id ∈ ids, (setup.rate? id).isSome) (htime : time.numerology.toNat < 8) (drawn : Nat) :
    Yields (fun r => r.1.Books setup r.1.pending came fun id => asked id + ids.count id)
      (ids.foldlM (SidelinkTraffic.allocate chance time) (t, drawn)) := by
  induction ids generalizing t asked drawn with
  | nil => exact h
  | cons id ids ih =>
    have hid : (t.flows.get? id).isSome := by
      have := hids id List.mem_cons_self
      rwa [← h.rates, Option.isSome_map] at this
    rw [List.foldlM_cons]
    refine (h.allocate hid htime drawn).bind fun r hr => ?_
    refine (ih hr (fun id hid => hids id (List.mem_cons_of_mem _ hid)) r.2).imp fun r' hr' => ?_
    have hcount : (fun id' => asked id' + (id :: ids).count id') =
        fun id' => asked id' + [id].count id' + ids.count id' := by
      funext id'
      rw [← List.singleton_append, List.count_append, Nat.add_assoc]
    rw [hcount]
    exact hr'

/-- In a slot new bytes come in, and every destination asks for an allocation if it is time. -/
theorem Books.step (h : t.Books setup t.pending came asked) (htime : time.numerology.toNat < 8)
    (drawn : Nat) :
    Yields (fun r => r.1.Books setup r.1.pending (fun id => came id + t.arriving id) fun id =>
        asked id + if setup.asks time && (setup.rate? id).isSome then 1 else 0)
      (SidelinkTraffic.step chance drawn time t) := by
  obtain ⟨t', hfill, hpending, h'⟩ := h.fillQueues
  obtain ⟨n, hn⟩ := SlotTime.succeeds_count htime
  have hasks : setup.asks time = decide (n.toNat % max setup.period.toNat 1 = 0) := by
    unfold SidelinkSetup.asks
    rw [hn]
    rfl
  have hdue : t'.isDue time = .ok (setup.asks time) := by
    unfold isDue
    rw [hn, h'.fixed, hasks]
    rfl
  rw [← hpending] at h'
  refine .bind_ok hfill (.bind_ok (lift_fault_ok_iff.mpr hdue) ?_)
  by_cases htrue : setup.asks time = true
  · rw [if_pos htrue]
    have hkeys : ∀ id, id ∈ t'.flows.keys ↔ (setup.rate? id).isSome := fun id => by
      rw [← h'.rates, Option.isSome_map, Table.mem_keys]
    refine (h'.allocateAll (fun id hid => (hkeys id).mp hid) htime drawn).imp fun r hr => ?_
    have hcount : (fun id => asked id + t'.flows.keys.count id) = fun id =>
        asked id + if setup.asks time && (setup.rate? id).isSome then 1 else 0 := by
      funext id
      rw [t'.flows.keys_nodup.count, htrue, Bool.true_and]
      simp only [hkeys]
    rw [← hcount]
    exact hr
  · rw [if_neg htrue]
    have hnone : (fun id => asked id + if setup.asks time && (setup.rate? id).isSome then 1 else 0) =
        asked := by
      funext id
      rw [Bool.eq_false_iff.mpr htrue, Bool.false_and]
      rfl
    rw [hnone]
    exact h'

def slot (chance : Chance) (drawn : Nat) (time : SlotTime) (t : SidelinkTraffic) :
    Except Failure (SidelinkTraffic × Nat) := do
  (← t.deliver).step chance drawn time

theorem Books.slot (h : t.Books setup t.pending came asked) (htime : time.numerology.toNat < 8)
    (drawn : Nat) :
    Yields (fun r => r.1.Books setup r.1.pending (fun id => came id + t.arriving id) fun id =>
        asked id + if setup.asks time && (setup.rate? id).isSome then 1 else 0)
      (SidelinkTraffic.slot chance drawn time t) := by
  refine h.deliver.bind fun t' ht' => ?_
  have harriving : t'.arriving = t.arriving := by
    unfold arriving
    rw [ht'.2]
  rw [← harriving]
  exact ht'.1.step htime drawn

/-- As long as no counter can be full, nothing ends a slot early. -/
theorem Books.succeeds_slot (h : t.Books setup t.pending came asked)
    (htime : time.numerology.toNat < 8) (hcame : ∀ id, came id < 2 ^ 63)
    (hasked : ∀ id, asked id < 2 ^ 55) (drawn : Nat) :
    Succeeds (SidelinkTraffic.slot chance drawn time t) := by
  -- Each counter is bounded by what the books say, before and after the delivery.
  have hsmall : ∀ {t : SidelinkTraffic}, t.Books setup t.pending came asked →
      ∀ {n : Nat} {amounts : List (DestinationId × SidelinkCounters)}, n < 2 ^ 62 →
      CountsAtMost n amounts → Succeeds (amounts.foldlM Table.tally t.counters) := by
    intro t h n amounts hn hmost
    refine succeeds_tallied fun id i => ?_
    have hbytes := h.bytes id
    have hanswers := h.answers id
    have htransmissions := h.transmissions id
    have hc := hcame id
    have ha := hasked id
    have hread : (t.counterOf id).read i ≤ 2 ^ 63 := by
      unfold SidelinkCounters.read
      split <;> omega
    exact lt_of_le_of_lt (Nat.add_le_add hread (hmost id i))
      (lt_of_lt_of_le (Nat.add_lt_add_left hn _) (by decide))
  obtain ⟨t₁, amounts, -, hmost, hall⟩ := deliver_ok ⟨h.carries, h.holds⟩
  obtain ⟨counters, hcounters⟩ := hsmall h (by decide) hmost
  have hdeliver : t.deliver = _ := hall t.counters counters hcounters
  have h₁ := (h.deliver.of_ok hdeliver).1
  obtain ⟨t₂, drawn', amounts, -, hmost, hall⟩ :=
    step_ok chance ⟨h₁.carries, h₁.holds⟩ htime drawn
  obtain ⟨counters', hcounters'⟩ := hsmall h₁ (by decide) hmost
  exact ⟨_, bind_ok_iff.mpr ⟨_, hdeliver, hall _ counters' hcounters'⟩⟩

theorem connect_frame {d : DestinationSetup} {o : Option Confirmation}
    (h : t.connect d = .ok (t', o)) : t' = { t with
      scheduler := t'.scheduler
      flows := t.flows.insert d.destination ⟨d.channel, ⟨d.rate, 0⟩⟩
      counters := t.counters.insert d.destination {} } := by
  obtain ⟨⟨s, confirmation⟩, -, hrest⟩ := bind_ok_iff.mp h
  simp only at hrest
  split at hrest
  · obtain ⟨s, -, hlast⟩ := bind_ok_iff.mp hrest
    cases hlast
    rfl
  · cases hrest
    rfl

theorem flows_of_connected {l : List DestinationSetup} (h : (collect connect t l).2 = .ok t')
    (id : DestinationId) : t'.flows.get? id =
      ((l.reverse.find? (·.destination = id)).map fun d => ⟨d.channel, ⟨d.rate, 0⟩⟩).or
        (t.flows.get? id) :=
  get?_of_collected SidelinkTraffic.flows (fun t d t' o hconnect => by
    rw [connect_frame hconnect]) h id

theorem books_start {link : LinkModel} (h : (start setup link).2 = .ok t) :
    t.Books setup t.pending (fun _ => 0) fun _ => 0 := by
  obtain ⟨hquiet, hpending⟩ := quiet_start h
  have hflows : ∀ id, t.flows.get? id = (setup.destinations.reverse.find?
      (·.destination = id)).map fun d => ⟨d.channel, ⟨d.rate, 0⟩⟩ := by
    intro id
    unfold start at h
    split at h
    · cases h
    · rw [flows_of_connected h]
      exact Option.or_none
  have hblank : t.setup = setup ∧ ∀ id, t.counterOf id = {} := by
    unfold start at h
    split at h
    · cases h
    · refine collect_keeps (I := fun t : SidelinkTraffic => t.setup = setup ∧
        ∀ id, t.counterOf id = {}) h ⟨rfl, fun id => rfl⟩ ?_
      rintro t d t' o ⟨hsetup, hcounter⟩ hconnect
      rw [connect_frame hconnect]
      refine ⟨hsetup, fun id => ?_⟩
      refine (Table.meter_insert t.counters d.destination id {}).trans ?_
      split
      · rfl
      · exact hcounter id
  have hwaiting : ∀ id f, t.flows.get? id = some f → f.queue.waiting = 0 := by
    intro id f hf
    rw [hflows] at hf
    obtain ⟨d, -, rfl⟩ := Option.map_eq_some_iff.mp hf
    rfl
  refine ⟨hblank.1, fun id => ?_, hquiet.carries, ?_, fun id f hf => ?_, fun id => ?_,
    fun id => ?_, fun id => ?_⟩
  · rw [hflows, Option.map_map]
    rfl
  · rw [hpending]
    exact hquiet.holds
  · obtain ⟨d, k, hd, -⟩ := hquiet.carries.uses id f hf
    exact ⟨d, hd, by rw [hquiet.silent id d hd, hwaiting id f hf]; rfl⟩
  · have hnone : t.waiting id = 0 := by
      unfold waiting
      cases hf : t.flows.get? id with
      | none => rfl
      | some f => exact congrArg UInt32.toNat (hwaiting id f hf)
    rw [hnone, hpending, hblank.2]
    rfl
  · rw [hblank.2]
    rfl
  · rw [hblank.2]
    exact Nat.zero_le _

theorem arriving_le (hrates : ∀ id, (t.flows.get? id).map (·.queue.rate) = setup.rate? id)
    (id : DestinationId) : t.arriving id ≤ setup.offered id := by
  unfold arriving SidelinkSetup.offered
  rw [← hrates]
  cases t.flows.get? id with
  | none => exact Nat.le_refl 0
  | some f =>
    have harrive := f.queue.waiting_arrive
    simp only [Option.map_some, Option.getD_some]
    omega

/-- No queue is cut off at the largest word when the next bytes come in. -/
def HasRoom (t : SidelinkTraffic) : Prop :=
  ∀ f ∈ t.flows.values, f.queue.waiting.toNat + f.queue.rate.toNat < UInt32.size

instance (t : SidelinkTraffic) : Decidable t.HasRoom :=
  inferInstanceAs (Decidable (∀ f ∈ t.flows.values, _))

theorem arriving_of_room (hrates : ∀ id, (t.flows.get? id).map (·.queue.rate) = setup.rate? id)
    (hroom : t.HasRoom) (id : DestinationId) :
    t.arriving id = setup.offered id := by
  unfold arriving SidelinkSetup.offered
  rw [← hrates]
  cases hf : t.flows.get? id with
  | none => rfl
  | some f =>
    have hlt := hroom f (Table.mem_values.mpr ⟨id, hf⟩)
    have harrive := f.queue.waiting_arrive
    simp only [Option.map_some, Option.getD_some]
    omega

end SidelinkTraffic

end Airtime
