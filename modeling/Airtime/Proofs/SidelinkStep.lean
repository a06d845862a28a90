import Airtime.Proofs.SidelinkRun
import Airtime.Proofs.SlotTime
import Airtime.Proofs.Traffic

/-! The sidelink's part of a simulated slot. The processes whose feedback is due are held, each by its
own destination, so that all of them are released when the slot starts; what waits towards a
destination is on one channel and fits into a word, so that every allocation is granted or passed
over. -/

namespace Airtime

namespace Sidelink

variable {s s' : Sidelink} {id : DestinationId}

theorem succeeds_inSlotOrder {cs : List Candidate} (h : ∀ c ∈ cs, Succeeds c.time.count) :
    Succeeds (inSlotOrder cs) := by
  unfold inSlotOrder
  split
  · exact succeeds_ok cs
  · exact (succeeds_mapM fun c hc => (h c hc).bind fun n _ => succeeds_ok (c, n)).bind
      fun _ _ => succeeds_ok _

/-- A trigger towards a known destination is answered, if its bytes and the times of the candidates can
be counted. -/
theorem trigger_ok (hs : s.Sound) {d : Destination} (hd : s.destination? id = some d)
    (hbytes : d.groups.bytes < UInt32.size) {candidates : List Candidate}
    (htimes : ∀ c ∈ candidates, Succeeds c.time.count) :
    ∃ s' grants, s.trigger id candidates = .ok (s', .ok grants) := by
  unfold trigger
  obtain ⟨backlog, hbacklog⟩ : Succeeds d.backlog := Groups.succeeds_total_iff.mpr hbytes
  obtain ⟨ordered, hordered⟩ := succeeds_inSlotOrder htimes
  simp only [hd, hbacklog, ok_bind]
  split
  · exact ⟨s, none, rfl⟩
  · next hready =>
    simp only [not_or] at hready
    simp only [hordered, ok_bind]
    generalize (if d.repeated = true then s.config.maxTransmissions.toNat else 1) = count
    split
    · exact ⟨s, none, rfl⟩
    · obtain ⟨⟨process, harq⟩, hassign⟩ := HarqTable.assign_ok_iff (k := id).mpr
        (Nat.pos_of_ne_zero hready.2.2)
      obtain ⟨x, hfill⟩ := Groups.succeeds_fill (hs.groups id d hd).keyed
        (Groups.counted_of_bytes hbytes) _
      simp only [hassign]
      exact ⟨_, _, bind_ok_iff.mpr ⟨x, hfill, rfl⟩⟩

def heldBytes (p : Process DestinationId Packet) : Nat := p.packets.flatten.length

/-- The processes of a list are held, each by its destination and once, with packets that can be
counted. No other process is held. -/
structure Holds (s : Sidelink) (due : List (DestinationId × ProcessId)) : Prop where
  nodup : (due.map Prod.snd).Nodup
  listed : ∀ id process p, s.harq.process? process = some p → p.holder = some id →
    (id, process) ∈ due
  held : ∀ e ∈ due, ∃ p, s.harq.process? e.2 = some p ∧ p.holder = some e.1 ∧
    heldBytes p < UInt32.size

theorem Holds.mem_iff {due : List (DestinationId × ProcessId)} (h : s.Holds due)
    {e : DestinationId × ProcessId} : e ∈ due ↔ s.harq.holder? e.2 = some e.1 := by
  rw [HarqTable.holder?_eq_some_iff]
  constructor
  · intro he
    obtain ⟨p, hp, hk, -⟩ := h.held e he
    exact ⟨p, hp, hk⟩
  · rintro ⟨p, hp, hk⟩
    exact h.listed e.1 e.2 p hp hk

theorem Holds.frame {due : List (DestinationId × ProcessId)} (h : s.Holds due)
    (hharq : s'.harq = s.harq) : s'.Holds due := by
  refine ⟨h.nodup, ?_, ?_⟩
  · rw [hharq]
    exact h.listed
  · rw [hharq]
    exact h.held

/-- The channels of every flow are set up, and what waits on them can be counted. -/
structure Carries (s : Sidelink) (flows : Table DestinationId SidelinkFlow) : Prop where
  sound : s.Sound
  uses : ∀ id f, flows.get? id = some f → ∃ d k, s.destination? id = some d ∧
    d.groups.OnlyAt (k, f.channel) ∧ d.groups.bytes < UInt32.size

theorem Carries.congr {flows flows' : Table DestinationId SidelinkFlow} (h : s.Carries flows)
    (hflows : ∀ id, (flows'.get? id).map SidelinkFlow.channel =
      (flows.get? id).map SidelinkFlow.channel) : s.Carries flows' := by
  refine ⟨h.sound, fun id f' hf' => ?_⟩
  have hsame := hflows id
  rw [hf'] at hsame
  obtain ⟨f, hf, hchannel⟩ := Option.map_eq_some_iff.mp hsame.symm
  rw [← hchannel]
  exact h.uses id f hf

theorem Carries.put {flows : Table DestinationId SidelinkFlow} (h : s.Carries flows)
    {d : Destination} (wf : d.groups.WellFormed) (honly : ∀ f, flows.get? id = some f →
      ∃ k, d.groups.OnlyAt (k, f.channel)) (hbytes : d.groups.bytes < UInt32.size) :
    (s.put id d).Carries flows := by
  refine ⟨h.sound.put id wf, fun id' f hf => ?_⟩
  rw [destination?_put]
  split
  · next he =>
    subst he
    obtain ⟨k, hk⟩ := honly f hf
    exact ⟨d, k, rfl, hk, hbytes⟩
  · exact h.uses id' f hf

theorem reportBuffer_ok {flows : Table DestinationId SidelinkFlow} (h : s.Carries flows)
    {f : SidelinkFlow} (hf : flows.get? id = some f) (bytes : UInt32) :
    ∃ d, d.groups.bytes = bytes.toNat ∧
      accepted (s.reportBuffer (.newData id f.channel bytes)) = .ok (s.put id d, ()) ∧
      (s.put id d).Carries flows := by
  obtain ⟨d, k, hd, honly, -⟩ := h.uses id f hf
  have wf := h.sound.groups id d hd
  obtain ⟨gs, hupdate, honly', hbytes⟩ :=
    Groups.OnlyAt.updates (r := BufferReport.newData id f.channel bytes) honly wf
  have hwaiting : gs.bytes = bytes.toNat := by
    rw [hbytes]
    simp [BufferReport.newData]
  have hreport : s.reportBuffer (.newData id f.channel bytes) =
      (s.put id { d with groups := gs }, .ok ()) := by
    unfold Sidelink.reportBuffer
    simp only [BufferReport.newData, hd]
    simp only [BufferReport.newData] at hupdate
    rw [hupdate]
  refine ⟨{ d with groups := gs }, hwaiting, by rw [hreport]; rfl,
    h.put (wf.updates hupdate) (fun f' hf' => ?_) ?_⟩
  · obtain rfl : f = f' := Option.some.inj (hf.symm.trans hf')
    exact ⟨k, honly'⟩
  · simp only [hwaiting]
    exact bytes.toNat_lt_size

theorem packets_of_held {e : DestinationId × ProcessId} {p : Process DestinationId Packet}
    (hp : s.harq.process? e.2 = some p) (hk : p.holder = some e.1) :
    s.packets e.1 e.2 = .ok p.packets := by
  rw [packets, HarqTable.packets_of_held hp hk]
  rfl

/-- Feedback that is due releases its process, and leaves the others to theirs. -/
theorem feedback_ok (hs : s.Sound) {e : DestinationId × ProcessId}
    {due : List (DestinationId × ProcessId)} (h : s.Holds (e :: due)) :
    ∃ harq, s.feedback e.1 e.2 = ({ s with harq }, .ok ()) ∧ Sound { s with harq } ∧
      Holds { s with harq } due ∧ ∀ e' ∈ due, harq.process? e'.2 = s.harq.process? e'.2 := by
  obtain ⟨p, hp, hk, -⟩ := h.held e List.mem_cons_self
  have hfree : e.2 ∉ s.harq.free := by
    rw [hs.harq.free_iff]
    rintro ⟨q, hq, hnone⟩
    obtain rfl : p = q := Option.some.inj (hp.symm.trans hq)
    rw [hk] at hnone
    cases hnone
  have hrelease := HarqTable.release_ok_iff.mpr ⟨hfree, ⟨p, hp, hk⟩, rfl⟩
  have hnodup := h.nodup
  rw [List.map_cons, List.nodup_cons] at hnodup
  have hafter := HarqTable.process?_release hrelease
  have hothers : ∀ e' ∈ due, e'.2 ≠ e.2 := fun e' he' he =>
    hnodup.1 (he ▸ List.mem_map_of_mem he')
  refine ⟨_, by rw [Sidelink.feedback, hrelease],
    hs.withHarq (HarqTable.wellFormed_release hs.harq hrelease), ⟨hnodup.2,
    fun id process q hq hk => ?_, fun e' he' => ?_⟩, fun e' he' => ?_⟩
  · simp only [hafter] at hq
    split at hq
    · cases hq
      cases hk
    · next hne =>
      rcases List.mem_cons.mp (h.listed id process q hq hk) with rfl | hmem
      · exact absurd rfl hne
      · exact hmem
  · simp only [hafter, if_neg (hothers e' he')]
    exact h.held e' (List.mem_cons_of_mem _ he')
  · rw [hafter, if_neg (hothers e' he')]

theorem storeAll_ok {l : List Pdu} {process : ProcessId} {p : Process DestinationId Packet}
    (hp : s.harq.process? process = some p) (hk : p.holder = some id)
    (paired : p.channels.size = p.packets.length) (nodup : (l.map Pdu.channel).Nodup)
    (new : ∀ x ∈ l, x.channel ∉ p.channels.keys) :
    ∃ p', p'.holder = some id ∧ p'.channels.size = p'.packets.length ∧
      heldBytes p' = heldBytes p + (l.map fun x => x.size.toNat).sum ∧
      l.foldlM (fun (s : Sidelink) x => Prod.fst <$> accepted
        (s.addPacket id x.channel process (List.replicate x.size.toNat 0))) s =
          .ok { s with harq := s.harq.put process p' } := by
  induction l generalizing s p with
  | nil =>
    refine ⟨p, hk, paired, rfl, ?_⟩
    rw [HarqTable.put_self hp]
    rfl
  | cons x l ih =>
    rw [List.map_cons, List.nodup_cons] at nodup
    have hx := new x (by simp)
    let packet : Packet := List.replicate x.size.toNat 0
    have hadd := HarqTable.addPacket_of_new (x := packet) hp hk paired hx
    have hp' : (s.harq.put process (p.add x.channel packet)).process? process =
        some (p.add x.channel packet) := by rw [HarqTable.process?_put hp, if_pos rfl]
    obtain ⟨p', hk', paired', hheld, hrest⟩ := ih
      (s := { s with harq := s.harq.put process (p.add x.channel packet) }) hp' hk
      (Process.paired_add paired hx) nodup.2 (fun y hy => by
        rw [Process.mem_keys_add, not_or]
        exact ⟨fun he => nodup.1 (he ▸ List.mem_map_of_mem hy), new y (by simp [hy])⟩)
    refine ⟨p', hk', paired', ?_, ?_⟩
    · rw [hheld]
      simp [heldBytes, Process.add, packet, Nat.add_assoc]
    · rw [List.foldlM_cons]
      refine bind_ok_iff.mpr ⟨{ s with harq := s.harq.put process (p.add x.channel packet) }, ?_, ?_⟩
      · simp only [addPacket, packet, hadd]
        rfl
      · rw [hrest]
        simp only [HarqTable.put_put]

end Sidelink

namespace SidelinkTraffic

variable {t : SidelinkTraffic}

theorem read_arrival_le {bytes : Nat} (h : bytes < UInt32.size) (i : Nat) :
    Meter.read (SidelinkCounters.arrival bytes) i ≤ UInt32.size := by
  change SidelinkCounters.read _ i ≤ _
  unfold SidelinkCounters.read
  split
  · exact (Nat.mod_le _ _).trans h.le
  all_goals exact Nat.zero_le _

theorem acknowledge_ok {e : DestinationId × ProcessId} {due : List (DestinationId × ProcessId)}
    (hs : t.scheduler.Sound) (h : t.scheduler.Holds (e :: due)) :
    ∃ harq bytes, bytes < UInt32.size ∧ Sidelink.Sound { t.scheduler with harq } ∧
      Sidelink.Holds { t.scheduler with harq } due ∧
      Adds [(e.1, SidelinkCounters.arrival bytes)] (fun counters => acknowledge { t with counters } e)
        fun counters => { t with scheduler := { t.scheduler with harq }, counters } := by
  obtain ⟨harq, hfeedback, hsound, hholds, -⟩ := Sidelink.feedback_ok hs h
  obtain ⟨p, hp, hk, hbytes⟩ := h.held e List.mem_cons_self
  refine ⟨harq, _, hbytes, hsound, hholds, adds_singleton fun counts c hc => ?_⟩
  have haccepted := accepted_ok_iff.mpr ⟨congrArg Prod.snd hfeedback, congrArg Prod.fst hfeedback⟩
  obtain ⟨arrived, harrived, rfl⟩ := SidelinkCounters.add_arrival_ok hc
  refine bind_ok_iff.mpr ⟨_, lift_refusal_ok_iff.mpr (Sidelink.packets_of_held hp hk), ?_⟩
  refine bind_ok_iff.mpr ⟨_, lift_fault_ok_iff.mpr harrived, ?_⟩
  exact bind_ok_iff.mpr ⟨_, lift_refusal_ok_iff.mpr haccepted, rfl⟩

/-- Every block on its way arrives, if the counters can take it. -/
theorem acknowledgeAll_ok {due : List (DestinationId × ProcessId)} (hs : t.scheduler.Sound)
    (h : t.scheduler.Holds due) :
    ∃ (harq : _) (arrivals : List (DestinationId × SidelinkCounters)),
      Sidelink.Sound { t.scheduler with harq } ∧ Sidelink.Holds { t.scheduler with harq } [] ∧
      CountsAtMost (due.length * UInt32.size) arrivals ∧
      Adds arrivals (fun counters => due.foldlM acknowledge { t with counters })
        fun counters => { t with scheduler := { t.scheduler with harq }, counters } := by
  induction due generalizing t with
  | nil => exact ⟨t.scheduler.harq, [], hs, h, countsAtMost_nil _, adds_nil fun _ => rfl⟩
  | cons e due ih =>
    obtain ⟨harq₁, bytes, hbytes, hsound₁, hholds₁, hfirst⟩ := acknowledge_ok hs h
    obtain ⟨harq, arrivals, hsound, hholds, hmost, hrest⟩ :=
      ih (t := { t with scheduler := { t.scheduler with harq := harq₁ } }) hsound₁ hholds₁
    have hone := countsAtMost_singleton (e := (e.1, SidelinkCounters.arrival bytes))
      (read_arrival_le hbytes)
    refine ⟨harq, _, hsound, hholds, ?_, hfirst.bind hrest⟩
    rw [List.length_cons, Nat.succ_mul, Nat.add_comm]
    exact hone.append hmost

def arrived (f : SidelinkFlow) : SidelinkFlow := { f with queue := f.queue.arrive }

def reportFlow (s : Sidelink) (id : DestinationId) (f : SidelinkFlow) :
    Except Failure (Sidelink × SidelinkFlow) := do
  let (s, _) ← accepted (s.reportBuffer (.newData id f.channel (arrived f).queue.waiting))
  return (s, arrived f)

theorem fillQueues_eq (t : SidelinkTraffic) : t.fillQueues = do
    let (scheduler, flows) ← t.flows.walk reportFlow t.scheduler
    return { t with scheduler, flows } := rfl

theorem flow_of_report {s s' : Sidelink} {id : DestinationId} {f f' : SidelinkFlow}
    (h : reportFlow s id f = .ok (s', f')) : f' = arrived f := by
  simp only [reportFlow, bind_ok_iff, pure_ok_iff, Prod.mk.injEq] at h
  obtain ⟨_, -, -, rfl⟩ := h
  rfl

theorem reportFlow_ok {s : Sidelink} {flows : Table DestinationId SidelinkFlow}
    (h : s.Carries flows) {id : DestinationId} {f : SidelinkFlow} (hf : flows.get? id = some f) :
    ∃ d, d.groups.bytes = (arrived f).queue.waiting.toNat ∧
      reportFlow s id f = .ok (s.put id d, arrived f) ∧ (s.put id d).Carries flows := by
  obtain ⟨d, hbytes, hreport, hcarries⟩ :=
    Sidelink.reportBuffer_ok h hf (arrived f).queue.waiting
  exact ⟨d, hbytes, bind_ok_iff.mpr ⟨_, lift_refusal_ok_iff.mpr hreport, rfl⟩, hcarries⟩

/-- New bytes arrive and are reported for every destination. -/
theorem fillQueues_ok (h : t.scheduler.Carries t.flows) :
    ∃ destinations, Sidelink.Carries { t.scheduler with destinations } (t.flows.map arrived) ∧
      ∀ counters, fillQueues { t with counters } = .ok { t with
        scheduler := { t.scheduler with destinations }, flows := t.flows.map arrived, counters } := by
  have hstep : ∀ s id f s' f', t.flows.get? id = some f →
      s = { t.scheduler with destinations := s.destinations } ∧ s.Carries t.flows →
      reportFlow s id f = .ok (s', f') →
      s' = { t.scheduler with destinations := s'.destinations } ∧ s'.Carries t.flows := by
    rintro s id f s' f' hf ⟨hs, hcarries⟩ h
    obtain ⟨d, -, hok, hcarries'⟩ := reportFlow_ok hcarries hf
    rw [hok] at h
    cases h
    refine ⟨?_, hcarries'⟩
    rw [hs]
    rfl
  obtain ⟨⟨s, flows⟩, hwalk⟩ : Succeeds (t.flows.walk reportFlow t.scheduler) :=
    succeeds_walk (I := fun _ s => s = { t.scheduler with destinations := s.destinations } ∧
        s.Carries t.flows) ⟨rfl, h⟩
      (fun id f hf _ s hs => by
        obtain ⟨d, -, hok, -⟩ := reportFlow_ok hs.2 hf
        exact ⟨_, hok⟩)
      fun id f hf _ s s' f' => hstep s id f s' f' hf
  obtain ⟨hs, hcarries⟩ := (Table.walk_ok hwalk).keeps
    (I := fun s => s = { t.scheduler with destinations := s.destinations } ∧ s.Carries t.flows)
    ⟨rfl, h⟩ fun s id f s' f' hm => hstep s id f s' f' (Table.mem_entries.mp hm)
  refine ⟨s.destinations, ?_, fun counters => ?_⟩
  · rw [← hs]
    refine hcarries.congr fun id => ?_
    rw [Table.get?_map, Option.map_map]
    rfl
  · rw [fillQueues_eq, ← hs, ← Table.eq_map_of_walk hwalk fun _ _ _ _ _ => flow_of_report]
    exact bind_ok_iff.mpr ⟨_, hwalk, rfl⟩

variable {chance : Chance}

theorem candidates_ok (t : SidelinkTraffic) (chance : Chance) (drawn : Nat) {time : SlotTime}
    (h : time.numerology.toNat < 8) :
    ∃ offered, t.candidates chance drawn time = .ok offered ∧
      ∀ c ∈ offered, Succeeds c.time.count := by
  have hlater : ∀ k ∈ List.range t.setup.candidates.toNat,
      ∃ t', time.later (UInt64.ofNat (k + 1)) = .ok t' ∧ t'.numerology = time.numerology := by
    intro k hk
    have hlt := t.setup.candidates.toNat_lt
    rw [List.mem_range] at hk
    exact SlotTime.later_ok h (lt_of_le_of_lt (Nat.mod_le _ _) (by omega))
  obtain ⟨offered, hoffered⟩ : Succeeds (t.candidates chance drawn time) :=
    succeeds_mapM fun k hk => by
      obtain ⟨t', ht', -⟩ := hlater k hk
      exact Succeeds.bind ⟨t', ht'⟩ fun _ _ => succeeds_ok _
  refine ⟨offered, hoffered, fun c hc => ?_⟩
  obtain ⟨k, hk, hck⟩ := (mem_mapM_ok hoffered).mp hc
  obtain ⟨t', ht', hnumerology⟩ := hlater k hk
  simp only [ht', bind_ok_iff, pure_ok_iff, Except.ok.injEq, exists_eq_left'] at hck
  subst hck
  exact SlotTime.succeeds_count (by rw [hnumerology]; exact h)

end SidelinkTraffic

end Airtime
