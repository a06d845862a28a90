import Airtime.Proofs.SidelinkStep
import Mathlib

/-! What a block towards a sidelink destination looks like. It goes out on the earliest candidates,
as often as the destination repeats its blocks, and on no more subchannels than the waiting bytes
need. -/

namespace Airtime

def Candidate.slots (c : Candidate) : Nat := c.time.slots

/-- The `n` earliest of some candidates in the order of their slots, and those that are left over.
Candidates of one slot keep their order. -/
structure Earliest (cs : List Candidate) (n : Nat) (chosen rest : List Candidate) : Prop where
  length : chosen.length = min cs.length n
  perm : (chosen ++ rest).Perm cs
  ordered : chosen.Pairwise (·.slots ≤ ·.slots)
  none_earlier : ∀ a ∈ chosen, ∀ b ∈ rest, a.slots ≤ b.slots
  stable : ∀ k, (chosen ++ rest).filter (·.slots = k) = cs.filter (·.slots = k)

/-- The fewest of `m` subchannels whose block holds `bytes` bytes; all of them if none does. -/
def Narrowest (size : Nat → UInt32) (bytes m width : Nat) : Prop :=
  IsLeast {c | 1 ≤ c ∧ c ≤ m ∧ bytes ≤ (size c).toNat} width ∨
    (∀ c, 1 ≤ c → c ≤ m → (size c).toNat < bytes) ∧ width = m

structure Plan where
  mcs : UInt8
  chosen : List Candidate
  width : Nat
  size : UInt32

namespace Plan

def subchannels (p : Plan) : Nat := (p.chosen.map (·.subchannels.toNat)).min?.getD 0

def symbols (p : Plan) : Nat := (p.chosen.map (·.symbols.toNat)).min?.getD 0

end Plan

namespace Sidelink

def repetitions (s : Sidelink) (d : Destination) : Nat :=
  if d.repeated then s.config.maxTransmissions.toNat else 1

/-- The block that `bytes` waiting bytes ask for. -/
def plan (s : Sidelink) (d : Destination) (bytes : UInt32) (cs : List Candidate) :
    Except Fault Plan := do
  let mcs := s.selectMcs d
  let chosen := (← inSlotOrder cs).take (s.repetitions d)
  let subchannels := (chosen.map Candidate.subchannels).min?.getD 0
  let symbols := (chosen.map Candidate.symbols).min?.getD 0
  let blockSize (n : Nat) : UInt32 := s.linkModel.blockSize mcs
    (Word.mulSat (Word.mulSat (UInt32.ofNat n) s.config.blocksPerSubchannel) symbols.toUInt32)
  let (width, size) := fewestSubchannels blockSize bytes subchannels.toNat
  return ⟨mcs, chosen, width, size⟩

def carried (s : Sidelink) (p : Plan) (c : Nat) : UInt32 :=
  s.linkModel.blockSize p.mcs
    (UInt32.ofNat (min (c * s.config.blocksPerSubchannel.toNat * p.symbols) (UInt32.size - 1)))

/-- What the plan for a destination with `bytes` waiting bytes is. -/
structure Planned (s : Sidelink) (d : Destination) (bytes : Nat) (cs : List Candidate) (p : Plan) :
    Prop where
  mcs : p.mcs = s.selectMcs d
  chosen : ∃ rest, Earliest cs (s.repetitions d) p.chosen rest
  width : Narrowest (s.carried p) bytes p.subchannels p.width
  size : p.size = if p.width = 0 then 0 else s.carried p p.width

def firstGrant (id : DestinationId) (p : Plan) (process : ProcessId) (content : List Pdu) : Grant :=
  { time := ⟨0, 0, 0, 0⟩, destination := id, start := 0, subchannels := UInt16.ofNat p.width,
    mcs := p.mcs, process, redundancy := 0, newData := true, transmission := 0, blockSize := p.size,
    content }

theorem trigger_eq (s : Sidelink) (id : DestinationId) (cs : List Candidate) :
    s.trigger id cs =
      match s.destination? id with
      | none => .ok (s, .error (.unknownDestination id))
      | some d => do
        let backlog ← d.backlog
        if backlog = 0 ∨ cs.isEmpty ∨ s.harq.available = 0 then return (s, .ok none)
        else
          let p ← s.plan d backlog cs
          if p.size = 0 then return (s, .ok none)
          else
            match s.harq.assign id with
            | .error e => return (s, .error (.harq e))
            | .ok (process, harq) =>
              let (content, groups) ← d.groups.fill p.size
              return ({ s with harq }.put id { d with groups, mcs := p.mcs },
                .ok (some (grants p.chosen (firstGrant id p process content)))) := by
  unfold trigger plan
  simp only [bind_assoc, pure_bind]
  rfl

def bySlot (cs : List Candidate) : List Candidate := cs.mergeSort fun a b => a.slots ≤ b.slots

theorem pairwise_bySlot (cs : List Candidate) : (bySlot cs).Pairwise (·.slots ≤ ·.slots) := by
  have h : (bySlot cs).Pairwise fun a b => decide (a.slots ≤ b.slots) = true :=
    List.pairwise_mergeSort (fun a b c hab hbc => by simp only [decide_eq_true_eq] at *; omega)
      (fun a b => by simp only [Bool.or_eq_true, decide_eq_true_eq]; omega) cs
  exact h.imp of_decide_eq_true

theorem filter_bySlot (cs : List Candidate) (k : Nat) :
    (bySlot cs).filter (·.slots = k) = cs.filter (·.slots = k) :=
  filter_mergeSort (fun a b c hab hbc => by simp only [decide_eq_true_eq] at *; omega)
    (fun a b => by simp only [Bool.or_eq_true, decide_eq_true_eq]; omega)
    (fun a b ha hb => by simp only [decide_eq_true_eq] at *; omega) cs

theorem inSlotOrder_eq {cs : List Candidate} (h : ∀ c ∈ cs, c.time.numerology.toNat < 8) :
    inSlotOrder cs = .ok (bySlot cs) := by
  unfold inSlotOrder
  split
  · next hshort =>
    have hsorted : bySlot cs = cs := by
      refine List.mergeSort_of_pairwise ?_
      match cs, hshort with
      | [], _ => exact .nil
      | [c], _ => exact List.pairwise_singleton _ c
    rw [hsorted]
  · have hcounted : cs.mapM (fun c => do return (c, ← c.time.count) : Candidate → Except Fault _) =
        .ok (cs.map fun c => (c, UInt64.ofNat c.slots)) := by
      refine mapM_ok_iff.mpr (List.forall₂_map_right_iff.mpr (List.forall₂_same.mpr fun c hc => ?_))
      rw [SlotTime.count_eq (h c hc)]
      rfl
    rw [hcounted]
    refine congrArg Except.ok ?_
    rw [List.map_mergeSort (s := fun a b : Candidate => decide (a.slots ≤ b.slots)), List.map_map]
    · exact congrArg bySlot (List.map_id cs)
    · simp only [List.mem_map]
      rintro _ ⟨a, ha, rfl⟩ _ ⟨b, hb, rfl⟩
      have hcount : ∀ c ∈ cs, (UInt64.ofNat c.slots).toNat = c.slots := fun c hc =>
        UInt64.toNat_ofNat_of_lt' ((SlotTime.slots_lt (h c hc)).trans (by decide))
      refine decide_eq_decide.mpr ?_
      change UInt64.ofNat a.slots ≤ UInt64.ofNat b.slots ↔ a.slots ≤ b.slots
      rw [UInt64.le_iff_toNat_le, hcount a ha, hcount b hb]

theorem earliest_bySlot (cs : List Candidate) (n : Nat) :
    Earliest cs n ((bySlot cs).take n) ((bySlot cs).drop n) := by
  have hsorted := pairwise_bySlot cs
  have hperm : (bySlot cs).Perm cs := List.mergeSort_perm cs _
  rw [← List.take_append_drop n (bySlot cs), List.pairwise_append] at hsorted
  refine ⟨?_, ?_, hsorted.1, hsorted.2.2, fun k => ?_⟩
  · rw [List.length_take, hperm.length_eq, Nat.min_comm]
  · rwa [List.take_append_drop]
  · rw [List.take_append_drop, filter_bySlot]

/-- Candidates of different slots come out the same in whatever order they are offered. -/
theorem bySlot_of_perm {cs cs' : List Candidate} (h : cs'.Perm cs)
    (hnodup : (cs.map Candidate.slots).Nodup) : bySlot cs' = bySlot cs := by
  have hperm : (bySlot cs').Perm (bySlot cs) :=
    ((List.mergeSort_perm cs' _).trans h).trans (List.mergeSort_perm cs _).symm
  refine hperm.eq_of_pairwise (fun a b ha hb hab hba => ?_) (pairwise_bySlot cs')
    (pairwise_bySlot cs)
  have ha' := h.mem_iff.mp ((List.mergeSort_perm cs' _).mem_iff.mp ha)
  have hb' := (List.mergeSort_perm cs _).mem_iff.mp hb
  exact List.inj_on_of_nodup_map hnodup ha' hb' (Nat.le_antisymm hab hba)

theorem toNat_min? (l : List UInt16) :
    (l.min?.getD 0).toNat = (l.map UInt16.toNat).min?.getD 0 := by
  cases h : l.min? with
  | none => simp [List.min?_eq_none_iff.mp h]
  | some a =>
    obtain ⟨hmem, hle⟩ := List.min?_eq_some_iff.mp h
    have hmin : (l.map UInt16.toNat).min? = some a.toNat := by
      refine List.min?_eq_some_iff.mpr ⟨List.mem_map_of_mem hmem, fun n hn => ?_⟩
      obtain ⟨b, hb, rfl⟩ := List.mem_map.mp hn
      exact UInt16.le_iff_toNat_le.mp (hle b hb)
    rw [hmin]
    rfl

theorem mulSat_mulSat (a b c : UInt32) : Word.mulSat (Word.mulSat a b) c =
    UInt32.ofNat (min (a.toNat * b.toNat * c.toNat) (UInt32.size - 1)) := by
  have hclip : min (a.toNat * b.toNat) (UInt32.size - 1) < UInt32.size :=
    (Nat.min_le_right _ _).trans_lt (by decide)
  refine congrArg UInt32.ofNat ?_
  change min ((UInt32.ofNat (min (a.toNat * b.toNat) (UInt32.size - 1))).toNat * c.toNat)
    (UInt32.size - 1) = _
  rw [UInt32.toNat_ofNat_of_lt' hclip]
  rcases Nat.le_total (a.toNat * b.toNat) (UInt32.size - 1) with hle | hle
  · rw [Nat.min_eq_left hle]
  · rw [Nat.min_eq_right hle]
    rcases Nat.eq_zero_or_pos c.toNat with h0 | hpos
    · rw [h0, Nat.mul_zero, Nat.mul_zero]
    · have hlow := Nat.le_mul_of_pos_right (UInt32.size - 1) hpos
      rw [Nat.min_eq_right hlow, Nat.min_eq_right (hlow.trans (Nat.mul_le_mul_right _ hle))]

/-- The width that is found, and the size of the block there; without any subchannel it is empty. -/
theorem narrowest_fewestSubchannels (size : Nat → UInt32) (bytes : UInt32) (m : Nat) :
    Narrowest size bytes.toNat m (fewestSubchannels size bytes m).1 ∧
      (fewestSubchannels size bytes m).2 =
        if (fewestSubchannels size bytes m).1 = 0 then 0
        else size (fewestSubchannels size bytes m).1 := by
  unfold fewestSubchannels
  simp only [List.find?_map]
  cases h : (List.range' 1 m).find? ((fun s : Nat × UInt32 => decide (bytes ≤ s.2)) ∘
      fun k => (k, size k)) with
  | some k =>
    rw [List.find?_range'_eq_some] at h
    obtain ⟨hk, hmem, hfirst⟩ := h
    simp only [Function.comp_apply, decide_eq_true_eq, UInt32.le_iff_toNat_le] at hk
    rw [List.mem_range'_1] at hmem
    simp only [Option.map_some]
    refine ⟨.inl ⟨⟨hmem.1, by omega, hk⟩, fun c hc => ?_⟩, ?_⟩
    · by_contra hlt
      have := hfirst c hc.1 (Nat.lt_of_not_le hlt)
      simp only [Function.comp_apply, Bool.not_eq_true', decide_eq_false_iff_not,
        UInt32.le_iff_toNat_le] at this
      exact this hc.2.2
    · rw [if_neg (by omega)]
  | none =>
    rw [List.find?_range'_eq_none] at h
    have hnone : ∀ c, 1 ≤ c → c ≤ m → (size c).toNat < bytes.toNat := by
      intro c h1 hm
      have := h c h1 (by omega)
      simpa [UInt32.le_iff_toNat_le] using this
    cases m with
    | zero => exact ⟨.inr ⟨hnone, rfl⟩, rfl⟩
    | succ m =>
      have hlast : ((List.range' 1 (m + 1)).map fun k => (k, size k)).getLastD (0, 0) =
          (m + 1, size (m + 1)) := by
        rw [List.range'_concat, List.map_append, Nat.one_mul, Nat.add_comm 1 m]
        simp
      simp only [Option.map_none, hlast]
      exact ⟨.inr ⟨hnone, rfl⟩, rfl⟩

theorem fewestSubchannels_congr {size size' : Nat → UInt32} {m : Nat}
    (h : ∀ c ≤ m, size c = size' c) (bytes : UInt32) :
    fewestSubchannels size bytes m = fewestSubchannels size' bytes m := by
  have hsizes : (List.range' 1 m).map (fun k => (k, size k)) =
      (List.range' 1 m).map fun k => (k, size' k) := by
    refine List.map_congr_left fun c hc => ?_
    rw [List.mem_range'_1] at hc
    rw [h c (by omega)]
  unfold fewestSubchannels
  rw [hsizes]

theorem plan_ok (s : Sidelink) (d : Destination) (bytes : UInt32) {cs : List Candidate}
    (h : ∀ c ∈ cs, c.time.numerology.toNat < 8) :
    ∃ p, s.plan d bytes cs = .ok p ∧ s.Planned d bytes.toNat cs p := by
  let chosen := (bySlot cs).take (s.repetitions d)
  let symbols := (chosen.map Candidate.symbols).min?.getD 0
  let m := (chosen.map Candidate.subchannels).min?.getD 0
  let size (n : Nat) : UInt32 := s.linkModel.blockSize (s.selectMcs d)
    (Word.mulSat (Word.mulSat (UInt32.ofNat n) s.config.blocksPerSubchannel) symbols.toUInt32)
  let found := fewestSubchannels size bytes m.toNat
  let p : Plan := ⟨s.selectMcs d, chosen, found.1, found.2⟩
  have hsymbols : symbols.toUInt32.toNat = p.symbols := by
    rw [UInt16.toNat_toUInt32, toNat_min?, List.map_map]
    rfl
  have hm : m.toNat = p.subchannels := by
    rw [toNat_min?, List.map_map]
    rfl
  have hsize : ∀ c ≤ m.toNat, size c = s.carried p c := by
    intro c hc
    have hlt := m.toNat_lt
    refine congrArg (s.linkModel.blockSize (s.selectMcs d)) ?_
    rw [mulSat_mulSat, UInt32.toNat_ofNat_of_lt' (by simp only [UInt32.size]; omega), hsymbols]
  have hfound : found = fewestSubchannels (s.carried p) bytes p.subchannels :=
    hm ▸ fewestSubchannels_congr hsize bytes
  obtain ⟨hwidth, hempty⟩ := narrowest_fewestSubchannels (s.carried p) bytes p.subchannels
  rw [← hfound] at hwidth hempty
  refine ⟨p, ?_, rfl, ⟨_, earliest_bySlot cs _⟩, hwidth, hempty⟩
  unfold plan
  rw [inSlotOrder_eq h]
  rfl

theorem trigger_of_perm (s : Sidelink) (id : DestinationId) {cs cs' : List Candidate}
    (h : ∀ c ∈ cs, c.time.numerology.toNat < 8) (hperm : cs'.Perm cs)
    (hnodup : (cs.map Candidate.slots).Nodup) : s.trigger id cs' = s.trigger id cs := by
  have h' : ∀ c ∈ cs', c.time.numerology.toNat < 8 := fun c hc => h c (hperm.mem_iff.mp hc)
  have hplan : ∀ d bytes, s.plan d bytes cs' = s.plan d bytes cs := by
    intro d bytes
    unfold plan
    rw [inSlotOrder_eq h, inSlotOrder_eq h', bySlot_of_perm hperm hnodup]
  rw [trigger_eq, trigger_eq, hperm.isEmpty_eq]
  simp only [hplan]

end Sidelink

/-- Transmission `i` of a planned block, to candidate `c`. The first one names the content. -/
structure Grant.Transmits (g : Grant) (p : Plan) (id : DestinationId) (process : ProcessId)
    (content : List Pdu) (i : Nat) (c : Candidate) : Prop where
  time : g.time = c.time
  start : g.start = c.start
  destination : g.destination = id
  subchannels : g.subchannels.toNat = p.width
  mcs : g.mcs = p.mcs
  process : g.process = process
  blockSize : g.blockSize = p.size
  transmission : g.transmission.toNat = i
  newData : g.newData = decide (i = 0)
  redundancy : versions[i % 4]? = some g.redundancy
  content : g.content = if i = 0 then content else []

namespace Sidelink

/-- A planned block is sent: one grant for each candidate, over a process that was free, filled from
the channels of its destination. -/
def Granted (s : Sidelink) (id : DestinationId) (d : Destination) (p : Plan)
    (grants : List Grant) (s' : Sidelink) : Prop :=
  ∃ process harq content groups, s.harq.assign id = .ok (process, harq) ∧
    d.groups.Filled p.size content groups ∧
    s' = { s with harq }.put id { d with groups, mcs := p.mcs } ∧
    grants.length = p.chosen.length ∧
    ∀ i c, p.chosen[i]? = some c → ∃ g : Grant, grants[i]? = some g ∧
      g.Transmits p id process content i c

theorem Planned.width_lt {s : Sidelink} {d : Destination} {bytes : Nat} {cs : List Candidate}
    {p : Plan} (h : s.Planned d bytes cs p) : p.width < UInt16.size := by
  have hle : p.width ≤ p.subchannels := by
    rcases h.width with hleast | ⟨-, heq⟩
    · exact hleast.1.2.1
    · exact heq.le
  have hm : p.subchannels = ((p.chosen.map Candidate.subchannels).min?.getD 0).toNat := by
    rw [toNat_min?, List.map_map]
    rfl
  have hlt := ((p.chosen.map Candidate.subchannels).min?.getD 0).toNat_lt
  simp only [UInt16.size]
  omega

theorem Planned.length_le {s : Sidelink} {d : Destination} {bytes : Nat} {cs : List Candidate}
    {p : Plan} (h : s.Planned d bytes cs p) : p.chosen.length ≤ 255 := by
  obtain ⟨rest, hchosen⟩ := h.chosen
  have hmax := s.config.maxTransmissions.toNat_lt
  have hlength := hchosen.length
  unfold repetitions at hlength
  split at hlength <;> omega

theorem getElem?_grants (cs : List Candidate) (first : Grant) (i : Nat) :
    (grants cs first)[i]? = cs[i]?.map fun c =>
      { first with
        time := c.time
        start := c.start
        redundancy := redundancyVersion (UInt8.ofNat i)
        newData := i = 0
        transmission := UInt8.ofNat i
        content := if i = 0 then first.content else [] } := by
  rw [grants, List.getElem?_map, List.getElem?_zipIdx, Option.map_map]
  cases cs[i]? <;> simp

theorem granted_of_fill {s : Sidelink} {id : DestinationId} {d : Destination} {bytes : Nat}
    {cs : List Candidate} {p : Plan} (hp : s.Planned d bytes cs p) (wf : d.groups.WellFormed)
    {process : ProcessId} {harq : HarqTable DestinationId Packet}
    (hassign : s.harq.assign id = .ok (process, harq)) {content : List Pdu} {groups : Groups}
    (hfill : d.groups.fill p.size = .ok (content, groups)) :
    s.Granted id d p (grants p.chosen (firstGrant id p process content))
      ({ s with harq }.put id { d with groups, mcs := p.mcs }) := by
  refine ⟨process, harq, content, groups, hassign, Groups.filled_of_fill wf hfill, rfl,
    by simp [grants], fun i c hc => ?_⟩
  have hi : i < 256 := by
    have hlt := (List.getElem?_eq_some_iff.mp hc).1
    have hle := hp.length_le
    omega
  have htransmission : (UInt8.ofNat i).toNat = i := UInt8.toNat_ofNat_of_lt' hi
  rw [getElem?_grants, hc]
  refine ⟨_, rfl, ?_⟩
  exact
    { time := rfl
      start := rfl
      destination := rfl
      subchannels := UInt16.toNat_ofNat_of_lt' hp.width_lt
      mcs := rfl
      process := rfl
      blockSize := rfl
      transmission := htransmission
      newData := rfl
      redundancy := by
        have hversion := versions_redundancyVersion (UInt8.ofNat i)
        rwa [htransmission] at hversion
      content := rfl }

end Sidelink

/-- A trigger towards a known destination whose bytes and candidates can be counted is answered. It
sends a block exactly if bytes are waiting, a candidate is offered, a process is free and the block
carries a byte. The block goes to the earliest candidates, as often as the destination repeats its
blocks, on the fewest subchannels that hold what is waiting. The order in which candidates of
different slots are offered does not matter. -/
theorem grants_follow_plan {s : Sidelink} (hs : s.Reachable) {id : DestinationId} {d : Destination}
    (hd : s.destination? id = some d) (hbytes : d.groups.bytes < UInt32.size)
    {cs : List Candidate} (htimes : ∀ c ∈ cs, c.time.numerology.toNat ≤ 7) :
    ∃ p s' answer, s.Planned d d.groups.bytes cs p ∧ s.trigger id cs = .ok (s', .ok answer) ∧
      (answer.isSome ↔ d.groups.bytes ≠ 0 ∧ cs ≠ [] ∧ s.harq.available ≠ 0 ∧ p.size ≠ 0) ∧
      (answer = none → s' = s) ∧
      (∀ grants, answer = some grants → s.Granted id d p grants s') ∧
      ∀ cs', cs'.Perm cs → (cs.map Candidate.slots).Nodup → s.trigger id cs' = s.trigger id cs := by
  have htimes' : ∀ c ∈ cs, c.time.numerology.toNat < 8 :=
    fun c hc => Nat.lt_succ_of_le (htimes c hc)
  have wf := hs.sound.groups id d hd
  obtain ⟨backlog, hbacklog⟩ : Succeeds d.backlog := Groups.succeeds_total_iff.mpr hbytes
  have hcount : backlog.toNat = d.groups.bytes := Groups.total_ok_iff.mp hbacklog
  obtain ⟨p, hplan, hplanned⟩ := Sidelink.plan_ok s d backlog htimes'
  rw [hcount] at hplanned
  have hwaiting : d.groups.bytes = 0 ↔ backlog = 0 := by
    rw [← hcount]
    exact ⟨fun h => UInt32.toNat_inj.mp h, fun h => h ▸ rfl⟩
  have hperm : ∀ cs', cs'.Perm cs → (cs.map Candidate.slots).Nodup →
      s.trigger id cs' = s.trigger id cs := fun cs' => Sidelink.trigger_of_perm s id htimes'
  have htrigger := Sidelink.trigger_eq s id cs
  simp only [hd, hbacklog, hplan, ok_bind] at htrigger
  split at htrigger
  · next hidle =>
    refine ⟨p, s, none, hplanned, htrigger, ?_, fun _ => rfl, fun _ h => (nomatch h), hperm⟩
    rw [List.isEmpty_iff, ← hwaiting] at hidle
    simp only [Option.isSome_none, Bool.false_eq_true, false_iff]
    tauto
  · next hready =>
    rw [List.isEmpty_iff, ← hwaiting] at hready
    split at htrigger
    · next hsize =>
      refine ⟨p, s, none, hplanned, htrigger, ?_, fun _ => rfl, fun _ h => (nomatch h), hperm⟩
      simp [hsize]
    · next hsize =>
      obtain ⟨⟨process, harq⟩, hassign⟩ := HarqTable.assign_ok_iff (k := id).mpr
        (Nat.pos_of_ne_zero fun h => hready (.inr (.inr h)))
      obtain ⟨⟨content, groups⟩, hfill⟩ := Groups.succeeds_fill wf.keyed
        (Groups.counted_of_bytes hbytes) p.size
      simp only [hassign, hfill, ok_bind] at htrigger
      refine ⟨p, _, _, hplanned, htrigger, ?_, fun h => (nomatch h), fun grants h => ?_, hperm⟩
      · simp only [Option.isSome_some, true_iff]
        tauto
      · cases h
        exact Sidelink.granted_of_fill hplanned wf hassign hfill

/-- Three candidates for a block that is sent twice. It takes the two earliest ones, with three of
the five subchannels that both offer. -/
theorem grants_follow_plan_sample :
    let candidates : List Candidate :=
      [⟨⟨0, 4, 1, 1⟩, 2, 5, 1⟩, ⟨⟨0, 2, 0, 1⟩, 0, 8, 1⟩, ⟨⟨1, 0, 0, 1⟩, 1, 5, 1⟩]
    ∃ (s : Sidelink) (d : Destination) (p : Plan) (s' : Sidelink) (grants : List Grant),
      s.Reachable ∧ s.destination? ⟨255⟩ = some d ∧ d.groups.bytes = 45 ∧
      s.Planned d 45 candidates p ∧ s.trigger ⟨255⟩ candidates = .ok (s', .ok (some grants)) ∧
      grants.map Grant.subchannels = [3, 3] ∧ s.Granted ⟨255⟩ d p grants s' := by
  intro candidates
  have hrun : (sampleSidelink.performAll [
      .configureChannel { destination := ⟨255⟩, channel := 4, group := 3, priority := 1,
                          delayBudget := 20, repeated := true },
      .reportBuffer (.newData ⟨255⟩ 4 45)]).toOption.any (fun x =>
        (x.2.destination? ⟨255⟩).any (fun d => d.groups.bytes = 45) &&
        (x.2.trigger ⟨255⟩ candidates).toOption.any fun y =>
          (Sidelink.handedOut y.2).map Grant.subchannels = [3, 3]) = true := by
    cbv
  obtain ⟨⟨events, s⟩, hops, htest⟩ := exists_ok_of_any hrun
  obtain ⟨hdestination, htriggered⟩ := Bool.and_eq_true_iff.mp htest
  obtain ⟨d, hd, hbytes⟩ := (Option.any_eq_true _ _).mp hdestination
  obtain ⟨⟨s₁, outcome⟩, htrigger, hwidths⟩ := exists_ok_of_any htriggered
  simp only [decide_eq_true_eq] at hbytes hwidths
  have hs : s.Reachable := ⟨_, _, _, _, sidelinkRun_sample hops⟩
  have htimes : ∀ c ∈ candidates, c.time.numerology.toNat ≤ 7 := by decide
  obtain ⟨p, s', answer, hplanned, hanswer, -, -, hgranted, -⟩ :=
    grants_follow_plan hs hd (by rw [hbytes]; decide) htimes
  rw [hanswer, Except.ok.injEq, Prod.mk.injEq] at htrigger
  obtain ⟨rfl, rfl⟩ := htrigger
  rw [hbytes] at hplanned
  cases answer with
  | none => cases hwidths
  | some grants => exact ⟨s, d, p, s', grants, hs, hd, hbytes, hplanned, hanswer, hwidths,
      hgranted grants rfl⟩

end Airtime
