import Airtime.Layout
import Airtime.Proofs.Fill
import Airtime.Proofs.Sound

/-! What one direction of a slot does to the state of one user: blocks that were lost are sent again,
and at most one new block is started. Either way the stores stay consistent. -/

namespace Airtime

def Assignment.units (a : Assignment) : Nat := a.numRbg.toNat * a.numSym.toNat

/-- Nothing differs but the resources and the block that one slot assigned; there may be no block any
more. -/
structure LinkState.Alike (s s' : LinkState) : Prop where
  groups : s'.groups = s.groups
  harq : s'.harq = s.harq
  inFlight : s'.inFlight = s.inFlight
  mcs : s'.mcs = s.mcs
  cqi : s'.cqi = s.cqi
  retxRbg : s'.retxRbg = s.retxRbg
  blockSize : s'.blockSize = s.blockSize ∨ s'.blockSize = 0

def LinkState.Waiting (s : LinkState) : Prop := ∃ n, s.backlog = .ok n ∧ n ≠ 0

def Block.repeated (b : Block) (beam : BeamId) (startSym : UInt32) : Assignment :=
  { b.assignment with
    beam, startSym, newData := false, redundancy := redundancyVersion b.transmissions }

def Block.Again (beam : BeamId) (b b' : Block) (sent : List Assignment) : Prop :=
  b' = b ∧ sent = [] ∨
    b.lost = true ∧ ∃ startSym transmissions, transmissions.toNat = b.transmissions.toNat + 1 ∧
      b' = ⟨b.repeated beam startSym, transmissions, false⟩ ∧ sent = [b.repeated beam startSym]

/-- The blocks of a user that were lost are sent again, as far as they fit. Their units are booked,
and there is no new block yet. -/
structure LinkState.Resent (beam : BeamId) (s s' : LinkState) (sent : List Assignment) : Prop where
  groups : s'.groups = s.groups
  harq : s'.harq = s.harq
  mcs : s'.mcs = s.mcs
  cqi : s'.cqi = s.cqi
  retxRbg : s'.retxRbg.toNat = (sent.map Assignment.units).sum
  blockSize : s'.blockSize = 0
  blocks : ∃ E : ProcessId → List Assignment, sent = s.inFlight.keys.flatMap E ∧
    ∀ id, s.inFlight.get? id = none ∧ s'.inFlight.get? id = none ∨
      ∃ b b', s.inFlight.get? id = some b ∧ s'.inFlight.get? id = some b' ∧
        Block.Again beam b b' (E id)

/-- A new block takes a free process, which stores what the channels give to the block. -/
structure LinkState.Opened (r : Rnti) (beam : BeamId) (d : Direction) (s s' : LinkState)
    (a : Assignment) : Prop where
  rnti : a.rnti = r
  beam : a.beam = beam
  direction : a.direction = d
  newData : a.newData = true
  redundancy : a.redundancy = 0
  mcs : a.mcs = s.mcs
  size_ne : a.blockSize ≠ 0
  waiting : s.Waiting
  stored : ∃ harq pdus, s.harq.assign r = .ok (a.process, harq) ∧
    s.groups.fill a.blockSize = .ok (pdus, s'.groups) ∧
    s'.harq = harq.put a.process (Process.addAll Pdu.channel ⟨some r, ∅, []⟩ pdus)
  inFlight : s'.inFlight = s.inFlight.insert a.process ⟨a, 1, false⟩
  blockSize : s'.blockSize = a.blockSize
  same_mcs : s'.mcs = s.mcs
  same_cqi : s'.cqi = s.cqi
  same_retxRbg : s'.retxRbg = s.retxRbg

namespace LinkState

variable {config : CellConfig} {r : Rnti} {d : Direction} {beam : BeamId} {s s' : LinkState}
  {sent : List Assignment}

theorem Alike.refl (s : LinkState) : s.Alike s := ⟨rfl, rfl, rfl, rfl, rfl, rfl, .inl rfl⟩

theorem Alike.trans {s'' : LinkState} (h : s.Alike s') (h' : s'.Alike s'') : s.Alike s'' :=
  ⟨h'.groups.trans h.groups, h'.harq.trans h.harq, h'.inFlight.trans h.inFlight,
    h'.mcs.trans h.mcs, h'.cqi.trans h.cqi, h'.retxRbg.trans h.retxRbg,
    h'.blockSize.elim (fun hsame => hsame ▸ h.blockSize) .inr⟩

theorem Resent.mem (h : s.Resent beam s' sent) {a : Assignment} (ha : a ∈ sent) :
    ∃ id b sym, s.inFlight.get? id = some b ∧ b.lost = true ∧ a = b.repeated beam sym := by
  obtain ⟨E, rfl, hE⟩ := h.blocks
  obtain ⟨id, hid, ha⟩ := List.mem_flatMap.mp ha
  rw [Table.mem_keys] at hid
  rcases hE id with ⟨hnone, -⟩ | ⟨b, b', hb, -, ⟨-, hsent⟩ | ⟨hlost, sym, n, -, -, hsent⟩⟩
  · rw [hnone] at hid
    cases hid
  · rw [hsent] at ha
    cases ha
  · rw [hsent, List.mem_singleton] at ha
    exact ⟨id, b, sym, hb, hlost, ha⟩

theorem Resent.newData (h : s.Resent beam s' sent) : ∀ a ∈ sent, a.newData = false := by
  intro a ha
  obtain ⟨id, b, sym, -, -, rfl⟩ := h.mem ha
  rfl

theorem Opened.congr {s₁ : LinkState} {a : Assignment} (hs : s₁.Alike s)
    (h : s.Opened r beam d s' a) : s₁.Opened r beam d s' a where
  rnti := h.rnti
  beam := h.beam
  direction := h.direction
  newData := h.newData
  redundancy := h.redundancy
  mcs := h.mcs.trans hs.mcs
  size_ne := h.size_ne
  waiting := by
    rw [Waiting, backlog, ← hs.groups]
    exact h.waiting
  stored := by
    rw [← hs.groups, ← hs.harq]
    exact h.stored
  inFlight := hs.inFlight ▸ h.inFlight
  blockSize := h.blockSize
  same_mcs := h.same_mcs.trans hs.mcs
  same_cqi := h.same_cqi.trans hs.cqi
  same_retxRbg := h.same_retxRbg.trans hs.retxRbg

/-- One direction of a slot for user `r`: lost blocks are sent again, and then at most one block is
started. -/
def Turn (r : Rnti) (beam : BeamId) (d : Direction) (s s' : LinkState) (sent : List Assignment) :
    Prop :=
  ∃ s₁ again new, s.Resent beam s₁ again ∧ sent = again ++ new ∧
    (s₁.Alike s' ∧ new = [] ∨ ∃ a, s₁.Opened r beam d s' a ∧ new = [a])

theorem Resent.sound (hs : s.Sound config r d) (h : s.Resent beam s' sent) :
    s'.Sound config r d where
  groups := h.groups ▸ hs.groups
  uplink hd who := by
    rw [h.groups]
    exact hs.uplink hd who
  harq := h.harq ▸ hs.harq
  capacity := h.harq ▸ hs.capacity
  bound id p hp hh := by
    rw [h.harq] at hp
    have hsome := hs.bound id p hp hh
    obtain ⟨E, -, hE⟩ := h.blocks
    rcases hE id with ⟨hnone, -⟩ | ⟨b, b', -, hb', -⟩
    · rw [hnone] at hsome
      cases hsome
    · rw [hb']
      rfl
  block id b' hb' := by
    obtain ⟨E, -, hE⟩ := h.blocks
    rw [h.harq]
    rcases hE id with ⟨-, hnone⟩ | ⟨b, b₁, hb, hb₁, hagain⟩
    · rw [hnone] at hb'
      cases hb'
    · rw [hb₁, Option.some.injEq] at hb'
      subst hb'
      obtain ⟨hsound, hstored⟩ := hs.block id b hb
      rcases hagain with ⟨rfl, -⟩ | ⟨hlost, sym, n, hn, rfl, -⟩
      · exact ⟨hsound, hstored⟩
      · have hlimit := hsound.retry hlost
        refine ⟨?_, hstored⟩
        exact
          { rnti := hsound.rnti
            direction := hsound.direction
            process := hsound.process
            size_ne := hsound.size_ne
            inBand := ⟨hsound.inBand.rbg_pos, hsound.inBand.sym_pos, hsound.inBand.rbg_le⟩
            sent := by simp only; omega
            limit := by simp only; omega
            retry := fun h => by cases h }

/-- Starting a block, seen from the two stores: the process was empty and holds what the channels
gave. -/
structure Started (r : Rnti) (s s' : LinkState) (a : Assignment) (pdus : List Pdu) : Prop where
  filled : Groups.Filled s.groups a.blockSize pdus s'.groups
  free : s.harq.free = a.process :: s'.harq.free
  empty : s.harq.process? a.process = some .empty
  process? : ∀ id, s'.harq.process? id = if id = a.process then
    some (Process.addAll Pdu.channel ⟨some r, ∅, []⟩ pdus) else s.harq.process? id
  wellFormed : s'.harq.WellFormed
  capacity : s'.harq.capacity = s.harq.capacity
  payload : Payload a.blockSize pdus

theorem Opened.started (hg : s.groups.WellFormed) (hh : s.harq.WellFormed) {a : Assignment}
    (h : s.Opened r beam d s' a) : ∃ pdus, s.Started r s' a pdus := by
  obtain ⟨harq, pdus, hassign, hfill, hharq⟩ := h.stored
  have hfilled := Groups.filled_of_fill hg hfill
  have hnodup := hfilled.channels_nodup hg
  have hproc := HarqTable.process?_assign hh hassign a.process
  rw [if_pos rfl] at hproc
  obtain ⟨n, hn, hwaiting⟩ := h.waiting
  have hbytes : s.groups.bytes ≠ 0 := by
    rw [← Groups.total_ok_iff.mp hn]
    exact (Word.toNat_pos hwaiting).ne'
  refine ⟨pdus, hfilled, ?_, HarqTable.process?_assigned hh hassign, fun id => ?_, ?_, ?_,
    hfilled.nonempty h.size_ne hbytes, hnodup, hfilled.size_ne, ?_⟩
  · rw [HarqTable.free_of_assign hassign, hharq, HarqTable.free_put]
  · rw [hharq, HarqTable.process?_put hproc, HarqTable.process?_assign hh hassign]
    split <;> rfl
  · rw [hharq]
    exact HarqTable.wellFormed_put (HarqTable.wellFormed_assign hh hassign) hproc rfl (by simp)
      (Process.paired_addAll rfl hnodup fun x _ => List.not_mem_nil)
  · rw [hharq, HarqTable.capacity_put, HarqTable.capacity_of_assign hassign]
  · have hsum := hfilled.sum
    omega

theorem Opened.sound (hs : s.Sound config r d) {a : Assignment} (h : s.Opened r beam d s' a)
    (hband : a.InBand config.groups) (hmax : 1 ≤ config.maxTransmissions.toNat) :
    s'.Sound config r d := by
  obtain ⟨pdus, hstarted⟩ := h.started hs.groups hs.harq
  refine ⟨hstarted.filled.wellFormed, fun hd who hwho => ?_, hstarted.wellFormed,
    hstarted.capacity.trans hs.capacity, fun id p hp hh => ?_, fun id b hb => ?_⟩
  · rw [hstarted.filled.exists_channel] at hwho
    exact hs.uplink hd who hwho
  · rw [h.inFlight, Table.get?_insert_if]
    rw [hstarted.process?] at hp
    split
    · rfl
    · next hid =>
      rw [if_neg hid] at hp
      exact hs.bound id p hp hh
  · rw [h.inFlight, Table.get?_insert_if] at hb
    rw [hstarted.process?]
    split at hb
    · next hid =>
      cases hb
      subst hid
      refine ⟨?_, _, if_pos rfl, by simp, by simpa using hstarted.payload⟩
      exact
        { rnti := h.rnti
          direction := h.direction
          process := rfl
          size_ne := h.size_ne
          inBand := hband
          sent := Nat.le_refl 1
          limit := hmax
          retry := fun h => by cases h }
    · next hid =>
      rw [if_neg hid]
      exact hs.block id b hb

theorem Turn.sound (hs : s.Sound config r d) (h : s.Turn r beam d s' sent)
    (hband : ∀ a ∈ sent, a.InBand config.groups) (hmax : 1 ≤ config.maxTransmissions.toNat) :
    s'.Sound config r d := by
  obtain ⟨s₁, again, new, hresent, rfl, ⟨halike, -⟩ | ⟨a, hopened, rfl⟩⟩ := h
  · exact hresent.sound hs |>.congr halike.groups halike.harq halike.inFlight
  · exact hopened.sound (hresent.sound hs) (hband a (by simp)) hmax

end LinkState

end Airtime
