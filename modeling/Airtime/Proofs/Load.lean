import Airtime.Proofs.ChannelMaps
import Airtime.Proofs.Ledger
import Mathlib.Algebra.Order.BigOperators.Group.Finset
import Mathlib.Data.FinEnum

/-! The data that the blocks of a user carry on their way. A new block adds what its channels gave to it,
which is less than its size if they had no more; sending it again adds nothing, and its last answer
takes its data off. -/

namespace Airtime

/-- Bytes of data in a block. -/
def dataIn (pdus : List Pdu) : Nat := (pdus.map fun p => p.size.toNat).sum

def loadOf (x : Option (Block × List Pdu)) : Nat := (x.map fun y => dataIn y.2).getD 0

@[simp] theorem loadOf_none : loadOf none = 0 := rfl

@[simp] theorem loadOf_some (b : Block) (pdus : List Pdu) : loadOf (some (b, pdus)) = dataIn pdus := rfl

namespace LinkState

variable {config : CellConfig} {r : Rnti} {d : Direction} {beam : BeamId} {s s' : LinkState}
  {sent : List Assignment}

theorem Resent.load (hs : s.Sound config r d) (h : s.Resent beam s' sent) (id : ProcessId) :
    loadOf (s'.held? r id) = loadOf (s.held? r id) := by
  rcases h.held hs id with ⟨hnone, hnone', -⟩ | ⟨b, b', pdus, hb, hb', -⟩
  · rw [hnone, hnone']
  · rw [hb, hb', loadOf_some, loadOf_some]

theorem dataIn_le (hs : s.Sound config r d) {id : ProcessId} {b : Block} {pdus : List Pdu}
    (h : s.held? r id = some (b, pdus)) : dataIn pdus ≤ b.assignment.blockSize.toNat := by
  obtain ⟨hb, hpdus⟩ := payload?_of_held h
  obtain ⟨-, p, hp, hk, hpayload⟩ := hs.block id b hb
  rw [payload?, HarqTable.packets_of_held hp hk] at hpdus
  cases hpdus
  exact hpayload.fits

/-- A turn starts no block and leaves channels and data alone, or it starts one, which is filled from the
channels. -/
theorem Turn.load (hs : s.Sound config r d) (h : s.Turn r beam d s' sent) :
    sent.filter (·.newData) = [] ∧ s'.groups = s.groups ∧
        (∀ id, loadOf (s'.held? r id) = loadOf (s.held? r id)) ∨
      ∃ a pdus, sent.filter (·.newData) = [a] ∧ s.groups.Filled a.blockSize pdus s'.groups ∧
        loadOf (s.held? r a.process) = 0 ∧ loadOf (s'.held? r a.process) = dataIn pdus ∧
        ∀ id, id ≠ a.process → loadOf (s'.held? r id) = loadOf (s.held? r id) := by
  obtain ⟨s₁, again, new, hresent, rfl, hnew⟩ := h
  have hagain : again.filter (·.newData) = [] :=
    List.filter_eq_nil_iff.mpr fun a ha => by simp [hresent.newData a ha]
  rw [List.filter_append, hagain, List.nil_append]
  rcases hnew with ⟨halike, rfl⟩ | ⟨a, hopened, rfl⟩
  · refine .inl ⟨rfl, halike.groups.trans hresent.groups, fun id => ?_⟩
    have hsame : s'.held? r id = s₁.held? r id :=
      held?_congr (by rw [halike.inFlight]) (by rw [halike.harq])
    rw [hsame, hresent.load hs]
  · have hs₁ := hresent.sound hs
    obtain ⟨pdus, hstarted, hheld⟩ := hopened.stores hs₁
    obtain ⟨-, hnone, -, hother⟩ := hopened.held hs₁
    refine .inr ⟨a, pdus, by simp [hopened.newData], hresent.groups ▸ hstarted.filled, ?_, ?_,
      fun id hid => ?_⟩
    · rw [← hresent.load hs, hnone, loadOf_none]
    · rw [hheld, loadOf_some]
    · rw [hother id hid, hresent.load hs]

end LinkState

theorem sum_add_of_eq_off {ι : Type} [Fintype ι] [DecidableEq ι] {f g : ι → Nat} (i : ι)
    (h : ∀ j, j ≠ i → g j = f j) : (∑ j, g j) + f i = (∑ j, f j) + g i := by
  have hrest : ∑ j ∈ Finset.univ.erase i, g j = ∑ j ∈ Finset.univ.erase i, f j :=
    Finset.sum_congr rfl fun j hj => h j (Finset.ne_of_mem_erase hj)
  rw [← Finset.add_sum_erase _ f (Finset.mem_univ i), ← Finset.add_sum_erase _ g (Finset.mem_univ i),
    hrest]
  omega

/-- An answer, with the data that its block carried. -/
structure Receipt where
  answer : Answer
  data : List Pdu
  deriving DecidableEq, Repr

namespace Receipt

variable {max : UInt8} {l l' : List Receipt}

def size (x : Receipt) : Nat := dataIn x.data

def concerns (r : Rnti) (d : Direction) (x : Receipt) : Bool :=
  x.answer.feedback.rnti = r && x.answer.feedback.direction = d

/-- The data of the blocks that were answered for the last time. -/
def settled (max : UInt8) (l : List Receipt) : Nat := ((l.filter (·.answer.last max)).map size).sum

theorem concerns_iff {r : Rnti} {d : Direction} {x : Receipt} : x.concerns r d = true ↔
    x.answer.feedback.rnti = r ∧ x.answer.feedback.direction = d := by
  simp [concerns]

theorem settled_nil : settled max [] = 0 := rfl

theorem settled_singleton (x : Receipt) :
    settled max [x] = if x.answer.last max then x.size else 0 := by
  rw [settled, List.filter_singleton]
  cases x.answer.last max <;> rfl

theorem settled_append (l l' : List Receipt) :
    settled max (l ++ l') = settled max l + settled max l' := by
  simp [settled]

end Receipt

def Feedback.receipt (f : Feedback) (x : Block × List Pdu) : Receipt := ⟨⟨f, x.1⟩, x.2⟩

theorem loadOf_reported (max : UInt8) (f : Feedback) (x : Option (Block × List Pdu)) :
    loadOf (x.bind (reported max f.success)) + Receipt.settled max (x.map f.receipt).toList =
      loadOf x := by
  cases x with
  | none => rfl
  | some x =>
    have hlast : (f.receipt x).answer.last max = true ↔
        ¬ (f.success = false ∧ x.1.transmissions.toNat < max.toNat) := by
      simp only [Feedback.receipt, Answer.last, Bool.or_eq_true, decide_eq_true_eq,
        UInt8.le_iff_toNat_le]
      cases f.success <;> simp
    rw [Option.bind_some, Option.map_some, Option.toList_some, Receipt.settled_singleton, reported]
    split
    · next hagain =>
      rw [if_neg fun h => hlast.mp h hagain, Nat.add_zero]
      rfl
    · next hdone =>
      rw [if_pos (hlast.mpr hdone), loadOf_none, Nat.zero_add]
      rfl

namespace Cell

variable {c c' : Cell} {r : Rnti} {d : Direction}

/-- The data on its way to or from a user, over all processes of a direction. -/
def carried (c : Cell) (r : Rnti) (d : Direction) : Nat := ∑ id, loadOf (c.held? ⟨r, d, id⟩)

theorem carried_congr (h : ∀ id, c'.held? ⟨r, d, id⟩ = c.held? ⟨r, d, id⟩) :
    c'.carried r d = c.carried r d :=
  Finset.sum_congr rfl fun id _ => by rw [h]

def receipt? (c : Cell) (f : Feedback) : Option Receipt := (c.held? f.ref).map f.receipt

/-- Feedback takes the data of its block off if it is the last answer to it. -/
theorem Sound.carried_feedback (hc : c.Sound) (f : Feedback) (r : Rnti) (d : Direction) :
    (c.feedback f).1.carried r d + Receipt.settled c.config.maxTransmissions
      ((c.receipt? f).toList.filter (·.concerns r d)) = c.carried r d := by
  by_cases hrd : f.rnti = r ∧ f.direction = d
  · obtain ⟨rfl, rfl⟩ := hrd
    have hall : (c.receipt? f).toList.filter (·.concerns f.rnti f.direction) =
        ((c.held? f.ref).map f.receipt).toList := by
      refine List.filter_eq_self.mpr fun x hx => ?_
      obtain ⟨y, -, rfl⟩ := Option.map_eq_some_iff.mp (Option.mem_toList.mp hx)
      exact Receipt.concerns_iff.mpr ⟨rfl, rfl⟩
    have hload := loadOf_reported c.config.maxTransmissions f (c.held? f.ref)
    have hhere := hc.held?_feedback f f.ref
    rw [if_pos ⟨rfl, rfl, rfl⟩] at hhere
    have hsum := sum_add_of_eq_off (f := fun id => loadOf (c.held? ⟨f.rnti, f.direction, id⟩))
      (g := fun id => loadOf ((c.feedback f).1.held? ⟨f.rnti, f.direction, id⟩)) f.process
      fun id hid => by rw [hc.held?_feedback, if_neg fun h => hid h.2.2.symm]
    rw [hall]
    rw [← hhere] at hload
    change (c.feedback f).1.carried f.rnti f.direction + loadOf (c.held? f.ref) =
      c.carried f.rnti f.direction + loadOf ((c.feedback f).1.held? f.ref) at hsum
    omega
  · have hnone : (c.receipt? f).toList.filter (·.concerns r d) = [] := by
      refine List.filter_eq_nil_iff.mpr fun x hx => ?_
      obtain ⟨y, -, rfl⟩ := Option.map_eq_some_iff.mp (Option.mem_toList.mp hx)
      exact fun hx => hrd (Receipt.concerns_iff.mp hx)
    rw [hnone, Receipt.settled_nil, Nat.add_zero]
    refine carried_congr fun id => ?_
    rw [hc.held?_feedback, if_neg fun h => hrd ⟨h.1, h.2.1⟩]

/-- A slot starts no block for a user in one direction and leaves channels and data alone, or it starts
one, which is filled from the channels. -/
theorem Sound.carried_of_slot (hc : c.Sound) {time : SlotTime} {slot : SlotAllocation}
    (h : c.scheduleSlot time = .ok (c', slot)) (r : Rnti) (d : Direction) :
    (slot.assignments d).filter (fun a => a.rnti = r && a.newData) = [] ∧
        c'.groupsOf r d = c.groupsOf r d ∧ c'.carried r d = c.carried r d ∨
      ∃ a pdus, (slot.assignments d).filter (fun a => a.rnti = r && a.newData) = [a] ∧
        (c.groupsOf r d).Filled a.blockSize pdus (c'.groupsOf r d) ∧
        c'.carried r d = c.carried r d + dataIn pdus := by
  have hfilter : (slot.assignments d).filter (fun a => a.rnti = r && a.newData) =
      ((slot.assignments d).filter (·.rnti = r)).filter (·.newData) := by
    simp [List.filter_filter, Bool.and_comm]
  rw [hfilter]
  rcases scheduleSlot_user hc h r with ⟨hnone, hnone', hempty⟩ | ⟨u, u', hu, hu', -, hturn⟩
  · have hheld : ∀ id, c'.held? ⟨r, d, id⟩ = c.held? ⟨r, d, id⟩ := fun id => by
      rw [held?, held?, hnone, hnone']
    rw [hempty d, groupsOf, groupsOf, hnone, hnone']
    exact .inl ⟨rfl, rfl, carried_congr hheld⟩
  · have hheld : ∀ id, c.held? ⟨r, d, id⟩ = (u.link d).held? r id := fun id => held?_of_user hu
    have hheld' : ∀ id, c'.held? ⟨r, d, id⟩ = (u'.link d).held? r id := fun id => held?_of_user hu'
    simp only [groupsOf_of_user hu, groupsOf_of_user hu', carried, hheld, hheld']
    rcases (hturn d).load ((hc.user r u hu).2 d) with
      ⟨hnew, hgroups, hsame⟩ | ⟨a, pdus, hnew, hfilled, hbefore, hafter, hother⟩
    · exact .inl ⟨hnew, hgroups, Finset.sum_congr rfl fun id _ => hsame id⟩
    · have hsum := sum_add_of_eq_off a.process hother
      exact .inr ⟨a, pdus, hnew, hfilled, by omega⟩

end Cell

end Airtime
