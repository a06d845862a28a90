import Airtime.Proofs.AllocationRange
import Airtime.Proofs.Tally
import Mathlib

/-! What contenders need. A unit goes to somebody who is not satisfied yet, so nobody would have been
satisfied with fewer units than it ends with; and units are left only when everybody is satisfied. The
order of a round makes no difference to that, nor does the way in which bytes grow with units. -/

namespace Airtime

namespace Contender

def holding (d : Direction) (c : Contender) (r : Resources) : Contender :=
  c.modify d ({ · with rbg := r.rbg, sym := r.sym })

theorem holding_self (d : Direction) (c : Contender) : c.holding d (c.user.link d).resources = c :=
  modify_self d c

end Contender

structure Grantor.Measures (grant : Grantor) (shape : Resources → Prop) (units : Resources → Nat) :
    Prop extends grant.Counts shape units where
  rbg_eq : ∀ {r r'}, shape r → shape r' → units r = units r' → r.rbg = r'.rbg

/-- `held n` are the resources of `n` units. -/
structure Resources.Scale (held : Nat → Resources) (shape : Resources → Prop)
    (units : Resources → Nat) : Prop where
  all : ∀ {r}, shape r → held (units r) = r
  fewer : ∀ {r n}, shape r → n < units r → shape (held n) ∧ units (held n) = n

namespace Contest

variable {k : Contest} {p : Policy} {grant : Grantor} {shape : Resources → Prop}
  {units : Resources → Nat} {start : List Contender} {n : Nat} {c c' : Contender}

theorem wants_holding {r r' : Resources} (h : c.Allotted k.direction c') (hr : r.rbg = r'.rbg) :
    k.wants (c'.holding k.direction r') = k.wants (c.holding k.direction r) := by
  obtain ⟨_, _, _, rfl⟩ := h
  simp only [wants, achievable, LinkState.achievable, Contender.holding, Contender.allot,
    Contender.modify, User.modify, User.link_setLink, hr]

/-- The contender was not satisfied with fewer units. -/
def Needed (k : Contest) (shape : Resources → Prop) (units : Resources → Nat) (c : Contender) : Prop :=
  ∀ r, shape r → units r < units (c.user.link k.direction).resources →
    k.wants (c.holding k.direction r) = .ok true

theorem Needed.noted (h : k.Needed shape units c) (hnoted : c.Noted k.direction c') :
    k.Needed shape units c' := by
  intro r hr hlt
  rw [hnoted.resources] at hlt
  rw [wants_holding hnoted.allotted rfl]
  exact h r hr hlt

theorem Needed.won (measures : grant.Measures shape units) (h : k.Needed shape units c)
    (hshape : shape (c.user.link k.direction).resources) (hwants : k.wants c = .ok true)
    (hallotted : c.Allotted k.direction c')
    (hgrant : grant (c.user.link k.direction).resources = .ok (c'.user.link k.direction).resources) :
    k.Needed shape units c' := by
  intro r hr hlt
  rw [(measures.granted hshape hgrant).2] at hlt
  rcases Nat.lt_succ_iff_lt_or_eq.mp hlt with hfewer | hsame
  · rw [wants_holding hallotted rfl]
    exact h r hr hfewer
  · rw [wants_holding hallotted (measures.rbg_eq hshape hr hsame.symm), Contender.holding_self]
    exact hwants

theorem needed_round (measures : grant.Measures shape units) {total total' : Resources}
    {cs cs' : List Seat} {beam : BeamId} (hcs : k.Seated shape units start n cs)
    (hneeded : ∀ x ∈ cs, k.Needed shape units x.1)
    (h : k.round p grant total cs = .ok (some (beam, total', cs'))) :
    ∀ x ∈ cs', k.Needed shape units x.1 := by
  obtain ⟨content, winner, place, others, others', s, w, hrank, -, hwants, rfl, -, -, hs, hw,
    hothers⟩ := round_cases h
  have hcs := hcs.perm (perm_rank k p cs)
  have hneeded : ∀ x ∈ k.rank p cs, k.Needed shape units x.1 := fun x hx =>
    hneeded x ((perm_rank k p cs).mem_iff.mp hx)
  rw [hrank] at hcs hneeded
  obtain ⟨hallotted, hgrant⟩ := Grantor.won hs hw
  intro x' hx'
  rcases List.mem_append.mp hx' with hcontent | hrest
  · exact hneeded x' (List.mem_append_left _ hcontent)
  rcases List.mem_cons.mp hrest with rfl | hother
  · exact (hneeded (winner, place) (by simp)).won measures (hcs.shaped (winner, place) (by simp)) hwants
      hallotted hgrant
  · obtain ⟨x, hx, -, wants, -, hmissed⟩ := exists_left_of_forall₂ hothers hother
    exact (hneeded x (by simp [hx])).noted (Policy.noted_of_missed hmissed)

/-- A whole allocation: nobody gets more than it needs, and as long as somebody needs a unit, one is
granted in each round. -/
theorem needed_run (measures : grant.Measures shape units) {assignable : Resources} {m : UInt32}
    {cs cs' : List Contender} {won : BeamSymbols}
    (hcs : ∀ c ∈ cs, shape (c.user.link k.direction).resources ∧
      units (c.user.link k.direction).resources = 0)
    (h : k.run p grant assignable m cs = .ok (cs', won)) :
    (∀ c ∈ cs', k.Needed shape units c) ∧
      (won.sum < m.toNat → ∀ c ∈ cs', k.wants c = .ok false) := by
  have hstart : ∀ ready : List Contender,
      (∀ c ∈ ready, units (c.user.link k.direction).resources = 0) →
      BeamSymbols.sum ∅ = 0 ∧ ∀ x ∈ ready.zipIdx, k.Needed shape units x.1 := by
    intro ready hready
    refine ⟨rfl, fun x hx r _ hlt => ?_⟩
    rw [hready x.1 (List.fst_mem_of_mem_zipIdx hx)] at hlt
    exact absurd hlt (Nat.not_lt_zero _)
  obtain ⟨i, seats, -, ⟨rfl, hneeded⟩, hperm, -, hcontent⟩ := run_keeps
    (I := fun i seats won => won.sum = i ∧ ∀ x ∈ seats, k.Needed shape units x.1) measures.toCounts hcs
    h hstart fun hseated hI hr hgive =>
      ⟨by rw [BeamSymbols.sum_give hgive, hI.1]; rfl, needed_round measures hseated hI.2 hr⟩
  refine ⟨fun c hc => ?_, hcontent⟩
  obtain ⟨x, hx, rfl⟩ := List.mem_map.mp (hperm.mem_iff.mp hc)
  exact hneeded x hx

end Contest

theorem measures_grantSymbol (groups : UInt32) : (grantSymbol groups).Measures
    (fun r => r.rbg.toNat = r.sym.toNat * groups.toNat) (fun r => r.sym.toNat) where
  toCounts := counts_grantSymbol groups
  rbg_eq {r r'} hr hr' hsame := UInt32.toNat_inj.mp (by rw [hr, hr', hsame])

/-- What an allocation of symbols over the whole band gives. -/
structure Served (k : Contest) (symbols groups : UInt32) (active active' : Contenders)
    (split : BeamSymbols) : Prop where
  allotted : active.Allotted k.direction active'
  band : ∀ c ∈ active'.flat, (c.user.link k.direction).rbg.toNat =
    (c.user.link k.direction).sym.toNat * groups.toNat
  tallied : Tallied k.direction (·.sym.toNat) active'.flat split
  fits : split.sum ≤ symbols.toNat
  spent : split.sum < symbols.toNat → ∀ c ∈ active'.flat, k.wants c = .ok false
  needed : ∀ c ∈ active'.flat, ∀ n < (c.user.link k.direction).sym,
    k.wants (c.holding k.direction ⟨n * groups, n⟩) = .ok true
  least : ∀ c ∈ active'.flat, k.wants c = .ok false →
    IsLeast {n | k.wants (c.holding k.direction ⟨n * groups, n⟩) = .ok false}
      (c.user.link k.direction).sym

section Grid

variable {k : Contest} {p : Policy} {symbols groups : UInt32} {active active' : Contenders}
  {split : BeamSymbols}

theorem needed_assignTdma (hgroups : groups ≠ 0)
    (hstart : ∀ c ∈ active.flat, (c.user.link k.direction).rbg = 0 ∧
      (c.user.link k.direction).sym = 0)
    (h : assignTdma k p symbols groups active = .ok (split, active')) :
    (∀ c ∈ active'.flat, k.Needed (fun r => r.rbg.toNat = r.sym.toNat * groups.toNat)
        (fun r => r.sym.toNat) c) ∧
      (split.sum < symbols.toNat → ∀ c ∈ active'.flat, k.wants c = .ok false) := by
  have hzero := band_start hstart groups
  rcases assignTdma_cases h with ⟨hnothing, rfl, rfl⟩ | ⟨-, _, cs, hrun, rfl⟩
  · constructor
    · intro c hc r _ hlt
      simp [LinkState.resources, (hzero c hc).2] at hlt
    · intro hlt c hc
      obtain hempty | rfl | h0 := hnothing
      · simp [hempty] at hc
      · exact absurd hlt (Nat.not_lt_zero _)
      · exact absurd h0 hgroups
  · obtain ⟨hallotted, -, -⟩ := Contest.run_ok (counts_grantSymbol groups) hzero hrun
    rw [(Contenders.refill_ok hallotted).2]
    exact Contest.needed_run (measures_grantSymbol groups) hzero hrun

/-- Symbols over the whole band go to those who need them: each contender gets as many as satisfy it and
no more, unless they run out, whatever the policy and the link model are. -/
theorem symbols_go_to_the_needy (hgroups : groups ≠ 0)
    (hunits : symbols.toNat * groups.toNat < UInt32.size)
    (hgrid : symbols.toNat * groups.toNat * k.blocksPerGroup.toNat < UInt32.size)
    (hstart : ∀ c ∈ active.flat, (c.user.link k.direction).rbg = 0 ∧
      (c.user.link k.direction).sym = 0) :
    ∃ split active', assignTdma k p symbols groups active = .ok (split, active') ∧
      Served k symbols groups active active' split := by
  obtain ⟨⟨split, active'⟩, h⟩ := succeeds_assignTdma (p := p) hunits hgrid hstart
  obtain ⟨hallotted, hband, hsum⟩ := assignTdma_ok hstart h
  obtain ⟨hneeded, hspent⟩ := needed_assignTdma hgroups hstart h
  have hfits := sum_split_assignTdma h
  have hfewer : ∀ c ∈ active'.flat, ∀ n < (c.user.link k.direction).sym,
      k.wants (c.holding k.direction ⟨n * groups, n⟩) = .ok true := by
    intro c hc n hn
    refine hneeded c hc ⟨n * groups, n⟩ ?_ hn
    have hsym := (le_sum_map (fun c : Contender => (c.user.link k.direction).sym.toNat) hc).trans hsum
    have hle : n.toNat ≤ symbols.toNat := (UInt32.lt_iff_toNat_lt.mp hn).le.trans hsym
    exact (UInt32.toNat_mul n groups).trans
      (Nat.mod_eq_of_lt ((Nat.mul_le_mul_right _ hle).trans_lt hunits))
  refine ⟨split, active', h, hallotted, hband, won_assignTdma hstart h, hfits, hspent, hfewer, ?_⟩
  intro c hc hcontent
  constructor
  · have hself : (⟨(c.user.link k.direction).sym * groups, (c.user.link k.direction).sym⟩ : Resources) =
        (c.user.link k.direction).resources := by
      rw [LinkState.resources, Resources.mk.injEq]
      refine ⟨UInt32.toNat_inj.mp ?_, rfl⟩
      rw [hband c hc, UInt32.toNat_mul, Nat.mod_eq_of_lt]
      exact hband c hc ▸ UInt32.toNat_lt _
    rw [Set.mem_ofPred_eq, hself, Contender.holding_self]
    exact hcontent
  · intro n hn
    by_contra hlt
    cases (hfewer c hc n (UInt32.not_le.mp hlt)).symm.trans hn

end Grid

def twoContenders : Contenders :=
  .ofList [⟨.fresh ⟨1⟩ ⟨0⟩ 8 10 10, 30⟩, ⟨.fresh ⟨2⟩ ⟨1⟩ 8 5 5, 100⟩]

/-- A symbol carries 20 bytes of the first user, which is content with two of them, and 10 bytes of the
second one, which gets all the others. -/
theorem symbols_go_to_the_needy_sample : ∃ split active',
    assignTdma ⟨.downlink, .proportional 28, 1⟩ .roundRobin 7 2 twoContenders = .ok (split, active') ∧
      Served ⟨.downlink, .proportional 28, 1⟩ 7 2 twoContenders active' split ∧
      split.entries = [(⟨0⟩, 2), (⟨1⟩, 5)] := by
  have hstart : ∀ c ∈ twoContenders.flat, (c.user.link .downlink).rbg = 0 ∧
      (c.user.link .downlink).sym = 0 := by
    intro c hc
    rw [twoContenders, (Contenders.flat_ofList _).mem_iff] at hc
    obtain rfl | rfl : _ ∨ _ := by simpa using hc
    · exact ⟨rfl, rfl⟩
    · exact ⟨rfl, rfl⟩
  obtain ⟨split, active', h, hserved⟩ := @symbols_go_to_the_needy
    ⟨.downlink, .proportional 28, 1⟩ .roundRobin 7 2 twoContenders (by decide) (by decide) (by decide)
    hstart
  refine ⟨split, active', h, hserved, ?_⟩
  have hrun : (assignTdma ⟨.downlink, .proportional 28, 1⟩ .roundRobin 7 2 twoContenders).toOption.any
      (·.1.entries = [(⟨0⟩, 2), (⟨1⟩, 5)]) = true := by
    cbv
  rw [h] at hrun
  simpa [Except.toOption] using hrun

end Airtime
