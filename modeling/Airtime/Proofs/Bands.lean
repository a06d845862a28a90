import Airtime.Proofs.Need
import Airtime.Proofs.Shares

/-! What the users of a beam need. All symbols go to beams as soon as anybody has bytes to send. In a beam
a unit is a group over all symbols of the beam, and groups go to those who need them as symbols over the
whole band do. -/

namespace Airtime

def Contender.groups (d : Direction) (symbols : UInt32) (c : Contender) : Nat :=
  (c.user.link d).rbg.toNat / symbols.toNat

def Resources.band (symbols : UInt32) (n : Nat) : Resources :=
  ⟨.ofNat (n * symbols.toNat), if n = 0 then 0 else symbols⟩

theorem measures_grantGroup {symbols : UInt32} (h0 : symbols ≠ 0) : (grantGroup symbols).Measures
    (fun r => symbols.toNat ∣ r.rbg.toNat ∧ r.sym = if r.rbg = 0 then 0 else symbols)
    (fun r => r.rbg.toNat / symbols.toNat) where
  granted {r r'} hr h := by
    obtain ⟨⟨hwhole, hsym⟩, hmore⟩ := (counts_grantGroup h0).granted
      ⟨hr.1, fun hne => by rw [hr.2, if_neg hne]⟩ h
    have hne : r'.rbg ≠ 0 := by
      intro hzero
      rw [hzero, UInt32.toNat_zero, Nat.zero_div] at hmore
      exact Nat.succ_ne_zero _ hmore.symm
    exact ⟨⟨hwhole, by rw [hsym hne, if_neg hne]⟩, hmore⟩
  rbg_eq {r r'} hr hr' hsame := by
    refine UInt32.toNat_inj.mp ?_
    rw [← Nat.div_mul_cancel hr.1, ← Nat.div_mul_cancel hr'.1, hsame]

theorem scale_band {symbols : UInt32} (h0 : symbols ≠ 0) : Resources.Scale (.band symbols)
    (fun r => symbols.toNat ∣ r.rbg.toNat ∧ r.sym = if r.rbg = 0 then 0 else symbols)
    (fun r => r.rbg.toNat / symbols.toNat) where
  all {r} hr := by
    have hnone : r.rbg.toNat / symbols.toNat = 0 ↔ r.rbg = 0 := by
      rw [← UInt32.toNat_inj, ← Nat.div_mul_cancel hr.1, Nat.mul_div_cancel _ (Word.toNat_pos h0),
        UInt32.toNat_zero, Nat.mul_eq_zero, or_iff_left (Word.toNat_pos h0).ne']
    rw [Resources.band, Nat.div_mul_cancel hr.1, UInt32.ofNat_toNat, if_congr hnone rfl rfl, ← hr.2]
  fewer {r n} hr hn := by
    -- Fewer groups than a word of units are a word of units.
    have hword : (UInt32.ofNat (n * symbols.toNat)).toNat = n * symbols.toNat := by
      refine UInt32.toNat_ofNat_of_lt' ((Nat.mul_le_mul_right _ hn.le).trans_lt ?_)
      rw [Nat.div_mul_cancel hr.1]
      exact UInt32.toNat_lt _
    refine ⟨⟨Dvd.intro_left n hword.symm, if_congr ?_ rfl rfl⟩, ?_⟩
    · rw [Resources.band, ← UInt32.toNat_inj, hword, UInt32.toNat_zero, Nat.mul_eq_zero,
        or_iff_left (Word.toNat_pos h0).ne']
    · rw [Resources.band, hword, Nat.mul_div_cancel _ (Word.toNat_pos h0)]

/-- What the contenders of a beam hold after the allocation, with `symbols` symbols for the beam and
`groups` groups in the band. -/
structure Banded (k : Contest) (symbols groups : UInt32) (cs : List Contender) : Prop where
  /-- Whole groups, and all symbols of the beam as soon as there is one. -/
  whole : ∀ c ∈ cs, (c.user.link k.direction).rbg.toNat =
      c.groups k.direction symbols * symbols.toNat ∧
    (c.user.link k.direction).sym = if c.groups k.direction symbols = 0 then 0 else symbols
  idle : symbols = 0 → ∀ c ∈ cs,
    (c.user.link k.direction).rbg = 0 ∧ (c.user.link k.direction).sym = 0
  fits : (cs.map (·.groups k.direction symbols)).sum ≤ groups.toNat
  spent : symbols ≠ 0 → (cs.map (·.groups k.direction symbols)).sum < groups.toNat →
    ∀ c ∈ cs, k.wants c = .ok false
  needed : ∀ c ∈ cs, ∀ n < c.groups k.direction symbols,
    k.wants (c.holding k.direction (.band symbols n)) = .ok true

section Beam

variable {k : Contest} {p : Policy} {symbols groups : UInt32} {cs cs' : List Contender}

theorem banded_start (hstart : ∀ c ∈ cs, (c.user.link k.direction).rbg = 0 ∧
      (c.user.link k.direction).sym = 0) (hnothing : symbols = 0 ∨ groups = 0) :
    Banded k symbols groups cs := by
  have hgroups : ∀ c ∈ cs, c.groups k.direction symbols = 0 := fun c hc => by
    rw [Contender.groups, (hstart c hc).1, UInt32.toNat_zero, Nat.zero_div]
  refine ⟨fun c hc => ?_, fun _ => hstart, ?_, fun hsymbols hlt => ?_, fun c hc n hn => ?_⟩
  · rw [hgroups c hc, (hstart c hc).1, (hstart c hc).2]
    simp
  · rw [List.map_congr_left hgroups]
    simp
  · rw [hnothing.resolve_left hsymbols] at hlt
    exact absurd hlt (Nat.not_lt_zero _)
  · rw [hgroups c hc] at hn
    exact absurd hn (Nat.not_lt_zero _)

theorem banded_assignBeam (hstart : ∀ c ∈ cs, (c.user.link k.direction).rbg = 0 ∧
      (c.user.link k.direction).sym = 0) (h : assignBeam k p symbols groups cs = .ok cs') :
    Banded k symbols groups cs' := by
  rcases assignBeam_cases h with ⟨hnothing, rfl⟩ | ⟨h0, -, _, _, hrun⟩
  · exact banded_start hstart hnothing
  have measures := measures_grantGroup h0
  have hpos := Word.toNat_pos h0
  have hempty : ∀ c ∈ cs, (symbols.toNat ∣ (c.user.link k.direction).resources.rbg.toNat ∧
      (c.user.link k.direction).resources.sym =
        if (c.user.link k.direction).resources.rbg = 0 then 0 else symbols) ∧
      (c.user.link k.direction).resources.rbg.toNat / symbols.toNat = 0 := by
    intro c hc
    simp [LinkState.resources, hstart c hc]
  obtain ⟨-, hshape, hfits⟩ := Contest.run_ok measures.toCounts hempty hrun
  obtain ⟨hneeded, -⟩ := Contest.needed_run measures hempty hrun
  obtain ⟨i, -, -, -, -, hsum, hcontent⟩ := Contest.run_keeps (I := fun _ _ _ => True)
    measures.toCounts hempty hrun (fun _ _ => trivial) fun _ _ _ _ => trivial
  have hwhole : ∀ c ∈ cs', (c.user.link k.direction).rbg.toNat =
      c.groups k.direction symbols * symbols.toNat := fun c hc =>
    (Nat.div_mul_cancel (hshape c hc).1).symm
  refine ⟨fun c hc => ⟨hwhole c hc, ?_⟩, fun hzero => absurd hzero h0, hfits,
    fun _ hlt => hcontent (hsum.symm.trans_lt hlt), fun c hc n hn => ?_⟩
  · have hnone : (c.user.link k.direction).rbg = 0 ↔ c.groups k.direction symbols = 0 := by
      rw [← UInt32.toNat_inj, hwhole c hc, UInt32.toNat_zero, Nat.mul_eq_zero,
        or_iff_left hpos.ne']
    exact (hshape c hc).2.trans (if_congr hnone rfl rfl)
  · obtain ⟨hshape, hgroups⟩ := (scale_band h0).fewer (hshape c hc) hn
    exact hneeded c hc (.band symbols n) hshape (hgroups.trans_lt hn)

end Beam

/-- What an allocation of `symbols` symbols and `groups` groups gives, beam by beam. -/
structure ServedByBeam (k : Contest) (symbols groups : UInt32) (active active' : Contenders)
    (split : BeamSymbols) : Prop where
  allotted : active.Allotted k.direction active'
  spent : (∃ c ∈ active.flat, c.backlog ≠ 0) → split.sum = symbols.toNat
  beams : ∀ e ∈ active'.entries, Banded k (split.of e.1) groups e.2

section Split

variable {link : LinkModel} {blocksPerGroup symbols groups : UInt32} {p : Policy}
  {active active' : Contenders} {split : BeamSymbols}

theorem sum_splitSymbols (h : splitSymbols symbols active = .ok split) {c : Contender}
    (hc : c ∈ active.flat) (hbacklog : c.backlog ≠ 0) : split.sum = symbols.toNat := by
  obtain ⟨weights, happortion, hweights⟩ := splitSymbols_cases h
  have hnames : weights.map Prod.fst = active.keys :=
    map_eq_of_forall₂ hweights fun e w hw => hw.1
  have hall : allWeights weights = active.demand := by
    rw [active.demand_eq]
    exact congrArg List.sum (map_eq_of_forall₂ hweights fun e w hw => hw.2)
  refine (apportioned_of_apportion (hnames ▸ active.keys_nodup) happortion).spent ?_
  rw [hall]
  have hle : c.backlog.toNat ≤ active.demand := le_sum_map (fun c => c.backlog.toNat) hc
  have hpos := Word.toNat_pos hbacklog
  omega

/-- Groups go to those who need them: the symbols are split among the beams, and each contender gets as
many groups of its beam as satisfy it and no more, unless they run out, whatever the policy and the link
model are. That holds of every allocation that stays in range, and on a small grid each one does. -/
theorem groups_go_to_the_needy (hstart : ∀ c ∈ active.flat, (c.user.link .downlink).rbg = 0 ∧
      (c.user.link .downlink).sym = 0) :
    (symbols.toNat * groups.toNat < UInt32.size →
      symbols.toNat * groups.toNat * blocksPerGroup.toNat < UInt32.size →
      active.demand < UInt64.size →
      (∀ e ∈ active.entries,
        symbols.toNat * (e.2.map fun c => c.backlog.toNat).sum < UInt64.size) →
      Succeeds (assignOfdma link blocksPerGroup p symbols groups active)) ∧
    ∀ split active',
      assignOfdma link blocksPerGroup p symbols groups active = .ok (split, active') →
        ServedByBeam ⟨.downlink, link, blocksPerGroup⟩ symbols groups active active' split := by
  have hempty := fun c hc => (hstart c hc).1
  refine ⟨fun hunits hgrid => succeeds_assignOfdma hunits hgrid hempty, fun split active' h => ?_⟩
  obtain ⟨hsplit, hbeams⟩ := assignOfdma_cases h
  refine ⟨(assignOfdma_ok hempty h).1, fun ⟨c, hc, hbacklog⟩ => sum_splitSymbols hsplit hc hbacklog,
    fun e' he' => ?_⟩
  obtain ⟨e, he, hkey, hassign⟩ := exists_left_of_forall₂ hbeams he'
  rw [hkey]
  exact banded_assignBeam (fun c hc => hstart c (Contenders.mem_flat.mpr ⟨e, he, hc⟩)) hassign

end Split

def fourContenders : Contenders :=
  .ofList [⟨.fresh ⟨1⟩ ⟨0⟩ 8 10 10, 30⟩, ⟨.fresh ⟨2⟩ ⟨0⟩ 8 5 5, 10⟩, ⟨.fresh ⟨3⟩ ⟨3⟩ 8 5 5, 100⟩,
    ⟨.fresh ⟨4⟩ ⟨5⟩ 8 5 5, 0⟩]

/-- The first beam gets two of seven symbols and has a group left when its users are content; the second
one gets five and needs all four groups; the third one gets none. -/
theorem groups_go_to_the_needy_sample : ∃ split active',
    assignOfdma (.proportional 28) 1 .maxRate 7 4 fourContenders = .ok (split, active') ∧
      ServedByBeam ⟨.downlink, .proportional 28, 1⟩ 7 4 fourContenders active' split ∧
      split.entries = [(⟨0⟩, 2), (⟨3⟩, 5), (⟨5⟩, 0)] ∧
      active'.flat.map (fun c => c.user.downlink.rbg) = [4, 2, 20, 0] := by
  obtain ⟨hsucceeds, hserved⟩ :=
    @groups_go_to_the_needy (.proportional 28) 1 7 4 .maxRate fourContenders (by decide)
  obtain ⟨⟨split, active'⟩, h⟩ := hsucceeds (by decide) (by decide) (by decide) (by decide)
  have hrun : (assignOfdma (.proportional 28) 1 .maxRate 7 4 fourContenders).toOption.any (fun r =>
      decide (r.1.entries = [(⟨0⟩, 2), (⟨3⟩, 5), (⟨5⟩, 0)]) &&
        decide (r.2.flat.map (fun c => c.user.downlink.rbg) = [4, 2, 20, 0])) = true := by
    cbv
  rw [h] at hrun
  exact ⟨split, active', h, hserved split active' h, by simpa [Except.toOption] using hrun⟩

end Airtime
