import Airtime.Proofs.Bands

/-! Fair turns. When those with the fewest units go first, a unit is won by a contender that has no more
units than any other that wants one. So whoever is left unsatisfied has at most one unit less than anybody
else, however many there are and whenever the units run out. -/

namespace Airtime

structure Grantor.Ordered (grant : Grantor) (shape : Resources → Prop) (units : Resources → Nat) :
    Prop extends grant.Counts shape units where
  units_le : ∀ {r r'}, shape r → shape r' → r.rbg ≤ r'.rbg → units r ≤ units r'

namespace Contest

variable {k : Contest} {grant : Grantor} {shape : Resources → Prop} {units : Resources → Nat}
  {start : List Contender} {n : Nat}

theorem wants_noted {c c' : Contender} (h : c.Noted k.direction c') : k.wants c' = k.wants c := by
  have hwants := wants_holding h.allotted (congrArg Resources.rbg h.resources.symm)
  rwa [Contender.holding_self, Contender.holding_self] at hwants

theorem pairwise_rank_roundRobin (k : Contest) (cs : List Seat) :
    (k.rank .roundRobin cs).Pairwise fun x y =>
      (x.1.user.link k.direction).rbg ≤ (y.1.user.link k.direction).rbg := by
  have hle : ∀ a b : Seat, (Policy.roundRobin.compare k.direction a.1 b.1 != .gt) = true ↔
      (a.1.user.link k.direction).rbg ≤ (b.1.user.link k.direction).rbg := fun a b => by
    rw [Policy.compare, bne_iff_ne, ne_eq, ← Ordering.isLE_iff_ne_gt, Std.isLE_compare]
  refine (List.pairwise_mergeSort (fun a b c hab hbc => ?_) (fun a b => ?_) cs).imp (hle _ _).mp
  · rw [hle] at *
    exact UInt32.le_trans hab hbc
  · rw [Bool.or_eq_true, hle, hle]
    exact UInt32.le_total _ _

/-- Nobody holds more than one unit more than a contender that wants another one. -/
def Even (k : Contest) (units : Resources → Nat) (cs : List Seat) : Prop :=
  ∀ x ∈ cs, k.wants x.1 = .ok true → ∀ y ∈ cs,
    units (y.1.user.link k.direction).resources ≤ units (x.1.user.link k.direction).resources + 1

theorem even_round (ordered : grant.Ordered shape units) {total total' : Resources}
    {cs cs' : List Seat} {beam : BeamId} (hcs : k.Seated shape units start n cs)
    (heven : k.Even units cs) (h : k.round .roundRobin grant total cs = .ok (some (beam, total', cs'))) :
    k.Even units cs' := by
  obtain ⟨content, winner, place, others, others', s, w, hrank, hcontent, hwants, rfl, -, -, hs, hw,
    hothers⟩ := round_cases h
  have hperm := perm_rank k .roundRobin cs
  have hsorted := pairwise_rank_roundRobin k cs
  have hcs := hcs.perm hperm
  have heven : k.Even units (k.rank .roundRobin cs) := fun x hx hwants y hy =>
    heven x (hperm.mem_iff.mp hx) hwants y (hperm.mem_iff.mp hy)
  rw [hrank] at hsorted hcs heven
  have hwinner : (winner, place) ∈ content ++ (winner, place) :: others := by simp
  obtain ⟨-, hgrant⟩ := Grantor.won hs hw
  obtain ⟨-, hmore⟩ := ordered.granted (hcs.shaped _ hwinner) hgrant
  have hnoted : ∀ x' ∈ others', ∃ x ∈ others, x.1.Noted k.direction x'.1 := by
    intro x' hx'
    obtain ⟨x, hx, -, _, -, hmissed⟩ := exists_left_of_forall₂ hothers hx'
    exact ⟨x, hx, Policy.noted_of_missed hmissed⟩
  -- Of those who want the unit, the winner has the fewest.
  have hfewest : ∀ x ∈ others, units (winner.user.link k.direction).resources ≤
      units (x.1.user.link k.direction).resources := fun x hx =>
    ordered.units_le (hcs.shaped _ hwinner) (hcs.shaped x (by simp [hx]))
      ((List.pairwise_cons.mp (List.pairwise_append.mp hsorted).2.1).1 x hx)
  have hbound : ∀ m, units (winner.user.link k.direction).resources ≤ m →
      (∀ y ∈ content ++ (winner, place) :: others,
        units (y.1.user.link k.direction).resources ≤ m + 1) →
      ∀ y ∈ content ++ (w, place) :: others', units (y.1.user.link k.direction).resources ≤ m + 1 := by
    intro m hm hall y hy
    rcases List.mem_append.mp hy with hy | hy
    · exact hall y (List.mem_append_left _ hy)
    rcases List.mem_cons.mp hy with rfl | hy
    · exact hmore.trans_le (Nat.succ_le_succ hm)
    · obtain ⟨x, hx, hnoted⟩ := hnoted y hy
      rw [hnoted.resources]
      exact hall x (by simp [hx])
  intro x' hx' hunsatisfied
  rcases List.mem_append.mp hx' with hx' | hx'
  · cases (hcontent x' hx').symm.trans hunsatisfied
  rcases List.mem_cons.mp hx' with rfl | hx'
  · refine hbound _ (hmore ▸ Nat.le_succ _) fun y hy => ?_
    rw [hmore]
    exact (heven _ hwinner hwants y hy).trans (Nat.le_succ _)
  · obtain ⟨x, hx, hnoted⟩ := hnoted x' hx'
    rw [wants_noted hnoted] at hunsatisfied
    rw [hnoted.resources]
    exact hbound _ (hfewest x hx) (heven x (by simp [hx]) hunsatisfied)

theorem even_run (ordered : grant.Ordered shape units) {assignable : Resources} {m : UInt32}
    {cs cs' : List Contender} {won : BeamSymbols}
    (hcs : ∀ c ∈ cs, shape (c.user.link k.direction).resources ∧
      units (c.user.link k.direction).resources = 0)
    (h : k.run .roundRobin grant assignable m cs = .ok (cs', won)) {c c' : Contender} (hc : c ∈ cs')
    (hwants : k.wants c = .ok true) (hc' : c' ∈ cs') :
    units (c'.user.link k.direction).resources ≤ units (c.user.link k.direction).resources + 1 := by
  have hstart : ∀ ready : List Contender,
      (∀ c ∈ ready, units (c.user.link k.direction).resources = 0) → k.Even units ready.zipIdx := by
    intro ready hready x _ _ y hy
    rw [hready y.1 (List.fst_mem_of_mem_zipIdx hy)]
    exact Nat.zero_le _
  obtain ⟨-, seats, -, heven, hperm, -⟩ := run_keeps (I := fun _ seats _ => k.Even units seats)
    ordered.toCounts hcs h hstart fun hseated heven hr _ => even_round ordered hseated heven hr
  obtain ⟨x, hx, rfl⟩ := List.mem_map.mp (hperm.mem_iff.mp hc)
  obtain ⟨y, hy, rfl⟩ := List.mem_map.mp (hperm.mem_iff.mp hc')
  exact heven x hx hwants y hy

end Contest

theorem ordered_grantSymbol {groups : UInt32} (h0 : groups ≠ 0) : (grantSymbol groups).Ordered
    (fun r => r.rbg.toNat = r.sym.toNat * groups.toNat) (fun r => r.sym.toNat) where
  toCounts := counts_grantSymbol groups
  units_le {r r'} hr hr' hle := by
    rw [UInt32.le_iff_toNat_le, hr, hr'] at hle
    exact Nat.le_of_mul_le_mul_right hle (Word.toNat_pos h0)

theorem ordered_grantGroup {symbols : UInt32} (h0 : symbols ≠ 0) : (grantGroup symbols).Ordered
    (fun r => symbols.toNat ∣ r.rbg.toNat ∧ (r.rbg ≠ 0 → r.sym = symbols))
    (fun r => r.rbg.toNat / symbols.toNat) where
  toCounts := counts_grantGroup h0
  units_le _ _ hle := Nat.div_le_div_right (UInt32.le_iff_toNat_le.mp hle)

/-- Whoever is left unsatisfied has at most one symbol less than anybody else. -/
def FairInTime (k : Contest) (cs : List Contender) : Prop :=
  ∀ u ∈ cs, k.wants u = .ok true → ∀ v ∈ cs,
    (v.user.link k.direction).sym.toNat ≤ (u.user.link k.direction).sym.toNat + 1

/-- Whoever is left unsatisfied has at most one group over `symbols` symbols less than anybody else. -/
def FairInBand (k : Contest) (symbols : UInt32) (cs : List Contender) : Prop :=
  ∀ u ∈ cs, k.wants u = .ok true → ∀ v ∈ cs,
    (v.user.link k.direction).rbg.toNat ≤ (u.user.link k.direction).rbg.toNat + symbols.toNat

section Turns

variable {k : Contest} {symbols groups : UInt32}

theorem fairInTime_assignTdma {active active' : Contenders} {split : BeamSymbols}
    (hstart : ∀ c ∈ active.flat, (c.user.link k.direction).rbg = 0 ∧
      (c.user.link k.direction).sym = 0)
    (h : assignTdma k .roundRobin symbols groups active = .ok (split, active')) :
    FairInTime k active'.flat := by
  have hzero := band_start hstart groups
  rcases assignTdma_cases h with ⟨-, -, rfl⟩ | ⟨h0, _, cs, hrun, rfl⟩
  · intro u _ _ v hv
    rw [(hstart v hv).2]
    exact Nat.zero_le _
  · obtain ⟨hallotted, -, -⟩ := Contest.run_ok (counts_grantSymbol groups) hzero hrun
    rw [(Contenders.refill_ok hallotted).2]
    intro u hu hwants v hv
    exact Contest.even_run (ordered_grantSymbol h0) hzero hrun hu hwants hv

theorem fairInBand_assignBeam {cs cs' : List Contender}
    (hstart : ∀ c ∈ cs, (c.user.link k.direction).rbg = 0)
    (h : assignBeam k .roundRobin symbols groups cs = .ok cs') : FairInBand k symbols cs' := by
  rcases assignBeam_cases h with ⟨-, rfl⟩ | ⟨h0, -, _, _, hrun⟩
  · intro u _ _ v hv
    rw [hstart v hv]
    exact Nat.zero_le _
  · have hempty : ∀ c ∈ cs, (symbols.toNat ∣ (c.user.link k.direction).resources.rbg.toNat ∧
        ((c.user.link k.direction).resources.rbg ≠ 0 →
          (c.user.link k.direction).resources.sym = symbols)) ∧
        (c.user.link k.direction).resources.rbg.toNat / symbols.toNat = 0 := by
      intro c hc
      simp [LinkState.resources, hstart c hc]
    obtain ⟨-, hshape, -⟩ := Contest.run_ok (counts_grantGroup h0) hempty hrun
    intro u hu hwants v hv
    have hgroups := Contest.even_run (ordered_grantGroup h0) hempty hrun hu hwants hv
    calc (v.user.link k.direction).rbg.toNat
        = (v.user.link k.direction).rbg.toNat / symbols.toNat * symbols.toNat :=
          (Nat.div_mul_cancel (hshape v hv).1).symm
      _ ≤ ((u.user.link k.direction).rbg.toNat / symbols.toNat + 1) * symbols.toNat :=
          Nat.mul_le_mul_right _ hgroups
      _ = (u.user.link k.direction).rbg.toNat + symbols.toNat := by
          rw [Nat.add_mul, Nat.one_mul]
          exact congrArg (· + symbols.toNat) (Nat.div_mul_cancel (hshape u hu).1)

/-- Turns are fair to one unit: among all contenders when symbols over the whole band are assigned, and
among those of a beam when its groups are. That holds of every allocation that stays in range, and on a
small grid each one does. -/
theorem turns_are_fair (k : Contest) (symbols groups : UInt32) (active : Contenders) :
    ((∀ c ∈ active.flat, (c.user.link k.direction).rbg = 0 ∧ (c.user.link k.direction).sym = 0) →
      (symbols.toNat * groups.toNat < UInt32.size →
        symbols.toNat * groups.toNat * k.blocksPerGroup.toNat < UInt32.size →
        Succeeds (assignTdma k .roundRobin symbols groups active)) ∧
      ∀ split active', assignTdma k .roundRobin symbols groups active = .ok (split, active') →
        FairInTime k active'.flat) ∧
    ((∀ c ∈ active.flat, (c.user.link .downlink).rbg = 0) →
      (symbols.toNat * groups.toNat < UInt32.size →
        symbols.toNat * groups.toNat * k.blocksPerGroup.toNat < UInt32.size →
        active.demand < UInt64.size →
        (∀ e ∈ active.entries,
          symbols.toNat * (e.2.map fun c => c.backlog.toNat).sum < UInt64.size) →
        Succeeds (assignOfdma k.link k.blocksPerGroup .roundRobin symbols groups active)) ∧
      ∀ split active',
        assignOfdma k.link k.blocksPerGroup .roundRobin symbols groups active =
          .ok (split, active') →
        ∀ e ∈ active'.entries,
          FairInBand ⟨.downlink, k.link, k.blocksPerGroup⟩ (split.of e.1) e.2) := by
  refine ⟨fun hstart => ⟨fun hunits hgrid => succeeds_assignTdma hunits hgrid hstart,
    fun split active' h => fairInTime_assignTdma hstart h⟩, fun hstart =>
    ⟨fun hunits hgrid => succeeds_assignOfdma hunits hgrid hstart, fun split active' h e' he' => ?_⟩⟩
  obtain ⟨-, hbeams⟩ := assignOfdma_cases h
  obtain ⟨e, he, hkey, hassign⟩ := exists_left_of_forall₂ hbeams he'
  rw [hkey]
  exact fairInBand_assignBeam (fun c hc => hstart c (Contenders.mem_flat.mpr ⟨e, he, hc⟩)) hassign

end Turns

def hungryContenders : Contenders :=
  .ofList [⟨.fresh ⟨1⟩ ⟨0⟩ 8 10 10, 1000⟩, ⟨.fresh ⟨2⟩ ⟨0⟩ 8 5 5, 1000⟩, ⟨.fresh ⟨3⟩ ⟨0⟩ 8 1 1, 1000⟩,
    ⟨.fresh ⟨4⟩ ⟨1⟩ 8 20 20, 30⟩]

/-- Of nine symbols the last user needs one, and the others get three, three and two. Of the five groups of
their beam, over nine symbols each, they get one, two and two: turns go back and forth. -/
theorem turns_are_fair_sample :
    (∃ split active', assignTdma ⟨.uplink, .proportional 28, 1⟩ .roundRobin 9 2 hungryContenders =
        .ok (split, active') ∧ FairInTime ⟨.uplink, .proportional 28, 1⟩ active'.flat ∧
      active'.flat.map (fun c => c.user.uplink.sym) = [3, 3, 2, 1]) ∧
    ∃ split active', assignOfdma (.proportional 28) 1 .roundRobin 9 5 hungryContenders =
        .ok (split, active') ∧
      (∀ e ∈ active'.entries, FairInBand ⟨.downlink, .proportional 28, 1⟩ (split.of e.1) e.2) ∧
      active'.flat.map (fun c => c.user.downlink.rbg) = [9, 18, 18, 0] := by
  constructor
  · obtain ⟨hsucceeds, hfair⟩ :=
      (turns_are_fair ⟨.uplink, .proportional 28, 1⟩ 9 2 hungryContenders).1 (by decide)
    obtain ⟨⟨split, active'⟩, h⟩ := hsucceeds (by decide) (by decide)
    have hrun : (assignTdma ⟨.uplink, .proportional 28, 1⟩ .roundRobin 9 2
        hungryContenders).toOption.any (fun r =>
          r.2.flat.map (fun c => c.user.uplink.sym) = [3, 3, 2, 1]) = true := by
      cbv
    rw [h] at hrun
    exact ⟨split, active', h, hfair split active' h, by simpa [Except.toOption] using hrun⟩
  · obtain ⟨hsucceeds, hfair⟩ :=
      (turns_are_fair ⟨.uplink, .proportional 28, 1⟩ 9 5 hungryContenders).2 (by decide)
    obtain ⟨⟨split, active'⟩, h⟩ := hsucceeds (by decide) (by decide) (by decide) (by decide)
    have hrun : (assignOfdma (.proportional 28) 1 .roundRobin 9 5
        hungryContenders).toOption.any (fun r =>
          r.2.flat.map (fun c => c.user.downlink.rbg) = [9, 18, 18, 0]) = true := by
      cbv
    rw [h] at hrun
    exact ⟨split, active', h, hfair split active' h, by simpa [Except.toOption] using hrun⟩

end Airtime
