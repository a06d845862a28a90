import Airtime.Proofs.Allocation
import Airtime.Proofs.Success

/-! An allocation stays in range on a grid that is small enough: all units of the grid together carry
a number of resource blocks that is a word, and the weights of the beams, each taken for all symbols,
sum to a double word. -/

namespace Airtime

namespace BeamSymbols

theorem of_le_sum (t : BeamSymbols) (beam : BeamId) : (t.of beam).toNat ≤ t.sum := by
  have h := t.sum_of_le (List.nodup_singleton beam)
  rwa [List.map_singleton, List.sum_singleton] at h

theorem succeeds_give {t : BeamSymbols} {beam : BeamId} {n : UInt32}
    (h : t.sum + n.toNat < UInt32.size) : Succeeds (t.give beam n) := by
  have hle := t.of_le_sum beam
  rw [of] at hle
  have hadd : Succeeds (Word.add ((t.get? beam).getD 0) n) :=
    Word.succeeds_add_iff.mpr ((Nat.add_le_add_right hle _).trans_lt h)
  exact hadd.bind fun m _ => succeeds_ok _

theorem succeeds_foldlM_give {α : Type} {beam : α → BeamId} {n : α → UInt32} {l : List α}
    {t : BeamSymbols} (h : t.sum + (l.map fun a => (n a).toNat).sum < UInt32.size) :
    Succeeds (l.foldlM (fun (t : BeamSymbols) a => t.give (beam a) (n a)) t) := by
  refine succeeds_foldlM
    (I := fun l t => t.sum + (l.map fun a => (n a).toNat).sum < UInt32.size) h ?_ ?_
  · intro a _ rest t ht
    rw [List.map_cons, List.sum_cons] at ht
    exact succeeds_give (by omega)
  · intro a _ rest t t' ht hgive
    rw [List.map_cons, List.sum_cons] at ht
    rw [sum_give hgive]
    omega

end BeamSymbols

/-- Shares that are rounded down, with what the division leaves of each, make the whole. -/
theorem sum_div_add_mod (n k : Nat) (ws : List Nat) :
    (ws.map fun w => n * w / k).sum * k + (ws.map fun w => n * w % k).sum = n * ws.sum := by
  induction ws with
  | nil => simp
  | cons w ws ih =>
    have hdivided := Nat.div_add_mod' (n * w) k
    simp only [List.map_cons, List.sum_cons, Nat.add_mul, Nat.mul_add]
    omega

namespace Quota

variable {total : UInt32} {sum : UInt64} {w : BeamId × UInt64} {q : Quota}

theorem succeeds_of (hpos : sum.toNat ≠ 0) (hscaled : total.toNat * w.2.toNat < UInt64.size) :
    Succeeds (of total sum w) := by
  have hmul : Succeeds (Word.mul total.toUInt64 w.2) := Word.succeeds_mul_iff.mpr hscaled
  exact hmul.bind fun exact _ => (Word.succeeds_div_iff.mpr hpos).bind fun floor _ =>
    (Word.succeeds_mod_iff.mpr hpos).bind fun remainder _ => succeeds_ok _

theorem toNat_floor (hle : w.2.toNat ≤ sum.toNat) (h : of total sum w = .ok q) :
    q.floor.toNat = total.toNat * w.2.toNat / sum.toNat := by
  simp only [of, bind_ok_iff, pure_ok_iff] at h
  obtain ⟨exact, hexact, floor, hfloor, remainder, -, rfl⟩ := h
  have hexact : exact.toNat = total.toUInt64.toNat * w.2.toNat := Word.mul_eq_ok.mp hexact
  have hfloor : floor.toNat = exact.toNat / sum.toNat := (Word.div_eq_ok.mp hfloor).2
  rw [hexact, UInt32.toNat_toUInt64] at hfloor
  have hsmall : floor.toNat ≤ total.toNat := by
    rw [hfloor, Nat.mul_comm]
    exact Nat.div_le_of_le_mul (Nat.mul_le_mul_right _ hle)
  rw [UInt64.toNat_toUInt32, hfloor, Nat.mod_eq_of_lt]
  exact hfloor ▸ hsmall.trans_lt total.toNat_lt

theorem sum_floors_le {weights : List (BeamId × UInt64)} {quotas : List Quota}
    (hsum : sum.toNat = (weights.map fun w => w.2.toNat).sum) (hpos : sum.toNat ≠ 0)
    (h : weights.mapM (of total sum) = .ok quotas) :
    (quotas.map fun q => q.floor.toNat).sum ≤ total.toNat := by
  have hle : ∀ w ∈ weights, w.2.toNat ≤ sum.toNat := fun w hw =>
    hsum ▸ le_sum_map (fun w => w.2.toNat) hw
  have hfloors : (quotas.map fun q => q.floor.toNat) =
      weights.map fun w => total.toNat * w.2.toNat / sum.toNat :=
    map_eq_of_forall₂ ((List.forall₂_and_left _ _).mpr ⟨hle, mapM_ok_iff.mp h⟩)
      fun w q hq => toNat_floor hq.1 hq.2
  have hwhole := sum_div_add_mod total.toNat sum.toNat (weights.map fun w => w.2.toNat)
  rw [List.map_map, ← hsum] at hwhole
  rw [hfloors]
  exact Nat.le_of_mul_le_mul_right (Nat.le.intro hwhole) (Nat.pos_of_ne_zero hpos)

end Quota

theorem succeeds_apportion {total : UInt32} {weights : List (BeamId × UInt64)}
    (hsum : (weights.map fun w => w.2.toNat).sum < UInt64.size)
    (hscaled : ∀ w ∈ weights, total.toNat * w.2.toNat < UInt64.size) :
    Succeeds (apportion total weights) := by
  have hweights : (weights.map Prod.snd).map Word.toNat = weights.map fun w => w.2.toNat := by
    rw [List.map_map]
    rfl
  unfold apportion
  refine (Word.succeeds_sum_iff.mpr (hweights ▸ hsum)).bind fun sum hsum => ?_
  have hsum : sum.toNat = (weights.map fun w => w.2.toNat).sum :=
    (Word.sum_ok_iff.mp hsum).trans (congrArg List.sum hweights)
  simp only
  split
  · exact succeeds_ok _
  next h0 =>
  have hpos : sum.toNat ≠ 0 := fun h => h0 (.inl (UInt64.toNat_inj.mp h))
  have hquotas : Succeeds (weights.mapM (Quota.of total sum)) := succeeds_mapM fun w hw =>
    Quota.succeeds_of hpos (hscaled w hw)
  refine hquotas.bind fun quotas hquotas => ?_
  have hwhole := Quota.sum_floors_le hsum hpos hquotas
  have hfloors : (quotas.map Quota.floor).map Word.toNat = quotas.map fun q => q.floor.toNat := by
    rw [List.map_map]
    rfl
  have hlt := total.toNat_lt
  refine (Word.succeeds_sum_iff.mpr (hfloors ▸ hwhole.trans_lt hlt)).bind fun whole hsum => ?_
  have hsum : whole.toNat = (quotas.map fun q => q.floor.toNat).sum :=
    (Word.sum_ok_iff.mp hsum).trans (congrArg List.sum hfloors)
  refine (Word.succeeds_sub_iff.mpr (hsum.trans_le hwhole)).bind fun spare hspare => ?_
  have hspare : total.toNat = spare.toNat + whole.toNat := Word.sub_eq_ok.mp hspare
  have hnothing := sum_noSymbols weights
  -- The floors leave room for the spare symbols, which go out one by one.
  refine (BeamSymbols.succeeds_foldlM_give ?_).bind fun floors hfolded => ?_
  · change (noSymbols weights).sum + _ < 2 ^ 32
    omega
  have hfolded : floors.sum = (noSymbols weights).sum + _ := BeamSymbols.sum_foldlM_give hfolded
  refine BeamSymbols.succeeds_foldlM_give (n := fun _ => 1) ?_
  refine (Nat.add_le_add_left (sum_ones_le _ _) _).trans_lt ?_
  change _ < 2 ^ 32
  omega

/-- What a contender's units would carry, if they are a number of blocks that is a word. -/
theorem LinkState.succeeds_achievable {s : LinkState} {link : LinkModel} {blocksPerGroup : UInt32}
    (h : s.rbg.toNat * blocksPerGroup.toNat < UInt32.size) :
    Succeeds (s.achievable link blocksPerGroup) := by
  unfold achievable
  split
  · exact succeeds_ok _
  · exact (Word.succeeds_mul_iff.mpr h).bind fun blocks _ => succeeds_ok _

namespace Policy

variable {p : Policy} {k : Contest} {c : Contender}

theorem succeeds_prepare {assignable : Resources}
    (h : assignable.rbg.toNat * k.blocksPerGroup.toNat < UInt32.size) :
    Succeeds (p.prepare k assignable c) := by
  cases p with
  | proportionalFair => exact (Word.succeeds_mul_iff.mpr h).bind fun units _ => succeeds_ok _
  | roundRobin => exact succeeds_ok c
  | maxRate => exact succeeds_ok c

theorem succeeds_recordGrant (h : Succeeds (k.achievable c)) : Succeeds (p.recordGrant k c) := by
  cases p with
  | proportionalFair => exact h.bind fun bytes _ => succeeds_ok _
  | roundRobin => exact succeeds_ok c
  | maxRate => exact succeeds_ok c

end Policy

/-- A grantor that can add up to `n` units, which then carry a number of blocks that is a word. -/
structure Grantor.InRange (grant : Grantor) (shape : Resources → Prop) (units : Resources → Nat)
    (blocksPerGroup : UInt32) (n : Nat) : Prop extends grant.Counts shape units where
  nothing : shape ⟨0, 0⟩ ∧ units ⟨0, 0⟩ = 0
  grants : ∀ {r}, shape r → units r < n → Succeeds (grant r)
  carried : ∀ {r}, shape r → units r ≤ n → r.rbg.toNat * blocksPerGroup.toNat < UInt32.size

namespace Contest

variable {k : Contest} {p : Policy} {grant : Grantor} {shape : Resources → Prop}
  {units : Resources → Nat} {start : List Contender} {n m : Nat} {total : Resources}
  {cs : List Seat}

theorem Seated.units_le_of_mem (hcs : k.Seated shape units start m cs) {x : Seat} (hx : x ∈ cs) :
    units (x.1.user.link k.direction).resources ≤ m :=
  (le_sum_map (fun x : Seat => units (x.1.user.link k.direction).resources) hx).trans_eq hcs.units_eq

theorem succeeds_round (hrange : grant.InRange shape units k.blocksPerGroup n)
    (hcs : k.Seated shape units start m cs) (hm : m < n) (htotal : shape total ∧ units total = m) :
    Succeeds (k.round p grant total cs) := by
  have hcs := hcs.perm (perm_rank k p cs)
  have hwants : ∀ x ∈ k.rank p cs, Succeeds (k.wants x.1) := fun x hx =>
    (LinkState.succeeds_achievable (hrange.carried (hcs.shaped x hx)
      ((hcs.units_le_of_mem hx).trans hm.le))).bind fun _ _ => succeeds_ok _
  unfold round
  refine (succeeds_mapM fun x hx => (hwants x hx).bind fun wants _ =>
    succeeds_ok (x, wants)).bind fun marked hmarked => ?_
  simp only
  split
  · exact succeeds_ok none
  · next winner place wants others hrest =>
    have hmem : (winner, place) ∈ k.rank p cs := by
      have hdrop := List.drop_subset (marked.takeWhile fun m => !m.2).length marked
      rw [hrest] at hdrop
      obtain ⟨x, hx, hread⟩ := (mem_mapM_ok hmarked).mp (hdrop List.mem_cons_self)
      obtain ⟨_, -, hread⟩ := bind_ok_iff.mp hread
      cases pure_ok_iff.mp hread
      exact hx
    have hshape := hcs.shaped _ hmem
    have hunits := (hcs.units_le_of_mem hmem).trans_lt hm
    obtain ⟨r, hr⟩ := hrange.grants hshape hunits
    have hstate : Succeeds (grant.toState (winner.user.link k.direction)) :=
      ⟨_, Grantor.toState_ok_iff.mpr ⟨r, hr, rfl⟩⟩
    refine hstate.bind fun s hs => (hrange.grants htotal.1 (htotal.2.trans_lt hm)).bind
      fun total' _ => (Policy.succeeds_recordGrant ?_).bind fun w _ => succeeds_ok _
    obtain ⟨r', hr', rfl⟩ := Grantor.toState_ok_iff.mp hs
    obtain ⟨hshape', hunits'⟩ := hrange.granted hshape hr'
    unfold achievable
    rw [User.link_setLink]
    exact LinkState.succeeds_achievable (hrange.carried hshape' (hunits'.trans_le hunits))

theorem succeeds_rounds (hrange : grant.InRange shape units k.blocksPerGroup n) {left : Nat}
    {won : BeamSymbols} (hcs : k.Seated shape units start m cs) (hleft : m + left ≤ n)
    (htotal : shape total ∧ units total = m) (hwon : won.sum + left < UInt32.size) :
    Succeeds (k.rounds p grant left total cs won) := by
  induction left generalizing m total cs won with
  | zero => exact succeeds_ok _
  | succ left ih =>
    unfold rounds
    refine (succeeds_round hrange hcs (by omega) htotal).bind fun r hr => ?_
    cases r with
    | none => exact succeeds_ok _
    | some r =>
      obtain ⟨beam, total', cs'⟩ := r
      refine (BeamSymbols.succeeds_give (by rw [UInt32.toNat_one]; omega)).bind fun won' hgive => ?_
      have hgive := BeamSymbols.sum_give hgive
      rw [UInt32.toNat_one] at hgive
      obtain ⟨_, _, _, _, _, _, _, -, -, -, -, -, hgrant, -⟩ := round_cases hr
      obtain ⟨hshape, hunits⟩ := hrange.granted htotal.1 hgrant
      exact ih (hcs.round hrange.toCounts hr) (by omega) ⟨hshape, by rw [hunits, htotal.2]⟩
        (by omega)

theorem sum_won_le {cs' : List Seat} {left : Nat} {won won' : BeamSymbols}
    (h : k.rounds p grant left total cs won = .ok (cs', won')) : won'.sum ≤ won.sum + left := by
  obtain ⟨_, -, hle, rfl, -⟩ := rounds_keeps (I := fun i _ won => won.sum = i) h rfl
    fun hsum _ hgive => by
      rw [BeamSymbols.sum_give hgive, hsum]
      rfl
  exact hle

theorem succeeds_run {n : UInt32} {assignable : Resources} {cs : List Contender}
    (hrange : grant.InRange shape units k.blocksPerGroup n.toNat)
    (hassignable : assignable.rbg.toNat * k.blocksPerGroup.toNat < UInt32.size)
    (hcs : ∀ c ∈ cs, shape (c.user.link k.direction).resources ∧
      units (c.user.link k.direction).resources = 0) :
    Succeeds (k.run p grant assignable n cs) := by
  refine (succeeds_mapM fun c _ => Policy.succeeds_prepare hassignable).bind fun ready hready => ?_
  have hseated := seated_start (empty_of_prepare hready hcs)
  have hzero : BeamSymbols.sum ∅ = 0 := rfl
  refine (succeeds_rounds hrange hseated (Nat.zero_add _).le hrange.nothing ?_).bind fun x _ =>
    succeeds_ok _
  rw [hzero, Nat.zero_add]
  exact n.toNat_lt

end Contest

section Grid

variable {symbols groups blocksPerGroup : UInt32}

/-- The units of a small grid are a word, whatever the number of blocks in each. -/
theorem units_lt (hblocks : 1 ≤ blocksPerGroup.toNat)
    (hgrid : symbols.toNat * groups.toNat * blocksPerGroup.toNat < UInt32.size) :
    symbols.toNat * groups.toNat < UInt32.size :=
  (Nat.le_mul_of_pos_right _ hblocks).trans_lt hgrid

theorem inRange_grantSymbol (hunits : symbols.toNat * groups.toNat < UInt32.size)
    (hgrid : symbols.toNat * groups.toNat * blocksPerGroup.toNat < UInt32.size) :
    (grantSymbol groups).InRange (fun r => r.rbg.toNat = r.sym.toNat * groups.toNat)
      (fun r => r.sym.toNat) blocksPerGroup symbols.toNat where
  toCounts := counts_grantSymbol groups
  nothing := ⟨by simp, rfl⟩
  grants {r} hr hlt := by
    have hmore : (r.sym.toNat + 1) * groups.toNat ≤ symbols.toNat * groups.toNat :=
      Nat.mul_le_mul_right _ hlt
    have hrbg : Succeeds (Word.add r.rbg groups) := Word.succeeds_add_iff.mpr (by
      simp only [Word.toNat_uint32, hr]
      rw [Nat.add_mul, Nat.one_mul] at hmore
      exact hmore.trans_lt hunits)
    have hsym : Succeeds (Word.add r.sym 1) :=
      Word.succeeds_add_iff.mpr (Nat.lt_of_le_of_lt hlt symbols.toNat_lt)
    exact hrbg.bind fun rbg _ => hsym.bind fun sym _ => succeeds_ok _
  carried {r} hr hle := by
    rw [hr]
    exact (Nat.mul_le_mul_right _ (Nat.mul_le_mul_right _ hle)).trans_lt hgrid

theorem succeeds_assignTdma {k : Contest} {p : Policy} {active : Contenders}
    (hunits : symbols.toNat * groups.toNat < UInt32.size)
    (hgrid : symbols.toNat * groups.toNat * k.blocksPerGroup.toNat < UInt32.size)
    (hstart : ∀ c ∈ active.flat, (c.user.link k.direction).rbg = 0 ∧
      (c.user.link k.direction).sym = 0) :
    Succeeds (assignTdma k p symbols groups active) := by
  unfold assignTdma
  split
  · exact succeeds_ok _
  · have hmul : Succeeds (Word.mul groups symbols) := Word.succeeds_mul_iff.mpr (by
      simp only [Word.toNat_uint32, Nat.mul_comm groups.toNat]
      exact hunits)
    refine hmul.bind fun units hproduct => ?_
    have hproduct : units.toNat = groups.toNat * symbols.toNat := Word.mul_eq_ok.mp hproduct
    refine (Contest.succeeds_run (inRange_grantSymbol hunits hgrid) ?_ ?_).bind fun x _ =>
      succeeds_ok _
    · simp only [hproduct, Nat.mul_comm groups.toNat]
      exact hgrid
    · intro c hc
      obtain ⟨hrbg, hsym⟩ := hstart c hc
      simp [LinkState.resources, hrbg, hsym]

theorem sum_split_assignTdma {k : Contest} {p : Policy} {active active' : Contenders}
    {split : BeamSymbols} (h : assignTdma k p symbols groups active = .ok (split, active')) :
    split.sum ≤ symbols.toNat := by
  rcases assignTdma_cases h with ⟨-, rfl, -⟩ | ⟨-, _, cs, hrun, -⟩
  · exact Nat.zero_le _
  · simp only [Contest.run, bind_ok_iff, pure_ok_iff, Prod.mk.injEq] at hrun
    obtain ⟨ready, -, ⟨seats, won⟩, hrounds, -, rfl⟩ := hrun
    exact (Contest.sum_won_le hrounds).trans_eq (Nat.zero_add _)

theorem inRange_grantGroup (h0 : symbols ≠ 0)
    (hunits : symbols.toNat * groups.toNat < UInt32.size)
    (hgrid : symbols.toNat * groups.toNat * blocksPerGroup.toNat < UInt32.size) :
    (grantGroup symbols).InRange
      (fun r => symbols.toNat ∣ r.rbg.toNat ∧ (r.rbg ≠ 0 → r.sym = symbols))
      (fun r => r.rbg.toNat / symbols.toNat) blocksPerGroup groups.toNat where
  toCounts := counts_grantGroup h0
  nothing := by simp
  grants {r} hr hlt := by
    have hmore : symbols.toNat * (r.rbg.toNat / symbols.toNat + 1) ≤
        symbols.toNat * groups.toNat := Nat.mul_le_mul_left _ hlt
    rw [Nat.mul_add, Nat.mul_div_cancel' hr.1, Nat.mul_one] at hmore
    have hrbg : Succeeds (Word.add r.rbg symbols) :=
      Word.succeeds_add_iff.mpr (hmore.trans_lt hunits)
    exact hrbg.bind fun rbg _ => succeeds_ok _
  carried {r} hr hle := by
    rw [← Nat.mul_div_cancel' hr.1]
    exact (Nat.mul_le_mul_right _ (Nat.mul_le_mul_left _ hle)).trans_lt hgrid

theorem succeeds_assignBeam {k : Contest} {p : Policy} {cs : List Contender}
    (hunits : symbols.toNat * groups.toNat < UInt32.size)
    (hgrid : symbols.toNat * groups.toNat * k.blocksPerGroup.toNat < UInt32.size)
    (hstart : ∀ c ∈ cs, (c.user.link k.direction).rbg = 0) :
    Succeeds (assignBeam k p symbols groups cs) := by
  unfold assignBeam
  split
  · exact succeeds_ok cs
  · next h0 =>
    have hmul : Succeeds (Word.mul symbols groups) := Word.succeeds_mul_iff.mpr hunits
    refine hmul.bind fun units hproduct => ?_
    have hproduct : units.toNat = symbols.toNat * groups.toNat := Word.mul_eq_ok.mp hproduct
    refine (Contest.succeeds_run
      (inRange_grantGroup (fun h => h0 (.inl h)) hunits hgrid) ?_ ?_).bind fun x _ =>
      succeeds_ok _
    · rw [hproduct]
      exact hgrid
    · intro c hc
      simp [LinkState.resources, hstart c hc]

/-- The bytes that all contenders want to send. -/
def Contenders.demand (t : Contenders) : Nat := (t.flat.map fun k => k.backlog.toNat).sum

theorem Contenders.demand_eq (t : Contenders) : t.demand =
    (t.entries.map fun e => (e.2.map fun c => c.backlog.toNat).sum).sum := t.sum_flat _

theorem Contenders.le_demand {t : Contenders} {e : BeamId × List Contender} (he : e ∈ t.entries) :
    (e.2.map fun c => c.backlog.toNat).sum ≤ t.demand := by
  rw [demand_eq]
  exact le_sum_map (fun e => (e.2.map fun c => c.backlog.toNat).sum) he

theorem succeeds_splitSymbols {active : Contenders} (hdemand : active.demand < UInt64.size)
    (hscaled : ∀ e ∈ active.entries,
      symbols.toNat * (e.2.map fun c => c.backlog.toNat).sum < UInt64.size) :
    Succeeds (splitSymbols symbols active) := by
  have hwords : ∀ cs : List Contender, (cs.map fun c => c.backlog.toUInt64).map Word.toNat =
      cs.map fun c => c.backlog.toNat := fun cs => by
    rw [List.map_map]
    rfl
  refine Succeeds.bind (succeeds_mapM fun e he => ?_) fun weights hweights => ?_
  · have hsum : Succeeds (Word.sum (e.2.map fun c => c.backlog.toUInt64)) :=
      Word.succeeds_sum_iff.mpr (by
        rw [hwords]
        exact (Contenders.le_demand he).trans_lt hdemand)
    exact hsum.bind fun weight _ => succeeds_ok _
  · have hread : List.Forall₂ (fun e w => w.2.toNat = (e.2.map fun c => c.backlog.toNat).sum)
        active.entries weights := by
      refine (mapM_ok_iff.mp hweights).imp fun e w hw => ?_
      obtain ⟨weight, hweight, hw⟩ := bind_ok_iff.mp hw
      cases pure_ok_iff.mp hw
      rw [← hwords]
      exact Word.sum_ok_iff.mp hweight
    have hsum : (weights.map fun w => w.2.toNat).sum = active.demand := by
      rw [active.demand_eq]
      exact congrArg List.sum (map_eq_of_forall₂ hread fun e w hw => hw)
    refine succeeds_apportion (hsum ▸ hdemand) fun w hw => ?_
    obtain ⟨e, he, hweight⟩ := exists_left_of_forall₂ hread hw
    rw [hweight]
    exact hscaled e he

theorem succeeds_assignOfdma {link : LinkModel} {p : Policy} {active : Contenders}
    (hunits : symbols.toNat * groups.toNat < UInt32.size)
    (hgrid : symbols.toNat * groups.toNat * blocksPerGroup.toNat < UInt32.size)
    (hstart : ∀ c ∈ active.flat, (c.user.link .downlink).rbg = 0)
    (hdemand : active.demand < UInt64.size)
    (hscaled : ∀ e ∈ active.entries,
      symbols.toNat * (e.2.map fun c => c.backlog.toNat).sum < UInt64.size) :
    Succeeds (assignOfdma link blocksPerGroup p symbols groups active) := by
  refine (succeeds_splitSymbols hdemand hscaled).bind fun split hsplit => ?_
  obtain ⟨weights, hsplit, -⟩ := splitSymbols_cases hsplit
  refine (succeeds_walk (I := fun _ _ => True) trivial ?_ fun _ _ _ _ _ _ _ _ _ => trivial).bind
    fun x _ => succeeds_ok _
  intro beam cs hcs _ _ _
  have hle : (split.of beam).toNat ≤ symbols.toNat :=
    (split.of_le_sum beam).trans (sum_apportion hsplit)
  refine (succeeds_assignBeam ?_ ?_ fun c hc => ?_).bind fun cs' _ => succeeds_ok _
  · exact (Nat.mul_le_mul_right _ hle).trans_lt hunits
  · exact (Nat.mul_le_mul_right _ (Nat.mul_le_mul_right _ hle)).trans_lt hgrid
  · exact hstart c (Contenders.mem_flat.mpr ⟨(beam, cs), Table.mem_entries.mpr hcs, hc⟩)

end Grid

end Airtime
