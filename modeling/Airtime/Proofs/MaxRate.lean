import Airtime.Proofs.Bands

/-! Highest coding scheme first. The rounds grant one unit at a time and rank the contenders anew each
time, but the ranking never changes and whoever is satisfied stays so. So the rounds come to the same
as one pass in which each contender takes all that it needs before the next one has its turn. -/

namespace Airtime

def Seat.mcs (d : Direction) (x : Seat) : Nat := (x.1.user.link d).mcs.toNat

def Seat.before (d : Direction) (x y : Seat) : Bool :=
  mcs d y < mcs d x || mcs d x == mcs d y && x.2 < y.2

def Seat.inOrder (d : Direction) (cs : List Seat) : List Seat :=
  cs.mergeSort fun x y => !before d y x

namespace Contest

/-- The least number of units that satisfies the contender, or all that are left if fewer remain.
`held n` are the resources of `n` units. -/
def enough (k : Contest) (held : Nat → Resources) (left : Nat) (c : Contender) : Nat :=
  ((List.range left).find? fun n =>
    k.wants (c.holding k.direction (held n)) = .ok false).getD left

/-- Each in turn gets enough of the units that are left. -/
def serveInTurn (k : Contest) (held : Nat → Resources) : Nat → List Seat → List Seat
  | _, [] => []
  | left, (c, place) :: cs =>
    let n := k.enough held left c
    (c.holding k.direction (held n), place) :: k.serveInTurn held (left - n) cs

/-- Serves the contenders with `m` units in one pass, the highest coding scheme first, and gives them
back in the order in which they started. -/
def onePass (k : Contest) (held : Nat → Resources) (m : Nat) (cs : List Contender) :
    List Contender :=
  ((k.serveInTurn held m (Seat.inOrder k.direction cs.zipIdx)).mergeSort fun x y =>
    x.2 ≤ y.2).map Prod.fst

end Contest

namespace Seat

variable {d : Direction} {x y : Seat} {cs cs' : List Seat}

theorem before_iff : before d x y = true ↔
    mcs d y < mcs d x ∨ mcs d x = mcs d y ∧ x.2 < y.2 := by
  simp [before]

theorem not_before_iff : (!before d y x) = true ↔
    mcs d y < mcs d x ∨ mcs d x = mcs d y ∧ x.2 ≤ y.2 := by
  rw [Bool.not_eq_true', ← Bool.not_eq_true, before_iff]
  omega

theorem before_asymm (h : before d x y = true) : ¬ before d y x = true := by
  rw [before_iff] at *
  omega

theorem pairwise_inOrder (hplaces : (cs.map Prod.snd).Nodup) :
    (inOrder d cs).Pairwise fun x y => before d x y = true := by
  have hsorted : (inOrder d cs).Pairwise fun x y => (!before d y x) = true :=
    List.pairwise_mergeSort (fun x y z hxy hyz => by rw [not_before_iff] at *; omega)
      (fun x y => by rw [Bool.or_eq_true, not_before_iff, not_before_iff]; omega) cs
  have hdistinct : ((inOrder d cs).map Prod.snd).Nodup :=
    ((List.mergeSort_perm cs _).map Prod.snd).nodup_iff.mpr hplaces
  refine (hsorted.and (List.pairwise_map.mp hdistinct)).imp fun ⟨hle, hne⟩ => ?_
  rw [not_before_iff] at hle
  rw [before_iff]
  omega

theorem inOrder_of_perm (hperm : cs'.Perm cs) (hplaces : (cs.map Prod.snd).Nodup) :
    inOrder d cs' = inOrder d cs :=
  List.Perm.eq_of_pairwise (fun _ _ _ _ hxy hyx => absurd hyx (before_asymm hxy))
    (pairwise_inOrder ((hperm.map Prod.snd).nodup_iff.mpr hplaces)) (pairwise_inOrder hplaces)
    ((List.mergeSort_perm cs' _).trans (hperm.trans (List.mergeSort_perm cs _).symm))

theorem pairwise_byPlace (hplaces : (cs.map Prod.snd).Nodup) :
    (cs.mergeSort fun x y => x.2 ≤ y.2).Pairwise (·.2 < ·.2) := by
  have hsorted : (cs.mergeSort fun x y => x.2 ≤ y.2).Pairwise fun x y => decide (x.2 ≤ y.2) = true :=
    List.pairwise_mergeSort (fun x y z hxy hyz => by simp only [decide_eq_true_eq] at *; omega)
      (fun x y => by simp only [Bool.or_eq_true, decide_eq_true_eq]; omega) cs
  have hdistinct : ((cs.mergeSort fun x y => x.2 ≤ y.2).map Prod.snd).Nodup :=
    ((List.mergeSort_perm cs _).map Prod.snd).nodup_iff.mpr hplaces
  exact (hsorted.and (List.pairwise_map.mp hdistinct)).imp fun ⟨hle, hne⟩ =>
    lt_of_le_of_ne (of_decide_eq_true hle) hne

theorem byPlace_of_perm (hperm : cs'.Perm cs) (hplaces : (cs.map Prod.snd).Nodup) :
    (cs'.mergeSort fun x y => x.2 ≤ y.2) = cs.mergeSort fun x y => x.2 ≤ y.2 :=
  List.Perm.eq_of_pairwise (fun _ _ _ _ hxy hyx => absurd hyx hxy.asymm)
    (pairwise_byPlace ((hperm.map Prod.snd).nodup_iff.mpr hplaces)) (pairwise_byPlace hplaces)
    ((List.mergeSort_perm cs' _).trans (hperm.trans (List.mergeSort_perm cs _).symm))

end Seat

theorem pairwise_zipIdx {α : Type} (l : List α) : l.zipIdx.Pairwise (·.2 < ·.2) := by
  refine List.pairwise_map.mp ?_
  rw [List.zipIdx_map_snd, ← List.range_eq_range']
  exact List.pairwise_lt_range

namespace Contender

@[simp] theorem holding_holding (d : Direction) (c : Contender) (r r' : Resources) :
    (c.holding d r).holding d r' = c.holding d r' := by
  simp [holding, modify, User.modify]

end Contender

namespace Contest

variable {k : Contest} {grant : Grantor} {shape : Resources → Prop} {units : Resources → Nat}
  {start : List Contender} {n : Nat}

theorem pairwise_rank_maxRate {cs : List Seat}
    (hsteady : cs.Pairwise fun x y => Seat.mcs k.direction x = Seat.mcs k.direction y → x.2 < y.2) :
    (k.rank .maxRate cs).Pairwise fun x y => Seat.before k.direction x y = true := by
  have hle : ∀ a b : Seat, (Policy.maxRate.compare k.direction a.1 b.1 != .gt) = true ↔
      Seat.mcs k.direction b ≤ Seat.mcs k.direction a := fun a b => by
    rw [Policy.compare, bne_iff_ne, ne_eq, ← Ordering.isLE_iff_ne_gt, Std.isLE_compare]
    exact UInt8.le_iff_toNat_le
  have htrans : ∀ a b c : Seat, (Policy.maxRate.compare k.direction a.1 b.1 != .gt) = true →
      (Policy.maxRate.compare k.direction b.1 c.1 != .gt) = true →
      (Policy.maxRate.compare k.direction a.1 c.1 != .gt) = true := fun a b c hab hbc => by
    rw [hle] at *
    exact hbc.trans hab
  have htotal : ∀ a b : Seat, ((Policy.maxRate.compare k.direction a.1 b.1 != .gt) ||
      (Policy.maxRate.compare k.direction b.1 a.1 != .gt)) = true := fun a b => by
    rw [Bool.or_eq_true, hle, hle]
    exact Nat.le_total _ _
  have hsorted := (List.pairwise_mergeSort htrans htotal cs).imp (hle _ _).mp
  rw [List.pairwise_iff_forall_sublist] at hsorted hsteady ⊢
  intro x y hxy
  rw [Seat.before_iff]
  rcases Nat.lt_or_eq_of_le (hsorted hxy) with hlt | heq
  · exact .inl hlt
  · -- Those with one coding scheme stand as they did before.
    have hlevel := filter_mergeSort (p := fun z => Seat.mcs k.direction z == Seat.mcs k.direction x)
      htrans htotal (fun a b ha hb => by
        rw [beq_iff_eq] at ha hb
        rw [hle, ha, hb]) cs
    have hpair : [x, y].Sublist (cs.filter fun z =>
        Seat.mcs k.direction z == Seat.mcs k.direction x) := by
      rw [← hlevel]
      have hfiltered := hxy.filter fun z => Seat.mcs k.direction z == Seat.mcs k.direction x
      rwa [List.filter_cons_of_pos (by simp), List.filter_cons_of_pos (by simp [heq])] at hfiltered
    exact .inr ⟨heq.symm, hsteady (hpair.trans List.filter_sublist) heq.symm⟩

def emptied (k : Contest) (x : Seat) : Seat := (x.1.holding k.direction ⟨0, 0⟩, x.2)

@[simp] theorem mcs_emptied (x : Seat) :
    Seat.mcs k.direction (k.emptied x) = Seat.mcs k.direction x := by
  simp [emptied, Seat.mcs, Contender.holding, Contender.modify, User.modify]

@[simp] theorem before_emptied (x y : Seat) :
    Seat.before k.direction (k.emptied x) (k.emptied y) = Seat.before k.direction x y := by
  simp only [Seat.before, mcs_emptied]
  rfl

theorem round_maxRate {total total' : Resources} {cs cs' : List Seat} {beam : BeamId}
    (h : k.round .maxRate grant total cs = .ok (some (beam, total', cs'))) :
    ∃ content winner place others r,
      k.rank .maxRate cs = content ++ (winner, place) :: others ∧
      cs' = content ++ (winner.holding k.direction r, place) :: others ∧
      (∀ x ∈ content, k.wants x.1 = .ok false) ∧ k.wants winner = .ok true := by
  obtain ⟨content, winner, place, others, others', s, w, hrank, hcontent, hwants, rfl, -, -, hs, hw,
    hothers⟩ := round_cases h
  obtain ⟨r, hr, rfl⟩ := Grantor.toState_ok_iff.mp hs
  obtain rfl : _ = w := Except.ok.inj hw
  refine ⟨content, winner, place, others, r, hrank, ?_, hcontent, hwants⟩
  have hsame : List.Forall₂ Eq others others' := hothers.imp fun x x' ⟨hplace, wants, _, hmissed⟩ =>
    Prod.ext (hmissed.trans (ite_self x.1)).symm hplace.symm
  rw [List.forall₂_eq_eq_eq] at hsame
  rw [hsame]
  rfl

/-- Seats after some rounds in which the highest coding scheme went first. -/
structure ByRate (k : Contest) (shape : Resources → Prop) (units : Resources → Nat)
    (start : List Contender) (n : Nat) (cs : List Seat) : Prop where
  seated : k.Seated shape units start n cs
  needed : ∀ x ∈ cs, k.Needed shape units x.1
  emptied : (cs.map k.emptied).Perm start.zipIdx
  steady : cs.Pairwise fun x y => Seat.mcs k.direction x = Seat.mcs k.direction y → x.2 < y.2
  /-- Whoever has a unit got it when those before it were content. -/
  inTurn : ∀ x ∈ cs, ∀ y ∈ cs, Seat.before k.direction x y = true →
    units (y.1.user.link k.direction).resources ≠ 0 → k.wants x.1 = .ok false

theorem byRate_start (hshape : shape ⟨0, 0⟩) (hunits : units ⟨0, 0⟩ = 0)
    (hstart : ∀ c ∈ start, (c.user.link k.direction).resources = ⟨0, 0⟩) :
    k.ByRate shape units start 0 start.zipIdx where
  seated := seated_start fun c hc => by rw [hstart c hc]; exact ⟨hshape, hunits⟩
  needed x hx r _ hlt := by
    rw [hstart x.1 (List.fst_mem_of_mem_zipIdx hx), hunits] at hlt
    exact absurd hlt (Nat.not_lt_zero _)
  emptied := by
    have hsame : ∀ x ∈ start.zipIdx, k.emptied x = x := fun x hx => by
      rw [Contest.emptied, ← hstart x.1 (List.fst_mem_of_mem_zipIdx hx), Contender.holding_self]
    rw [List.map_congr_left hsame, List.map_id']
  steady := (pairwise_zipIdx start).imp fun {x y} (hlt : x.2 < y.2) _ => hlt
  inTurn x _ y hy _ hne := absurd (by rw [hstart y.1 (List.fst_mem_of_mem_zipIdx hy), hunits]) hne

/-- The winner comes after those who are content, and nobody after it had a unit before it. -/
theorem ByRate.round (measures : grant.Measures shape units) {total total' : Resources}
    {cs cs' : List Seat} {beam : BeamId} (h : k.ByRate shape units start n cs)
    (hr : k.round .maxRate grant total cs = .ok (some (beam, total', cs'))) :
    k.ByRate shape units start (n + 1) cs' := by
  obtain ⟨content, winner, place, others, r, hrank, hcs', hcontent, hwants⟩ := round_maxRate hr
  have hperm := perm_rank k .maxRate cs
  have hsame : cs'.map k.emptied = (k.rank .maxRate cs).map k.emptied := by
    simp [hrank, hcs', Contest.emptied]
  have hbefore := pairwise_rank_maxRate h.steady
  have hbefore' : cs'.Pairwise fun x y => Seat.before k.direction x y = true := by
    have hmapped : ((k.rank .maxRate cs).map k.emptied).Pairwise fun x y =>
        Seat.before k.direction x y = true :=
      List.pairwise_map.mpr (hbefore.imp fun hxy => by rwa [before_emptied])
    rw [← hsame] at hmapped
    exact (List.pairwise_map.mp hmapped).imp fun hxy => by rwa [before_emptied] at hxy
  refine ⟨h.seated.round measures.toCounts hr, needed_round measures h.seated h.needed hr, ?_,
    hbefore'.imp fun hxy heq => ?_, ?_⟩
  · rw [hsame]
    exact (hperm.map _).trans h.emptied
  · rw [Seat.before_iff] at hxy
    omega
  · have hturn : ∀ x ∈ content ++ (winner, place) :: others,
        ∀ y ∈ content ++ (winner, place) :: others, Seat.before k.direction x y = true →
        units (y.1.user.link k.direction).resources ≠ 0 → k.wants x.1 = .ok false := by
      rw [← hrank]
      exact fun x hx y hy => h.inTurn x (hperm.mem_iff.mp hx) y (hperm.mem_iff.mp hy)
    rw [hcs', List.pairwise_append, List.pairwise_cons] at hbefore'
    rw [hrank, List.pairwise_append, List.pairwise_cons] at hbefore
    obtain ⟨-, ⟨hlast, -⟩, hfirst⟩ := hbefore'
    rw [hcs']
    intro x hx y hy hxy hne
    rcases List.mem_append.mp hx with hx | hx
    · exact hcontent x hx
    rcases List.mem_append.mp hy with hy | hy
    · exact absurd hxy (Seat.before_asymm (hfirst y hy x hx))
    rcases List.mem_cons.mp hy with rfl | hy
    · rcases List.mem_cons.mp hx with rfl | hx
      · exact absurd hxy (Seat.before_asymm hxy)
      · exact absurd hxy (Seat.before_asymm (hlast x hx))
    rcases List.mem_cons.mp hx with rfl | hx
    · cases hwants.symm.trans
        (hturn (winner, place) (by simp) y (by simp [hy]) (hbefore.2.1.1 y hy) hne)
    · exact hturn x (by simp [hx]) y (by simp [hy]) hxy hne

section Pass

variable {held : Nat → Resources} {left : Nat}

theorem enough_eq (scale : Resources.Scale held shape units) {c : Contender}
    (hshape : shape (c.user.link k.direction).resources) (hneeded : k.Needed shape units c)
    (hle : units (c.user.link k.direction).resources ≤ left)
    (hend : units (c.user.link k.direction).resources < left → k.wants c = .ok false) :
    k.enough held left (c.holding k.direction ⟨0, 0⟩) =
      units (c.user.link k.direction).resources := by
  have hfewer : ∀ n < units (c.user.link k.direction).resources,
      ¬ k.wants (c.holding k.direction (held n)) = .ok false := fun n hn hcontent => by
    obtain ⟨hshape, hunits⟩ := scale.fewer hshape hn
    cases (hneeded _ hshape (hunits.symm ▸ hn)).symm.trans hcontent
  unfold enough
  simp only [Contender.holding_holding]
  rcases Nat.lt_or_eq_of_le hle with hlt | heq
  · have hfind := (List.find?_range_eq_some (n := left)
      (p := fun n => decide (k.wants (c.holding k.direction (held n)) = .ok false))).mpr
      ⟨decide_eq_true (by rw [scale.all hshape, Contender.holding_self]; exact hend hlt),
        List.mem_range.mpr hlt, fun n hn => by simpa using hfewer n hn⟩
    rw [hfind, Option.getD_some]
  · rw [List.find?_eq_none.mpr fun n hn => by
      simpa using hfewer n (heq ▸ List.mem_range.mp hn), Option.getD_none, heq]

theorem serveInTurn_cons (x : Seat) (cs : List Seat) : k.serveInTurn held left (x :: cs) =
    (x.1.holding k.direction (held (k.enough held left x.1)), x.2) ::
      k.serveInTurn held (left - k.enough held left x.1) cs := rfl

theorem serveInTurn_emptied (scale : Resources.Scale held shape units) {cs : List Seat}
    (hshape : ∀ x ∈ cs, shape (x.1.user.link k.direction).resources)
    (hneeded : ∀ x ∈ cs, k.Needed shape units x.1)
    (hturn : cs.Pairwise fun x y => units (y.1.user.link k.direction).resources ≠ 0 →
      k.wants x.1 = .ok false)
    (hfits : (cs.map fun x => units (x.1.user.link k.direction).resources).sum ≤ left)
    (hspent : (cs.map fun x => units (x.1.user.link k.direction).resources).sum < left →
      ∀ x ∈ cs, k.wants x.1 = .ok false) :
    k.serveInTurn held left (cs.map k.emptied) = cs := by
  induction cs generalizing left with
  | nil => rfl
  | cons x cs ih =>
    rw [List.map_cons, List.sum_cons] at hfits hspent
    obtain ⟨hfirst, hturn⟩ := List.pairwise_cons.mp hturn
    have henough : k.enough held left (k.emptied x).1 =
        units (x.1.user.link k.direction).resources := by
      refine enough_eq scale (hshape x (by simp)) (hneeded x (by simp)) (by omega) fun hlt => ?_
      by_cases hrest : ∀ y ∈ cs, units (y.1.user.link k.direction).resources = 0
      · refine hspent ?_ x (by simp)
        rw [List.sum_eq_zero fun n hn => ?_]
        · exact hlt
        · obtain ⟨y, hy, rfl⟩ := List.mem_map.mp hn
          exact hrest y hy
      · push Not at hrest
        obtain ⟨y, hy, hne⟩ := hrest
        exact hfirst y hy hne
    have hself : ((k.emptied x).1.holding k.direction
        (held (units (x.1.user.link k.direction).resources)), x.2) = x := by
      rw [scale.all (hshape x (by simp)), emptied, Contender.holding_holding,
        Contender.holding_self]
    have hrest : k.serveInTurn held (left - units (x.1.user.link k.direction).resources)
        (cs.map k.emptied) = cs :=
      ih (fun y hy => hshape y (by simp [hy])) (fun y hy => hneeded y (by simp [hy])) hturn
        (by omega) fun hlt y hy => hspent (by omega) y (by simp [hy])
    rw [List.map_cons, serveInTurn_cons, henough, hrest]
    exact congrArg (· :: cs) hself

end Pass

/-- Whoever has a higher coding scheme and is not satisfied leaves nothing to the others. -/
def RateFirst (k : Contest) (cs : List Contender) : Prop :=
  ∀ u ∈ cs, k.wants u = .ok true → ∀ v ∈ cs,
    (v.user.link k.direction).mcs < (u.user.link k.direction).mcs →
    (v.user.link k.direction).resources = ⟨0, 0⟩

section Pass

variable {held : Nat → Resources} (scale : Resources.Scale held shape units) (hshape : shape ⟨0, 0⟩)
  (hunits : units ⟨0, 0⟩ = 0)

include scale

/-- When the units or the needs have come to an end, the contenders hold what one pass gives them. -/
theorem ByRate.onePass {m : Nat} {seats : List Seat} (h : k.ByRate shape units start n seats)
    (hle : n ≤ m) (hend : n < m → ∀ x ∈ seats, k.wants x.1 = .ok false) :
    (seats.mergeSort fun x y => x.2 ≤ y.2).map Prod.fst = k.onePass held m start := by
  have hplaces : (seats.map Prod.snd).Nodup :=
    h.seated.places.nodup_iff.mpr List.nodup_range
  have hperm : (Seat.inOrder k.direction seats).Perm seats := List.mergeSort_perm _ _
  have hstart : (Seat.inOrder k.direction seats).map k.emptied =
      Seat.inOrder k.direction start.zipIdx := by
    have hdistinct : (start.zipIdx.map Prod.snd).Nodup :=
      List.pairwise_map.mpr ((pairwise_zipIdx start).imp Nat.ne_of_lt)
    rw [← Seat.inOrder_of_perm h.emptied hdistinct]
    exact List.map_mergeSort fun x _ y _ => by rw [before_emptied]
  have hsum := h.seated.units_eq
  rw [← (hperm.map _).sum_eq] at hsum
  have hpass : k.serveInTurn held m ((Seat.inOrder k.direction seats).map k.emptied) =
      Seat.inOrder k.direction seats := by
    refine serveInTurn_emptied scale (fun x hx => h.seated.shaped x (hperm.mem_iff.mp hx))
      (fun x hx => h.needed x (hperm.mem_iff.mp hx)) ?_ (hsum.trans_le hle)
      fun hlt x hx => hend (hsum.symm.trans_lt hlt) x (hperm.mem_iff.mp hx)
    exact (Seat.pairwise_inOrder hplaces).imp_of_mem fun hx hy hxy =>
      h.inTurn _ (hperm.mem_iff.mp hx) _ (hperm.mem_iff.mp hy) hxy
  rw [Contest.onePass, ← hstart, hpass, Seat.byPlace_of_perm hperm hplaces]

include hshape hunits

theorem onePass_start {m : Nat} (hcs : ∀ c ∈ start, (c.user.link k.direction).resources = ⟨0, 0⟩)
    (hnothing : m = 0 ∨ start = []) : k.onePass held m start = start := by
  have hby := byRate_start (k := k) hshape hunits hcs
  have hsorted : (start.zipIdx.mergeSort fun x y => x.2 ≤ y.2) = start.zipIdx :=
    List.mergeSort_of_pairwise ((pairwise_zipIdx start).imp fun hlt => decide_eq_true hlt.le)
  rw [← hby.onePass scale (Nat.zero_le m), hsorted, List.zipIdx_map_fst]
  rintro hlt x hx
  obtain rfl | rfl := hnothing
  · exact absurd hlt (Nat.lt_irrefl 0)
  · cases hx

theorem onePass_of_run (measures : grant.Measures shape units) {assignable : Resources} {m : UInt32}
    {cs cs' : List Contender} {won : BeamSymbols}
    (hcs : ∀ c ∈ cs, (c.user.link k.direction).resources = ⟨0, 0⟩)
    (h : k.run .maxRate grant assignable m cs = .ok (cs', won)) :
    cs' = k.onePass held m.toNat cs ∧ k.RateFirst cs' := by
  have hready : cs.mapM (Policy.maxRate.prepare k assignable) = .ok cs :=
    mapM_ok_iff.mpr (List.forall₂_same.mpr fun _ _ => rfl)
  simp only [run, hready, ok_bind, bind_ok_iff, pure_ok_iff, Prod.mk.injEq] at h
  obtain ⟨⟨seats, won'⟩, hrounds, rfl, rfl⟩ := h
  obtain ⟨i, -, hle, hby, hrest⟩ := rounds_keeps
    (I := fun i seats _ => k.ByRate shape units cs i seats) hrounds
    (byRate_start hshape hunits hcs) fun hI hr _ => hI.round measures hr
  rw [Nat.zero_add] at hle hrest
  refine ⟨hby.onePass scale hle fun hlt => ?_, fun u hu hwants v hv hmcs => ?_⟩
  · obtain ⟨_, hnone⟩ := hrest hlt
    exact content_of_round hnone
  · have hmem : ∀ c ∈ (seats.mergeSort fun x y => x.2 ≤ y.2).map Prod.fst, ∃ x ∈ seats, x.1 = c :=
      fun c hc => List.mem_map.mp (((List.mergeSort_perm seats _).map Prod.fst).mem_iff.mp hc)
    obtain ⟨x, hx, rfl⟩ := hmem u hu
    obtain ⟨y, hy, rfl⟩ := hmem v hv
    have hnone : units (y.1.user.link k.direction).resources = 0 := by
      by_contra hne
      have hbefore : Seat.before k.direction x y = true :=
        Seat.before_iff.mpr (.inl (UInt8.lt_iff_toNat_lt.mp hmcs))
      cases hwants.symm.trans (hby.inTurn x hx y hy hbefore hne)
    rw [← scale.all (hby.seated.shaped y hy), hnone, ← hunits, scale.all hshape]

end Pass

end Contest

def Resources.symbols (groups : UInt32) (n : Nat) : Resources :=
  ⟨.ofNat (n * groups.toNat), .ofNat n⟩

theorem scale_symbols (groups : UInt32) : Resources.Scale (.symbols groups)
    (fun r => r.rbg.toNat = r.sym.toNat * groups.toNat) (fun r => r.sym.toNat) where
  all {r} hr := by
    rw [Resources.symbols, ← hr, UInt32.ofNat_toNat, UInt32.ofNat_toNat]
  fewer {r n} hr hn := by
    have hle : n * groups.toNat ≤ r.rbg.toNat := hr ▸ Nat.mul_le_mul_right _ hn.le
    have hsym : (UInt32.ofNat n).toNat = n := UInt32.toNat_ofNat_of_lt' (hn.trans r.sym.toNat_lt)
    have hrbg : (UInt32.ofNat (n * groups.toNat)).toNat = n * groups.toNat :=
      UInt32.toNat_ofNat_of_lt' (hle.trans_lt r.rbg.toNat_lt)
    exact ⟨hrbg.trans (by rw [Resources.symbols, hsym]), hsym⟩

section Rate

variable {k : Contest} {symbols groups : UInt32}

theorem rateFirst_start {cs : List Contender}
    (hcs : ∀ c ∈ cs, (c.user.link k.direction).resources = ⟨0, 0⟩) : k.RateFirst cs :=
  fun _ _ _ v hv _ => hcs v hv

theorem onePass_assignTdma {active active' : Contenders} {split : BeamSymbols}
    (hstart : ∀ c ∈ active.flat, (c.user.link k.direction).resources = ⟨0, 0⟩)
    (h : assignTdma k .maxRate symbols groups active = .ok (split, active')) :
    active' = (if groups = 0 then active else
      active.refill (k.onePass (.symbols groups) symbols.toNat active.flat)) ∧
    k.RateFirst active'.flat := by
  have hzero : (⟨0, 0⟩ : Resources).rbg.toNat = (⟨0, 0⟩ : Resources).sym.toNat * groups.toNat := by
    simp
  rcases assignTdma_cases h with ⟨hnothing, -, rfl⟩ | ⟨hgroups, _, cs, hrun, rfl⟩
  · refine ⟨?_, rateFirst_start hstart⟩
    split
    · rfl
    · next hgroups =>
      have hsame : k.onePass (.symbols groups) symbols.toNat active'.flat = active'.flat := by
        refine Contest.onePass_start (scale_symbols groups) hzero rfl hstart ?_
        obtain hempty | rfl | h0 := hnothing
        · exact .inr hempty
        · exact .inl rfl
        · exact absurd h0 hgroups
      rw [hsame, Contenders.refill_flat]
  · obtain ⟨hpass, hfirst⟩ := Contest.onePass_of_run (scale_symbols groups) hzero rfl
      (measures_grantSymbol groups) hstart hrun
    obtain ⟨hallotted, -⟩ := Contest.run_ok (counts_grantSymbol groups)
      (fun c hc => by rw [hstart c hc]; exact ⟨hzero, rfl⟩) hrun
    rw [if_neg hgroups, (Contenders.refill_ok hallotted).2, ← hpass]
    exact ⟨rfl, hfirst⟩

theorem onePass_assignBeam {cs cs' : List Contender}
    (hstart : ∀ c ∈ cs, (c.user.link k.direction).resources = ⟨0, 0⟩)
    (h : assignBeam k .maxRate symbols groups cs = .ok cs') :
    cs' = (if symbols = 0 then cs else k.onePass (.band symbols) groups.toNat cs) ∧
      k.RateFirst cs' := by
  have hzero : symbols.toNat ∣ (⟨0, 0⟩ : Resources).rbg.toNat ∧ (⟨0, 0⟩ : Resources).sym =
      if (⟨0, 0⟩ : Resources).rbg = 0 then 0 else symbols := by
    simp
  have hnone : (⟨0, 0⟩ : Resources).rbg.toNat / symbols.toNat = 0 := Nat.zero_div _
  rcases assignBeam_cases h with ⟨hnothing, rfl⟩ | ⟨hsymbols, -, _, _, hrun⟩
  · refine ⟨?_, rateFirst_start hstart⟩
    split
    · rfl
    · next hsymbols =>
      obtain rfl : groups = 0 := hnothing.resolve_left hsymbols
      exact (Contest.onePass_start (scale_band hsymbols) hzero hnone hstart (.inl rfl)).symm
  · rw [if_neg hsymbols]
    exact Contest.onePass_of_run (scale_band hsymbols) hzero hnone (measures_grantGroup hsymbols)
      hstart hrun

/-- Serving the highest coding scheme first, unit by unit, comes to one pass over the contenders: over
those of all beams when symbols over the whole band are assigned, and over those of each beam that has
symbols when its groups are. So nobody gets anything while somebody with a higher coding scheme is left
unsatisfied. A band without groups is not assigned. That holds of every allocation that stays in range,
and on a small grid each one does. -/
theorem max_rate_is_one_pass (k : Contest) (symbols groups : UInt32) (active : Contenders) :
    ((∀ c ∈ active.flat, (c.user.link k.direction).resources = ⟨0, 0⟩) →
      (symbols.toNat * groups.toNat < UInt32.size →
        symbols.toNat * groups.toNat * k.blocksPerGroup.toNat < UInt32.size →
        Succeeds (assignTdma k .maxRate symbols groups active)) ∧
      ∀ split active', assignTdma k .maxRate symbols groups active = .ok (split, active') →
        active' = (if groups = 0 then active else
          active.refill (k.onePass (.symbols groups) symbols.toNat active.flat)) ∧
        k.RateFirst active'.flat) ∧
    ((∀ c ∈ active.flat, (c.user.link .downlink).resources = ⟨0, 0⟩) →
      (symbols.toNat * groups.toNat < UInt32.size →
        symbols.toNat * groups.toNat * k.blocksPerGroup.toNat < UInt32.size →
        active.demand < UInt64.size →
        (∀ e ∈ active.entries,
          symbols.toNat * (e.2.map fun c => c.backlog.toNat).sum < UInt64.size) →
        Succeeds (assignOfdma k.link k.blocksPerGroup .maxRate symbols groups active)) ∧
      ∀ split active',
        assignOfdma k.link k.blocksPerGroup .maxRate symbols groups active = .ok (split, active') →
        List.Forall₂ (fun e e' => e'.1 = e.1 ∧
          e'.2 = (if split.of e.1 = 0 then e.2 else
            Contest.onePass ⟨.downlink, k.link, k.blocksPerGroup⟩ (.band (split.of e.1))
              groups.toNat e.2) ∧
          Contest.RateFirst ⟨.downlink, k.link, k.blocksPerGroup⟩ e'.2)
            active.entries active'.entries) := by
  refine ⟨fun hstart => ⟨fun hunits hgrid => succeeds_assignTdma hunits hgrid fun c hc => ?_,
    fun split active' h => onePass_assignTdma hstart h⟩, fun hstart =>
    ⟨fun hunits hgrid => succeeds_assignOfdma hunits hgrid fun c hc => ?_, fun split active' h => ?_⟩⟩
  · exact ⟨congrArg Resources.rbg (hstart c hc), congrArg Resources.sym (hstart c hc)⟩
  · exact congrArg Resources.rbg (hstart c hc)
  · obtain ⟨-, hbeams⟩ := assignOfdma_cases h
    apply ((List.forall₂_and_left _ _).mpr ⟨fun e he => he, hbeams⟩).imp
    rintro e e' ⟨he, hbeam, hassign⟩
    exact ⟨hbeam, onePass_assignBeam (fun c hc =>
      hstart c (Contenders.mem_flat.mpr ⟨e, he, hc⟩)) hassign⟩

end Rate

def ratedContenders : Contenders :=
  .ofList [⟨.fresh ⟨1⟩ ⟨0⟩ 8 5 5, 1000⟩, ⟨.fresh ⟨2⟩ ⟨0⟩ 8 20 20, 100⟩,
    ⟨.fresh ⟨3⟩ ⟨1⟩ 8 20 20, 300⟩]

/-- Of nine symbols the second user needs three; the third one takes the others and leaves nothing to
the first. In their beams, which have seven and two of the symbols, the second user needs one of five
groups and leaves four, and the third one takes all. -/
theorem max_rate_is_one_pass_sample :
    (∃ split active', assignTdma ⟨.uplink, .proportional 28, 1⟩ .maxRate 9 2 ratedContenders =
        .ok (split, active') ∧
      active' = ratedContenders.refill (Contest.onePass ⟨.uplink, .proportional 28, 1⟩ (.symbols 2) 9
        ratedContenders.flat) ∧
      Contest.RateFirst ⟨.uplink, .proportional 28, 1⟩ active'.flat ∧
      active'.flat.map (fun c => c.user.uplink.sym) = [0, 3, 6]) ∧
    ∃ split active', assignOfdma (.proportional 28) 1 .maxRate 9 5 ratedContenders =
        .ok (split, active') ∧
      List.Forall₂ (fun e e' => e'.1 = e.1 ∧
        e'.2 = (if split.of e.1 = 0 then e.2 else
          Contest.onePass ⟨.downlink, .proportional 28, 1⟩ (.band (split.of e.1)) 5 e.2) ∧
        Contest.RateFirst ⟨.downlink, .proportional 28, 1⟩ e'.2)
        ratedContenders.entries active'.entries ∧
      active'.flat.map (fun c => c.user.downlink.rbg) = [28, 7, 10] := by
  constructor
  · obtain ⟨hsucceeds, hpass⟩ :=
      (max_rate_is_one_pass ⟨.uplink, .proportional 28, 1⟩ 9 2 ratedContenders).1 (by decide)
    obtain ⟨⟨split, active'⟩, h⟩ := hsucceeds (by decide) (by decide)
    obtain ⟨hactive, hfirst⟩ := hpass split active' h
    have hrun : (assignTdma ⟨.uplink, .proportional 28, 1⟩ .maxRate 9 2
        ratedContenders).toOption.any (fun r =>
          r.2.flat.map (fun c => c.user.uplink.sym) = [0, 3, 6]) = true := by
      cbv
    rw [h] at hrun
    exact ⟨split, active', h, hactive, hfirst, by simpa [Except.toOption] using hrun⟩
  · obtain ⟨hsucceeds, hpass⟩ :=
      (max_rate_is_one_pass ⟨.uplink, .proportional 28, 1⟩ 9 5 ratedContenders).2 (by decide)
    obtain ⟨⟨split, active'⟩, h⟩ := hsucceeds (by decide) (by decide) (by decide) (by decide)
    have hrun : (assignOfdma (.proportional 28) 1 .maxRate 9 5
        ratedContenders).toOption.any (fun r =>
          r.2.flat.map (fun c => c.user.downlink.rbg) = [28, 7, 10]) = true := by
      cbv
    rw [h] at hrun
    exact ⟨split, active', h, hpass split active' h, by simpa [Except.toOption] using hrun⟩

/-- One pass would give the symbols of an empty band away, although they carry nothing. -/
theorem empty_band_is_not_assigned :
    (∀ c ∈ ratedContenders.flat, (c.user.link .uplink).resources = ⟨0, 0⟩) ∧
      assignTdma ⟨.uplink, .proportional 28, 1⟩ .maxRate 9 0 ratedContenders =
        .ok (∅, ratedContenders) ∧
      (Contest.onePass ⟨.uplink, .proportional 28, 1⟩ (.symbols 0) 9 ratedContenders.flat).map
        (fun c => c.user.uplink.sym) = [0, 9, 0] := by
  refine ⟨by decide, rfl, ?_⟩
  cbv

end Airtime
