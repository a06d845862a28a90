import Airtime.Allocation.Tdma
import Airtime.Allocation.Ofdma
import Airtime.Proofs.Apportion

/-! What an allocation hands out. Rounds keep every contender and change nothing of it but its
resources and throughput; each round grants one unit, so the units of all contenders together are
never more than the rounds. -/

namespace Airtime

@[simp] theorem User.setLink_link (u : User) (d : Direction) : u.setLink d (u.link d) = u := by
  cases d <;> rfl

@[simp] theorem User.setLink_setLink (u : User) (d : Direction) (s t : LinkState) :
    (u.setLink d s).setLink d t = u.setLink d t := by cases d <;> rfl

namespace Contender

theorem modify_self (d : Direction) (c : Contender) : c.modify d (fun s => s) = c := by
  rw [modify, User.modify, User.setLink_link]

def allot (d : Direction) (c : Contender) (rbg sym : UInt32) (throughput : Throughput) :
    Contender :=
  c.modify d ({ · with rbg, sym, throughput })

/-- An allocation may turn the first contender into the second one. -/
def Allotted (d : Direction) (c c' : Contender) : Prop :=
  ∃ rbg sym throughput, c' = c.allot d rbg sym throughput

variable {d : Direction} {c c' c'' : Contender}

theorem link_allot (rbg sym : UInt32) (t : Throughput) : (c.allot d rbg sym t).user.link d =
    { c.user.link d with rbg, sym, throughput := t } := by
  simp [allot, modify, User.modify]

theorem Allotted.refl (d : Direction) (c : Contender) : Allotted d c c :=
  ⟨(c.user.link d).rbg, (c.user.link d).sym, (c.user.link d).throughput,
    (modify_self d c).symm⟩

theorem Allotted.trans (h : Allotted d c c') (h' : Allotted d c' c'') : Allotted d c c'' := by
  obtain ⟨_, _, _, rfl⟩ := h
  obtain ⟨rbg, sym, t, rfl⟩ := h'
  exact ⟨rbg, sym, t, by simp [allot, modify, User.modify]⟩

theorem Allotted.rnti (h : Allotted d c c') : c'.user.rnti = c.user.rnti := by
  obtain ⟨_, _, _, rfl⟩ := h
  simp [allot, modify, User.modify]

theorem Allotted.beam (h : Allotted d c c') : c'.user.beam = c.user.beam := by
  obtain ⟨_, _, _, rfl⟩ := h
  simp [allot, modify, User.modify]

def Noted (d : Direction) (c c' : Contender) : Prop :=
  ∃ t, c' = c.modify d ({ · with throughput := t })

theorem Noted.refl (d : Direction) (c : Contender) : Noted d c c :=
  ⟨(c.user.link d).throughput, (modify_self d c).symm⟩

theorem Noted.modify (d : Direction) (c : Contender) (f : LinkState → Throughput) :
    Noted d c (c.modify d fun s => { s with throughput := f s }) := ⟨f (c.user.link d), rfl⟩

theorem Noted.allotted (h : Noted d c c') : Allotted d c c' := by
  obtain ⟨t, rfl⟩ := h
  exact ⟨(c.user.link d).rbg, (c.user.link d).sym, t, rfl⟩

end Contender

namespace Policy

variable {p : Policy} {k : Contest} {c c' : Contender}

theorem prepare_noted {assignable : Resources} (h : p.prepare k assignable c = .ok c') :
    Contender.Noted k.direction c c' := by
  cases p with
  | proportionalFair window fairness =>
    simp only [prepare, bind_ok_iff, pure_ok_iff] at h
    obtain ⟨units, -, rfl⟩ := h
    exact .modify _ _ _
  | roundRobin =>
    cases h
    exact .refl _ _
  | maxRate =>
    cases h
    exact .refl _ _

theorem recordGrant_noted (h : p.recordGrant k c = .ok c') :
    Contender.Noted k.direction c c' := by
  cases p with
  | proportionalFair window fairness =>
    simp only [recordGrant, bind_ok_iff, pure_ok_iff] at h
    obtain ⟨bytes, -, rfl⟩ := h
    exact .modify _ _ _
  | roundRobin =>
    cases h
    exact .refl _ _
  | maxRate =>
    cases h
    exact .refl _ _

theorem recordMiss_noted (p : Policy) (k : Contest) (c : Contender) :
    Contender.Noted k.direction c (p.recordMiss k c) := by
  cases p with
  | proportionalFair window fairness => exact .modify _ _ _
  | roundRobin => exact .refl _ _
  | maxRate => exact .refl _ _

theorem noted_of_missed {wants : Bool} (h : c' = if wants then p.recordMiss k c else c) :
    Contender.Noted k.direction c c' := by
  rw [h]
  cases wants with
  | false => exact .refl _ _
  | true => exact recordMiss_noted p k c

end Policy

/-- A grantor that adds one unit to resources of the shape that it keeps. -/
structure Grantor.Counts (grant : Grantor) (shape : Resources → Prop) (units : Resources → Nat) :
    Prop where
  granted : ∀ {r r'}, shape r → grant r = .ok r' → shape r' ∧ units r' = units r + 1

theorem Grantor.toState_ok_iff {grant : Grantor} {s s' : LinkState} :
    grant.toState s = .ok s' ↔
      ∃ r, grant s.resources = .ok r ∧ { s with rbg := r.rbg, sym := r.sym } = s' := by
  simp only [toState, bind_ok_iff, pure_ok_iff]

theorem Contender.Noted.resources {d : Direction} {c c' : Contender} (h : Noted d c c') :
    (c'.user.link d).resources = (c.user.link d).resources := by
  obtain ⟨t, rfl⟩ := h
  rw [Contender.modify, User.modify, User.link_setLink]
  rfl

theorem Grantor.won {grant : Grantor} {p : Policy} {k : Contest} {c c' : Contender} {s : LinkState}
    (hs : grant.toState (c.user.link k.direction) = .ok s)
    (hw : p.recordGrant k { c with user := c.user.setLink k.direction s } = .ok c') :
    c.Allotted k.direction c' ∧
      grant (c.user.link k.direction).resources = .ok (c'.user.link k.direction).resources := by
  have hnoted := Policy.recordGrant_noted hw
  obtain ⟨r, hr, rfl⟩ := toState_ok_iff.mp hs
  refine ⟨Contender.Allotted.trans ⟨r.rbg, r.sym, (c.user.link k.direction).throughput, rfl⟩
    hnoted.allotted, ?_⟩
  rw [hnoted.resources, User.link_setLink, hr]
  rfl

namespace Contest

variable {k : Contest} {p : Policy} {grant : Grantor}

theorem marked_of_mapM {cs : List Seat} {marked : List (Seat × Bool)}
    (h : (k.rank p cs).mapM (fun s => do return (s, ← k.wants s.1)) = .ok marked) :
    marked.map Prod.fst = k.rank p cs ∧ ∀ m ∈ marked, k.wants m.1.1 = .ok m.2 := by
  have hread : List.Forall₂ (fun s m => m.1 = s ∧ k.wants m.1.1 = .ok m.2) (k.rank p cs) marked := by
    apply (mapM_ok_iff.mp h).imp
    intro s m hm
    simp only [bind_ok_iff, pure_ok_iff] at hm
    obtain ⟨wants, hwants, rfl⟩ := hm
    exact ⟨rfl, hwants⟩
  constructor
  · rw [map_eq_of_forall₂ (f := id) hread fun s m hm => hm.1, List.map_id]
  · intro m hm
    obtain ⟨s, -, -, hwants⟩ := exists_left_of_forall₂ hread hm
    exact hwants

/-- Those who are content, up to the first one that is not. -/
theorem split_marked (marked : List (Seat × Bool)) :
    ∃ content rest, marked = content ++ rest ∧ marked.takeWhile (fun m => !m.2) = content ∧
      marked.drop content.length = rest ∧ (∀ m ∈ content, m.2 = false) ∧
      ∀ m ∈ rest.head?, m.2 = true := by
  have hsplit := List.takeWhile_append_dropWhile (p := fun m : Seat × Bool => !m.2) (l := marked)
  have hcontent := List.all_eq_true.mp (List.all_takeWhile (l := marked)
    (p := fun m : Seat × Bool => !m.2))
  refine ⟨_, marked.dropWhile fun m => !m.2, hsplit.symm, rfl, ?_, fun m hm => ?_, fun m hm => ?_⟩
  · conv_lhs =>
      arg 2
      rw [← hsplit]
    exact List.drop_left
  · simpa using hcontent m hm
  · have hhead := List.head?_dropWhile_not (fun m : Seat × Bool => !m.2) marked
    rw [Option.mem_def.mp hm] at hhead
    simpa using hhead

/-- One round: in the order of the policy, those before the winner are content, and it is not; those
after it are noted down as having missed the unit if they wanted it. -/
theorem round_cases {total total' : Resources} {cs cs' : List Seat} {beam : BeamId}
    (h : k.round p grant total cs = .ok (some (beam, total', cs'))) :
    ∃ content winner place others others' s w,
      k.rank p cs = content ++ (winner, place) :: others ∧
      (∀ x ∈ content, k.wants x.1 = .ok false) ∧ k.wants winner = .ok true ∧
      cs' = content ++ (w, place) :: others' ∧ beam = w.user.beam ∧ grant total = .ok total' ∧
      grant.toState (winner.user.link k.direction) = .ok s ∧
      p.recordGrant k { winner with user := winner.user.setLink k.direction s } = .ok w ∧
      List.Forall₂ (fun x x' => x'.2 = x.2 ∧ ∃ wants, k.wants x.1 = .ok wants ∧
        x'.1 = if wants then p.recordMiss k x.1 else x.1) others others' := by
  unfold round at h
  obtain ⟨marked, hmapped, h⟩ := bind_ok_iff.mp h
  obtain ⟨hfst, hall⟩ := marked_of_mapM hmapped
  obtain ⟨content, rest, rfl, htake, hdrop, hcontent, hhead⟩ := split_marked marked
  simp only [htake, hdrop] at h
  cases rest with
  | nil => cases h
  | cons m others =>
    obtain ⟨⟨winner, place⟩, wants⟩ := m
    simp only [bind_ok_iff, pure_ok_iff, Option.some.injEq, Prod.mk.injEq] at h
    obtain ⟨s, hs, total₁, htotal, w, hw, rfl, rfl, rfl⟩ := h
    have hwants : wants = true := hhead ((winner, place), wants) rfl
    refine ⟨content.map Prod.fst, winner, place, others.map Prod.fst, _, s, w, ?_, ?_, ?_, rfl, rfl,
      htotal, hs, hw, ?_⟩
    · rw [← hfst, List.map_append, List.map_cons]
    · intro x hx
      obtain ⟨m, hm, rfl⟩ := List.mem_map.mp hx
      rw [hall m (by simp [hm]), hcontent m hm]
    · rw [← hwants]
      exact hall ((winner, place), wants) (by simp)
    · rw [List.forall₂_map_left_iff, List.forall₂_map_right_iff, List.forall₂_same]
      intro m hm
      exact ⟨rfl, m.2, hall m (by simp [hm]), rfl⟩

theorem content_of_round {total : Resources} {cs : List Seat}
    (h : k.round p grant total cs = .ok none) : ∀ x ∈ cs, k.wants x.1 = .ok false := by
  unfold round at h
  obtain ⟨marked, hmapped, h⟩ := bind_ok_iff.mp h
  obtain ⟨hfst, hall⟩ := marked_of_mapM hmapped
  obtain ⟨content, rest, rfl, htake, hdrop, hcontent, -⟩ := split_marked marked
  simp only [htake, hdrop] at h
  cases rest with
  | cons m others =>
    simp only [bind_ok_iff, pure_ok_iff] at h
    obtain ⟨_, -, _, -, _, -, h⟩ := h
    cases h
  | nil =>
    intro x hx
    rw [← (List.mergeSort_perm _ _).mem_iff, ← rank, ← hfst, List.append_nil] at hx
    obtain ⟨m, hm, rfl⟩ := List.mem_map.mp hx
    rw [hall m (by simp [hm]), hcontent m hm]

/-- What every round keeps holds after the last one. If rounds are left by then, nobody has won the
next one. -/
theorem rounds_keeps {I : Nat → List Seat → BeamSymbols → Prop} {m j : Nat} {total : Resources}
    {cs cs' : List Seat} {won won' : BeamSymbols}
    (h : k.rounds p grant m total cs won = .ok (cs', won')) (hI : I j cs won)
    (step : ∀ {j total total' cs cs' beam won won'}, I j cs won →
      k.round p grant total cs = .ok (some (beam, total', cs')) → won.give beam 1 = .ok won' →
      I (j + 1) cs' won') :
    ∃ i, j ≤ i ∧ i ≤ j + m ∧ I i cs' won' ∧
      (i < j + m → ∃ total, k.round p grant total cs' = .ok none) := by
  induction m generalizing j total cs won with
  | zero =>
    cases h
    exact ⟨j, le_rfl, le_rfl, hI, fun hlt => absurd hlt (Nat.lt_irrefl _)⟩
  | succ m ih =>
    simp only [rounds, bind_ok_iff] at h
    obtain ⟨r, hr, h⟩ := h
    cases r with
    | none =>
      cases h
      exact ⟨j, le_rfl, by omega, hI, fun _ => ⟨total, hr⟩⟩
    | some r =>
      simp only [bind_ok_iff] at h
      obtain ⟨won₁, hgive, h⟩ := h
      obtain ⟨i, hji, him, hend, hrest⟩ := ih h (step hI hr hgive)
      exact ⟨i, by omega, by omega, hend, fun hlt => hrest (by omega)⟩

/-- Seats after some rounds: everybody who started has one, with resources of the shape that the grantor
keeps, and together they hold `n` units. -/
structure Seated (k : Contest) (shape : Resources → Prop) (units : Resources → Nat)
    (start : List Contender) (n : Nat) (cs : List Seat) : Prop where
  places : (cs.map Prod.snd).Perm (List.range start.length)
  allotted : ∀ x ∈ cs, ∃ c, start[x.2]? = some c ∧ c.Allotted k.direction x.1
  shaped : ∀ x ∈ cs, shape (x.1.user.link k.direction).resources
  units_eq : (cs.map fun x => units (x.1.user.link k.direction).resources).sum = n

variable {shape : Resources → Prop} {units : Resources → Nat} {start : List Contender} {n : Nat}

theorem Seated.perm {cs cs' : List Seat} (h : k.Seated shape units start n cs)
    (hp : cs'.Perm cs) : k.Seated shape units start n cs' where
  places := (hp.map _).trans h.places
  allotted x hx := h.allotted x (hp.mem_iff.mp hx)
  shaped x hx := h.shaped x (hp.mem_iff.mp hx)
  units_eq := by
    rw [(hp.map _).sum_eq]
    exact h.units_eq

/-- A seat after a round: the same place, with a contender that is still in shape. -/
def Kept (k : Contest) (shape : Resources → Prop) (x x' : Seat) : Prop :=
  x'.2 = x.2 ∧ x.1.Allotted k.direction x'.1 ∧ shape (x'.1.user.link k.direction).resources

theorem Seated.replace {cs cs' : List Seat} {m : Nat} (h : k.Seated shape units start n cs)
    (hkept : List.Forall₂ (Kept k shape) cs cs')
    (hm : (cs'.map fun x => units (x.1.user.link k.direction).resources).sum = m) :
    k.Seated shape units start m cs' where
  places := map_eq_of_forall₂ hkept (fun x x' hx => hx.1) ▸ h.places
  allotted x' hx' := by
    obtain ⟨x, hx, hplace, hallotted, -⟩ := exists_left_of_forall₂ hkept hx'
    obtain ⟨c, hc, hcx⟩ := h.allotted x hx
    exact ⟨c, hplace ▸ hc, hcx.trans hallotted⟩
  shaped x' hx' := by
    obtain ⟨x, -, -, -, hshape⟩ := exists_left_of_forall₂ hkept hx'
    exact hshape
  units_eq := hm

theorem seated_start {ready : List Contender} (hready : ∀ c ∈ ready,
    shape (c.user.link k.direction).resources ∧ units (c.user.link k.direction).resources = 0) :
    k.Seated shape units ready 0 ready.zipIdx where
  places := by rw [List.zipIdx_map_snd, List.range_eq_range']
  allotted x hx := ⟨x.1, List.mem_zipIdx_iff_getElem?.mp hx, .refl _ _⟩
  shaped x hx := (hready x.1 (List.fst_mem_of_mem_zipIdx hx)).1
  units_eq := by
    refine List.sum_eq_zero fun m hm => ?_
    obtain ⟨x, hx, rfl⟩ := List.mem_map.mp hm
    exact (hready x.1 (List.fst_mem_of_mem_zipIdx hx)).2

theorem perm_rank (k : Contest) (p : Policy) (cs : List Seat) : (k.rank p cs).Perm cs :=
  List.mergeSort_perm _ _

theorem Seated.round (counts : grant.Counts shape units) {total total' : Resources}
    {cs cs' : List Seat} {beam : BeamId} (hcs : k.Seated shape units start n cs)
    (h : k.round p grant total cs = .ok (some (beam, total', cs'))) :
    k.Seated shape units start (n + 1) cs' := by
  obtain ⟨content, winner, place, others, others', s, w, hrank, -, -, rfl, -, -, hs, hw, hothers⟩ :=
    round_cases h
  have hcs := hcs.perm (perm_rank k p cs)
  rw [hrank] at hcs
  obtain ⟨hwon, hgrant⟩ := Grantor.won hs hw
  obtain ⟨hshape, hunits⟩ := counts.granted (hcs.shaped (winner, place) (by simp)) hgrant
  have hkept : ∀ x ∈ content, Kept k shape x x := fun x hx =>
    ⟨rfl, .refl _ _, hcs.shaped x (by simp [hx])⟩
  have hmissed : List.Forall₂ (fun x x' => Kept k shape x x' ∧
      units (x'.1.user.link k.direction).resources = units (x.1.user.link k.direction).resources) others others' := by
    have hshaped : ∀ x ∈ others, shape (x.1.user.link k.direction).resources := fun x hx =>
      hcs.shaped x (by simp [hx])
    apply ((List.forall₂_and_left others others').mpr ⟨hshaped, hothers⟩).imp
    intro x x' hx
    obtain ⟨hx, hplace, wants, -, hmissed⟩ := hx
    have hnoted := Policy.noted_of_missed hmissed
    exact ⟨⟨hplace, hnoted.allotted, by rwa [hnoted.resources]⟩, by rw [hnoted.resources]⟩
  refine hcs.replace (List.rel_append (List.forall₂_same.mpr hkept)
    (.cons ⟨rfl, hwon, hshape⟩ (hmissed.imp fun x x' hx => hx.1))) ?_
  have hsame := map_eq_of_forall₂ (f := fun x : Seat => units (x.1.user.link k.direction).resources)
    (g := fun x : Seat => units (x.1.user.link k.direction).resources) hmissed fun x x' hx => hx.2
  have heq := hcs.units_eq
  simp only [List.map_append, List.map_cons, List.sum_append, List.sum_cons, hunits,
    hsame] at heq ⊢
  omega

theorem Seated.rounds (counts : grant.Counts shape units) {m : Nat} {cs cs' : List Seat}
    {total : Resources} {won won' : BeamSymbols} (hcs : k.Seated shape units start n cs)
    (h : k.rounds p grant m total cs won = .ok (cs', won')) :
    ∃ i ≤ n + m, k.Seated shape units start i cs' := by
  obtain ⟨i, -, him, hend, -⟩ := rounds_keeps (I := fun i cs _ => k.Seated shape units start i cs) h
    hcs fun hcs hr _ => hcs.round counts hr
  exact ⟨i, him, hend⟩

theorem Seated.forall₂ {cs : List Seat} (hcs : k.Seated shape units start n cs)
    (sorted : (cs.map Prod.snd).Pairwise (· ≤ ·)) :
    List.Forall₂ (Contender.Allotted k.direction) start (cs.map Prod.fst) := by
  have hplaces : cs.map Prod.snd = List.range start.length :=
    hcs.places.eq_of_pairwise (fun a b _ _ => Nat.le_antisymm) sorted List.pairwise_le_range
  have hlen : cs.length = start.length := by simpa using congrArg List.length hplaces
  refine List.forall₂_iff_get.mpr ⟨by simp [hlen], ?_⟩
  intro i hi hi'
  have hics : i < cs.length := by omega
  obtain ⟨c, hc, hallotted⟩ := hcs.allotted cs[i] (List.getElem_mem hics)
  have hplace : (cs[i]).2 = i := by
    have := congrArg (·[i]?) hplaces
    simpa [hics, hi] using this
  rw [hplace, List.getElem?_eq_getElem hi, Option.some.injEq] at hc
  simpa [← hc] using hallotted

theorem empty_of_prepare {assignable : Resources} {cs ready : List Contender}
    (h : cs.mapM (p.prepare k assignable) = .ok ready)
    (hcs : ∀ c ∈ cs, shape (c.user.link k.direction).resources ∧
      units (c.user.link k.direction).resources = 0) :
    ∀ c ∈ ready, shape (c.user.link k.direction).resources ∧
      units (c.user.link k.direction).resources = 0 := by
  intro c' hc'
  obtain ⟨c, hc, hprepare⟩ := (mem_mapM_ok h).mp hc'
  rw [(Policy.prepare_noted hprepare).resources]
  exact hcs c hc

/-- What every round keeps holds in the end, when the contenders hold one unit for each round. If rounds
are left by then, everybody is content. -/
theorem run_keeps {I : Nat → List Seat → BeamSymbols → Prop} (counts : grant.Counts shape units)
    {assignable : Resources} {m : UInt32} {cs cs' : List Contender} {won : BeamSymbols}
    (hcs : ∀ c ∈ cs, shape (c.user.link k.direction).resources ∧
      units (c.user.link k.direction).resources = 0)
    (h : k.run p grant assignable m cs = .ok (cs', won))
    (hstart : ∀ ready : List Contender,
      (∀ c ∈ ready, units (c.user.link k.direction).resources = 0) → I 0 ready.zipIdx ∅)
    (step : ∀ {start j total total' seats seats' beam won won'},
      k.Seated shape units start j seats → I j seats won →
      k.round p grant total seats = .ok (some (beam, total', seats')) →
      won.give beam 1 = .ok won' → I (j + 1) seats' won') :
    ∃ i seats, i ≤ m.toNat ∧ I i seats won ∧ cs'.Perm (seats.map Prod.fst) ∧
      (cs'.map fun c => units (c.user.link k.direction).resources).sum = i ∧
      (i < m.toNat → ∀ c ∈ cs', k.wants c = .ok false) := by
  simp only [run, bind_ok_iff, pure_ok_iff, Prod.mk.injEq] at h
  obtain ⟨ready, hready, ⟨seats, won'⟩, hrounds, rfl, rfl⟩ := h
  have hempty := empty_of_prepare hready hcs
  obtain ⟨i, -, hle, ⟨hseated, hI⟩, hrest⟩ := rounds_keeps
    (I := fun i seats won => k.Seated shape units ready i seats ∧ I i seats won) hrounds
    ⟨seated_start hempty, hstart ready fun c hc => (hempty c hc).2⟩
    fun hI hr hgive => ⟨hI.1.round counts hr, step hI.1 hI.2 hr hgive⟩
  rw [Nat.zero_add] at hle hrest
  have hperm := (List.mergeSort_perm seats fun a b => a.2 ≤ b.2).map Prod.fst
  refine ⟨i, seats, hle, hI, hperm, ?_, fun hlt c hc => ?_⟩
  · rw [(hperm.map _).sum_eq, List.map_map]
    exact hseated.units_eq
  · obtain ⟨_, hnone⟩ := hrest hlt
    obtain ⟨x, hx, rfl⟩ := List.mem_map.mp (hperm.mem_iff.mp hc)
    exact content_of_round hnone x hx

theorem run_ok (counts : grant.Counts shape units) {assignable : Resources} {n : UInt32}
    {cs cs' : List Contender} {won : BeamSymbols}
    (hcs : ∀ c ∈ cs, shape (c.user.link k.direction).resources ∧ units (c.user.link k.direction).resources = 0)
    (h : k.run p grant assignable n cs = .ok (cs', won)) :
    List.Forall₂ (Contender.Allotted k.direction) cs cs' ∧
      (∀ c ∈ cs', shape (c.user.link k.direction).resources) ∧
      (cs'.map fun c => units (c.user.link k.direction).resources).sum ≤ n.toNat := by
  simp only [run, bind_ok_iff, pure_ok_iff, Prod.mk.injEq] at h
  obtain ⟨ready, hready, ⟨seats, won'⟩, hrounds, rfl, rfl⟩ := h
  have hnoted : List.Forall₂ (Contender.Noted k.direction) cs ready :=
    (mapM_ok_iff.mp hready).imp fun c c' hc => Policy.prepare_noted hc
  obtain ⟨i, hi, hend⟩ := (seated_start (empty_of_prepare hready hcs)).rounds counts hrounds
  have hend := hend.perm (List.mergeSort_perm seats fun a b => a.2 ≤ b.2)
  have hsorted : (seats.mergeSort fun a b => a.2 ≤ b.2).Pairwise fun a b => decide (a.2 ≤ b.2) :=
    List.pairwise_mergeSort (fun a b c hab hbc => by simp at hab hbc ⊢; omega)
      (fun a b => by simp; omega) seats
  have hsorted : ((seats.mergeSort fun a b => a.2 ≤ b.2).map Prod.snd).Pairwise (· ≤ ·) :=
    List.pairwise_map.mpr (hsorted.imp fun hab => by simpa using hab)
  refine ⟨?_, fun c hc => ?_, ?_⟩
  · exact forall₂_trans hnoted (hend.forall₂ hsorted) fun a b c hab hbc => hab.allotted.trans hbc
  · obtain ⟨x, hx, rfl⟩ := List.mem_map.mp hc
    exact hend.shaped x hx
  · have heq := hend.units_eq
    rw [List.map_map]
    simp only [Function.comp_def, heq]
    omega

end Contest

namespace Contenders

/-- Beam by beam and contender by contender, the first table may turn into the second one. -/
def Allotted (d : Direction) (t t' : Contenders) : Prop :=
  List.Forall₂ (fun e e' => e'.1 = e.1 ∧ List.Forall₂ (Contender.Allotted d) e.2 e'.2)
    t.entries t'.entries

theorem Allotted.refl (d : Direction) (t : Contenders) : Allotted d t t :=
  List.forall₂_same.mpr fun _ _ => ⟨rfl, List.forall₂_same.mpr fun c _ => .refl d c⟩

theorem Allotted.flat {d : Direction} {t t' : Contenders} (h : Allotted d t t') :
    List.Forall₂ (Contender.Allotted d) t.flat t'.flat := by
  apply List.rel_flatten
  exact List.forall₂_map_left_iff.mpr (List.forall₂_map_right_iff.mpr (h.imp fun _ _ he => he.2))

theorem refillList {R : Contender → Contender → Prop} (l : List (BeamId × List Contender))
    {cs : List Contender} (h : List.Forall₂ R (l.map Prod.snd).flatten cs) :
    let r := (Table.walkList (m := Id)
      (fun rest _ old => (rest.drop old.length, rest.take old.length)) cs l).2.1
    List.Forall₂ (fun e e' => e'.1 = e.1 ∧ List.Forall₂ R e.2 e'.2) l r ∧
      (r.map Prod.snd).flatten = cs := by
  induction l generalizing cs with
  | nil =>
    cases h
    exact ⟨.nil, rfl⟩
  | cons e l ih =>
    obtain ⟨beam, old⟩ := e
    have hlen : old.length ≤ cs.length := by
      rw [← h.length_eq]
      simp
    have htake := List.forall₂_take old.length h
    have hdrop := List.forall₂_drop old.length h
    rw [List.map_cons, List.flatten_cons, List.take_left] at htake
    rw [List.map_cons, List.flatten_cons, List.drop_left] at hdrop
    obtain ⟨hrest, hflat⟩ := ih hdrop
    refine ⟨.cons ⟨rfl, htake⟩ hrest, ?_⟩
    exact (congrArg (cs.take old.length ++ ·) hflat).trans (List.take_append_drop _ _)

/-- Contenders that are put back go to the beams that they came from. -/
theorem refill_ok {d : Direction} {t : Contenders} {cs : List Contender}
    (h : List.Forall₂ (Contender.Allotted d) t.flat cs) :
    t.Allotted d (t.refill cs) ∧ (t.refill cs).flat = cs := refillList t.entries h

theorem refill_flat (t : Contenders) : t.refill t.flat = t := by
  have hrefill : List.Forall₂ (fun e e' => e'.1 = e.1 ∧ List.Forall₂ Eq e.2 e'.2) t.entries
      (t.refill t.flat).entries :=
    (refillList t.entries (List.forall₂_same.mpr fun _ _ => rfl)).1
  have hentries : List.Forall₂ Eq t.entries (t.refill t.flat).entries := by
    refine hrefill.imp fun e e' ⟨hbeam, hsame⟩ => Prod.ext hbeam.symm ?_
    rwa [List.forall₂_eq_eq_eq] at hsame
  rw [List.forall₂_eq_eq_eq] at hentries
  obtain ⟨entries, _⟩ := t
  exact (Table.mk.injEq ..).mpr hentries.symm

theorem flat_upsert (beam : BeamId) (cs : List Contender) {l : List (BeamId × List Contender)}
    (hl : (l.map Prod.fst).Pairwise (Key.rank · < Key.rank ·)) :
    (((Table.upsert beam cs l).map Prod.snd).flatten ++ (Table.lookup beam l).getD []).Perm
      ((l.map Prod.snd).flatten ++ cs) := by
  induction l with
  | nil => simp [Table.upsert, Table.lookup]
  | cons e l ih =>
    obtain ⟨beam', old⟩ := e
    simp only [List.map_cons, List.pairwise_cons] at hl
    rw [Table.upsert, Table.lookup]
    split
    · next hlt =>
      have hnone : Table.lookup beam l = none :=
        Table.lookup_eq_none.mpr fun hin => absurd (hl.1 beam hin) (by omega)
      rw [if_neg (by omega), hnone]
      simpa using (List.perm_append_comm : (cs ++ (old ++ (l.map Prod.snd).flatten)).Perm _)
    · split
      · next heq =>
        simp only [List.map_cons, List.flatten_cons, Option.getD_some]
        rw [List.append_assoc old]
        exact List.perm_append_comm.trans (List.perm_append_comm.append_left old)
      · simpa using (ih hl.2).append_left old

theorem flat_join (t : Contenders) (beam : BeamId) (c : Contender) :
    (flat (t.insert beam ((t.get? beam).getD [] ++ [c]))).Perm (t.flat ++ [c]) := by
  have h := flat_upsert beam ((t.get? beam).getD [] ++ [c]) t.ascending
  have h' := h.trans (List.perm_append_comm.append_left t.flat)
  rw [← List.append_assoc t.flat] at h'
  exact (List.perm_append_right_iff _).mp h'

theorem flat_ofList (cs : List Contender) : (ofList cs).flat.Perm cs := by
  have hfold : ∀ t : Contenders, (flat (cs.foldl (fun t c => t.insert c.user.beam
      ((t.get? c.user.beam).getD [] ++ [c])) t)).Perm (t.flat ++ cs) := by
    induction cs with
    | nil => simp
    | cons c cs ih =>
      intro t
      refine (ih _).trans (((flat_join t c.user.beam c).append_right cs).trans ?_)
      simp
  exact hfold ∅

/-- Everybody in the list of a beam is a user of this beam. -/
def ByBeam (t : Contenders) : Prop :=
  ∀ beam l, t.get? beam = some l → ∀ c ∈ l, c.user.beam = beam

theorem byBeam_ofList (cs : List Contender) : (ofList cs).ByBeam := by
  have hfold : ∀ t : Contenders, t.ByBeam → ByBeam (cs.foldl (fun t c => t.insert c.user.beam
      ((t.get? c.user.beam).getD [] ++ [c])) t) := by
    induction cs with
    | nil => exact fun t ht => ht
    | cons c cs ih =>
      intro t ht
      apply ih _
      intro beam l hl c' hc'
      rw [Table.get?_insert_if] at hl
      split at hl
      · next hb =>
        subst hb
        cases hl
        rcases List.mem_append.mp hc' with hc' | hc'
        · cases hold : t.get? c.user.beam with
          | none => simp [hold] at hc'
          | some old => exact ht _ old hold c' (by simpa [hold] using hc')
        · rw [List.mem_singleton.mp hc']
      · exact ht beam l hl c' hc'
  exact hfold ∅ fun beam l hl => by cases hl

theorem ByBeam.of_allotted {d : Direction} {t t' : Contenders} (ht : t.ByBeam)
    (h : t.Allotted d t') : t'.ByBeam := by
  intro beam l' hl' c' hc'
  obtain ⟨⟨beam₀, l⟩, hl, rfl, hall⟩ := exists_left_of_forall₂ h (Table.mem_entries.mpr hl')
  obtain ⟨c, hc, hcc⟩ := exists_left_of_forall₂ hall hc'
  rw [hcc.beam]
  exact ht _ l (Table.mem_entries.mp hl) c hc

theorem mem_flat {t : Contenders} {c : Contender} :
    c ∈ t.flat ↔ ∃ e ∈ t.entries, c ∈ e.2 := by
  simp only [flat, Table.values, List.mem_flatten, List.mem_map]
  constructor
  · rintro ⟨l, ⟨e, he, rfl⟩, hc⟩
    exact ⟨e, he, hc⟩
  · rintro ⟨e, he, hc⟩
    exact ⟨e.2, ⟨e, he, rfl⟩, hc⟩

theorem sum_flat (t : Contenders) (f : Contender → Nat) :
    (t.flat.map f).sum = (t.entries.map fun e => (e.2.map f).sum).sum := by
  rw [flat, Table.values, List.map_flatten, List.sum_flatten, List.map_map, List.map_map]
  rfl

end Contenders

theorem counts_grantSymbol (groups : UInt32) : (grantSymbol groups).Counts
    (fun r => r.rbg.toNat = r.sym.toNat * groups.toNat) (fun r => r.sym.toNat) where
  granted {r r'} hr h := by
    simp only [grantSymbol, bind_ok_iff, Word.add_eq_ok, Word.toNat_uint32, pure_ok_iff] at h
    obtain ⟨rbg, hrbg, sym, hsym, rfl⟩ := h
    rw [UInt32.toNat_one] at hsym
    refine ⟨?_, hsym⟩
    simp only [hrbg, hsym, hr, Nat.add_mul, Nat.one_mul]

theorem band_start {d : Direction} {cs : List Contender}
    (hstart : ∀ c ∈ cs, (c.user.link d).rbg = 0 ∧ (c.user.link d).sym = 0) (groups : UInt32) :
    ∀ c ∈ cs, (c.user.link d).rbg.toNat = (c.user.link d).sym.toNat * groups.toNat ∧
      (c.user.link d).sym.toNat = 0 := by
  intro c hc
  obtain ⟨hrbg, hsym⟩ := hstart c hc
  simp [hrbg, hsym]

section Symbols

variable {k : Contest} {p : Policy} {symbols groups : UInt32} {active active' : Contenders}
  {split : BeamSymbols}

theorem assignTdma_cases (h : assignTdma k p symbols groups active = .ok (split, active')) :
    ((active.flat = [] ∨ symbols = 0 ∨ groups = 0) ∧ split = ∅ ∧ active' = active) ∨
      groups ≠ 0 ∧ ∃ assignable cs, k.run p (grantSymbol groups) assignable symbols active.flat =
        .ok (cs, split) ∧ active' = active.refill cs := by
  unfold assignTdma at h
  split at h
  · next hnothing =>
    cases h
    simp only [Bool.or_eq_true, List.isEmpty_iff, beq_iff_eq, or_assoc] at hnothing
    exact .inl ⟨hnothing, rfl, rfl⟩
  · next hsome =>
    simp only [Bool.or_eq_true, beq_iff_eq, not_or] at hsome
    simp only [bind_ok_iff, pure_ok_iff, Prod.mk.injEq] at h
    obtain ⟨units, -, ⟨cs, won⟩, hrun, rfl, rfl⟩ := h
    exact .inr ⟨hsome.2, _, cs, hrun, rfl⟩

/-- Everybody gets symbols over the whole band, and together no more of them than there are. -/
theorem assignTdma_ok (hstart : ∀ c ∈ active.flat, (c.user.link k.direction).rbg = 0 ∧
      (c.user.link k.direction).sym = 0)
    (h : assignTdma k p symbols groups active = .ok (split, active')) :
    active.Allotted k.direction active' ∧
      (∀ c ∈ active'.flat, (c.user.link k.direction).rbg.toNat =
        (c.user.link k.direction).sym.toNat * groups.toNat) ∧
      (active'.flat.map fun c => (c.user.link k.direction).sym.toNat).sum ≤ symbols.toNat := by
  have hzero := band_start hstart groups
  rcases assignTdma_cases h with ⟨-, -, rfl⟩ | ⟨-, _, cs, hrun, rfl⟩
  · refine ⟨.refl _ _, fun c hc => (hzero c hc).1, ?_⟩
    rw [List.sum_eq_zero]
    · exact Nat.zero_le _
    · intro m hm
      obtain ⟨c, hc, rfl⟩ := List.mem_map.mp hm
      exact (hzero c hc).2
  · obtain ⟨hallotted, hshape, hsum⟩ := Contest.run_ok (counts_grantSymbol groups) hzero hrun
    obtain ⟨hrefill, hflat⟩ := Contenders.refill_ok hallotted
    rw [hflat]
    exact ⟨hrefill, hshape, hsum⟩

end Symbols

theorem counts_grantGroup {symbols : UInt32} (h0 : symbols ≠ 0) : (grantGroup symbols).Counts
    (fun r => symbols.toNat ∣ r.rbg.toNat ∧ (r.rbg ≠ 0 → r.sym = symbols))
    (fun r => r.rbg.toNat / symbols.toNat) where
  granted {r r'} hr h := by
    simp only [grantGroup, bind_ok_iff, Word.add_eq_ok, Word.toNat_uint32, pure_ok_iff] at h
    obtain ⟨rbg, hrbg, rfl⟩ := h
    refine ⟨⟨?_, fun _ => rfl⟩, ?_⟩
    · rw [hrbg]
      exact Nat.dvd_add_self_right.mpr hr.1
    · rw [hrbg]
      exact Nat.add_div_right _ (Word.toNat_pos h0)

/-- The contenders of a beam that has `symbols` symbols: whole groups over all these symbols, and
together no more than `groups` of them. -/
structure Ranged (d : Direction) (symbols groups : UInt32) (cs : List Contender) : Prop where
  whole : ∀ c ∈ cs, symbols.toNat ∣ (c.user.link d).rbg.toNat
  sym : ∀ c ∈ cs, (c.user.link d).rbg ≠ 0 → (c.user.link d).sym = symbols
  fits : (cs.map fun c => (c.user.link d).rbg.toNat / symbols.toNat).sum ≤ groups.toNat

theorem ranged_start {d : Direction} {cs : List Contender}
    (hstart : ∀ c ∈ cs, (c.user.link d).rbg = 0) (symbols groups : UInt32) :
    Ranged d symbols groups cs where
  whole c hc := by simp [hstart c hc]
  sym c hc h := absurd (hstart c hc) h
  fits := by
    rw [List.sum_eq_zero]
    · exact Nat.zero_le _
    · intro m hm
      obtain ⟨c, hc, rfl⟩ := List.mem_map.mp hm
      simp [hstart c hc]

theorem assignBeam_cases {k : Contest} {p : Policy} {symbols groups : UInt32}
    {cs cs' : List Contender} (h : assignBeam k p symbols groups cs = .ok cs') :
    (symbols = 0 ∨ groups = 0) ∧ cs' = cs ∨ symbols ≠ 0 ∧ groups ≠ 0 ∧
      ∃ assignable won, k.run p (grantGroup symbols) assignable groups cs = .ok (cs', won) := by
  unfold assignBeam at h
  split at h
  · next hnothing =>
    cases h
    exact .inl ⟨hnothing, rfl⟩
  · next hsome =>
    simp only [bind_ok_iff, pure_ok_iff] at h
    obtain ⟨units, -, ⟨cs', won⟩, hrun, rfl⟩ := h
    exact .inr ⟨fun h => hsome (.inl h), fun h => hsome (.inr h), _, won, hrun⟩

theorem assignBeam_ok {k : Contest} {p : Policy} {symbols groups : UInt32}
    {cs cs' : List Contender} (hstart : ∀ c ∈ cs, (c.user.link k.direction).rbg = 0)
    (h : assignBeam k p symbols groups cs = .ok cs') :
    List.Forall₂ (Contender.Allotted k.direction) cs cs' ∧
      Ranged k.direction symbols groups cs' := by
  rcases assignBeam_cases h with ⟨-, rfl⟩ | ⟨h0, -, _, _, hrun⟩
  · exact ⟨List.forall₂_same.mpr fun c _ => .refl _ c, ranged_start hstart symbols groups⟩
  · obtain ⟨hallotted, hshape, hsum⟩ := Contest.run_ok (counts_grantGroup h0)
      (fun c hc => by simp [LinkState.resources, hstart c hc]) hrun
    exact ⟨hallotted, fun c hc => (hshape c hc).1, fun c hc => (hshape c hc).2, hsum⟩

section Beams

variable {link : LinkModel} {blocksPerGroup symbols groups : UInt32} {p : Policy}
  {active active' : Contenders} {split : BeamSymbols}

theorem splitSymbols_cases (h : splitSymbols symbols active = .ok split) :
    ∃ weights, apportion symbols weights = .ok split ∧
      List.Forall₂ (fun e w => w.1 = e.1 ∧ w.2.toNat = (e.2.map fun c => c.backlog.toNat).sum)
        active.entries weights := by
  obtain ⟨weights, hweights, hsplit⟩ := bind_ok_iff.mp h
  refine ⟨weights, hsplit, (mapM_ok_iff.mp hweights).imp fun e w hw => ?_⟩
  obtain ⟨weight, hweight, hw⟩ := bind_ok_iff.mp hw
  obtain rfl := pure_ok_iff.mp hw
  refine ⟨rfl, (Word.sum_ok_iff.mp hweight).trans (congrArg List.sum ?_)⟩
  rw [List.map_map]
  rfl

theorem assignOfdma_cases
    (h : assignOfdma link blocksPerGroup p symbols groups active = .ok (split, active')) :
    splitSymbols symbols active = .ok split ∧
      List.Forall₂ (fun e e' => e'.1 = e.1 ∧
        assignBeam ⟨.downlink, link, blocksPerGroup⟩ p (split.of e.1) groups e.2 = .ok e'.2)
        active.entries active'.entries := by
  simp only [assignOfdma, bind_ok_iff, pure_ok_iff, Prod.mk.injEq] at h
  obtain ⟨split', hsplit, ⟨u, active₁⟩, hwalk, rfl, rfl⟩ := h
  refine ⟨hsplit, (Table.walk_ok hwalk).forall₂.imp fun e e' he => ?_⟩
  obtain ⟨hkey, _, _, hstep⟩ := he
  simp only [bind_ok_iff, pure_ok_iff, Prod.mk.injEq] at hstep
  obtain ⟨cs, hassign, -, rfl⟩ := hstep
  exact ⟨hkey, hassign⟩

/-- Beams get no more symbols than there are, and the users of a beam share its groups. -/
theorem assignOfdma_ok (hstart : ∀ c ∈ active.flat, (c.user.link .downlink).rbg = 0)
    (h : assignOfdma link blocksPerGroup p symbols groups active = .ok (split, active')) :
    active.Allotted .downlink active' ∧ split.sum ≤ symbols.toNat ∧
      ∀ e ∈ active'.entries, Ranged .downlink (split.of e.1) groups e.2 := by
  obtain ⟨hsplit, hbeams⟩ := assignOfdma_cases h
  obtain ⟨weights, hsplit, -⟩ := splitSymbols_cases hsplit
  have hall : List.Forall₂ (fun e e' => e'.1 = e.1 ∧
      List.Forall₂ (Contender.Allotted .downlink) e.2 e'.2 ∧
      Ranged .downlink (split.of e'.1) groups e'.2) active.entries active'.entries := by
    apply ((List.forall₂_and_left _ _).mpr ⟨fun e he => he, hbeams⟩).imp
    intro e e' he
    obtain ⟨he, hkey, hassign⟩ := he
    obtain ⟨hallotted, hranged⟩ := assignBeam_ok (fun c hc =>
      hstart c (Contenders.mem_flat.mpr ⟨e, he, hc⟩)) hassign
    exact ⟨hkey, hallotted, hkey ▸ hranged⟩
  refine ⟨hall.imp fun e e' he => ⟨he.1, he.2.1⟩, sum_apportion hsplit, ?_⟩
  intro e' he'
  obtain ⟨e, -, -, -, hranged⟩ := exists_left_of_forall₂ hall he'
  exact hranged

end Beams

end Airtime
