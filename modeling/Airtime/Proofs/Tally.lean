import Airtime.Proofs.Slot

/-! The rounds that each beam wins. A round grants one unit, so a beam has won as many rounds as its
contenders hold units. The first round is always won by somebody, since without any units nobody is
satisfied. -/

namespace Airtime

theorem Table.filter_entries {κ α : Type} [Key κ] [DecidableEq κ] (t : Table κ α) (k : κ) :
    t.entries.filter (·.1 = k) = (t.get? k).toList.map (k, ·) := by
  obtain ⟨l, hl⟩ := t
  rw [get?]
  induction l with
  | nil => rfl
  | cons e l ih =>
    obtain ⟨k', v⟩ := e
    rw [List.map_cons, List.pairwise_cons] at hl
    rw [lookup]
    by_cases hk : k' = k
    · subst hk
      have hnone : lookup k' l = none :=
        lookup_eq_none.mpr fun hin => absurd (hl.1 k' hin) (Nat.lt_irrefl _)
      have hrest := ih hl.2
      simp only [hnone] at hrest
      simpa using hrest
    · rw [if_neg fun hr => hk (Key.rank_inj hr).symm, List.filter_cons_of_neg (by simpa using hk)]
      exact ih hl.2

namespace BeamSymbols

theorem toNat_of_give {t t' : BeamSymbols} {beam : BeamId} {n : UInt32}
    (h : t.give beam n = .ok t') (other : BeamId) :
    (t'.of other).toNat = (t.of other).toNat + if other = beam then n.toNat else 0 := by
  simp only [give, bind_ok_iff, Word.add_eq_ok, Word.toNat_uint32, pure_ok_iff] at h
  obtain ⟨m, hm, rfl⟩ := h
  rw [of_insert]
  split
  · next hsame => rw [hm, hsame, of]
  · rfl

theorem toNat_of_foldlM_give {α : Type} {beam : α → BeamId} {n : α → UInt32} {l : List α}
    {t t' : BeamSymbols} (h : l.foldlM (fun (t : BeamSymbols) a => t.give (beam a) (n a)) t = .ok t')
    (other : BeamId) : (t'.of other).toNat =
      (t.of other).toNat + ((l.filter (beam · = other)).map fun a => (n a).toNat).sum := by
  induction l generalizing t with
  | nil =>
    cases pure_ok_iff.mp h
    simp
  | cons a l ih =>
    simp only [List.foldlM_cons, bind_ok_iff] at h
    obtain ⟨t₁, h₁, h⟩ := h
    rw [ih h, toNat_of_give h₁]
    by_cases ha : beam a = other
    · rw [if_pos ha.symm, List.filter_cons_of_pos (by simpa using ha), List.map_cons, List.sum_cons,
        Nat.add_assoc]
    · rw [if_neg (Ne.symm ha), List.filter_cons_of_neg (by simpa using ha), Nat.add_zero]

theorem sum_entries_of (t : BeamSymbols) (beam : BeamId) :
    ((t.entries.filter (·.1 = beam)).map (·.2.toNat)).sum = (t.of beam).toNat := by
  rw [Table.filter_entries, of]
  cases t.get? beam <;> simp

theorem of_apportion {total : UInt32} {weights : List (BeamId × UInt64)} {t : BeamSymbols}
    (h : apportion total weights = .ok t) {beam : BeamId} (hbeam : beam ∉ weights.map Prod.fst) :
    t.of beam = 0 := by
  obtain ⟨_, -, ⟨-, rfl⟩ | ⟨-, quotas, spare, floors, hquotas, -, hfloors, h⟩⟩ := apportion_cases h
  · exact of_noSymbols weights beam
  · have hlisted : ∀ q ∈ quotas, q.beam ≠ beam := by
      rintro q hq rfl
      obtain ⟨w, hw, hquota⟩ := (mem_mapM_ok hquotas).mp hq
      simp only [Quota.of, bind_ok_iff, pure_ok_iff] at hquota
      obtain ⟨_, -, _, -, _, -, rfl⟩ := hquota
      exact hbeam (List.mem_map_of_mem hw)
    have hfloors := toNat_of_foldlM_give hfloors beam
    have hranked := toNat_of_foldlM_give (n := fun _ => 1) h beam
    rw [List.filter_eq_nil_iff.mpr fun q hq => by simpa using hlisted q hq, of_noSymbols] at hfloors
    rw [List.filter_eq_nil_iff.mpr fun q hq => ?_, hfloors] at hranked
    · exact UInt32.toNat_inj.mp (by simpa using hranked)
    · have hq := (List.mergeSort_perm _ _).mem_iff.mp (List.mem_of_mem_take hq)
      simpa using hlisted q (List.mem_of_mem_filter hq)

end BeamSymbols

def Contender.unitsOn (d : Direction) (units : Resources → Nat) (beam : BeamId) (c : Contender) :
    Nat :=
  if c.user.beam = beam then units (c.user.link d).resources else 0

theorem Contender.sum_unitsOn {d : Direction} {units : Resources → Nat} {own beam : BeamId}
    {ks : List Contender} (hks : ∀ k ∈ ks, k.user.beam = own) :
    (ks.map (unitsOn d units beam)).sum =
      if own = beam then (ks.map fun k => units (k.user.link d).resources).sum else 0 := by
  split
  · next hb =>
    exact congrArg List.sum (List.map_congr_left fun k hk => if_pos ((hks k hk).trans hb))
  · next hb =>
    refine List.sum_eq_zero fun n hn => ?_
    obtain ⟨k, hk, rfl⟩ := List.mem_map.mp hn
    exact if_neg fun h => hb ((hks k hk).symm.trans h)

/-- Every beam has won the units of its contenders. -/
def Tallied (d : Direction) (units : Resources → Nat) (cs : List Contender) (won : BeamSymbols) :
    Prop :=
  ∀ beam, (won.of beam).toNat = (cs.map (Contender.unitsOn d units beam)).sum

theorem Tallied.perm {d : Direction} {units : Resources → Nat} {cs cs' : List Contender}
    {won : BeamSymbols} (h : Tallied d units cs won) (hp : cs'.Perm cs) : Tallied d units cs' won :=
  fun beam => (h beam).trans (hp.map _).sum_eq.symm

namespace Contest

variable {k : Contest} {p : Policy} {grant : Grantor} {shape : Resources → Prop}
  {units : Resources → Nat} {start : List Contender} {n : Nat}

/-- A round gives the unit of the winner to its beam. -/
theorem tallied_round (counts : grant.Counts shape units) {total total' : Resources}
    {cs cs' : List Seat} {beam : BeamId} {won won' : BeamSymbols}
    (hcs : k.Seated shape units start n cs) (ht : Tallied k.direction units (cs.map Prod.fst) won)
    (h : k.round p grant total cs = .ok (some (beam, total', cs')))
    (hgive : won.give beam 1 = .ok won') : Tallied k.direction units (cs'.map Prod.fst) won' := by
  obtain ⟨content, winner, place, others, others', s, w, hrank, -, -, rfl, rfl, -, hs, hw, hothers⟩ :=
    round_cases h
  have hperm := perm_rank k p cs
  have hcs := hcs.perm hperm
  have ht := ht.perm (hperm.map Prod.fst)
  rw [hrank] at hcs ht
  obtain ⟨hwon, hgrant⟩ := Grantor.won hs hw
  obtain ⟨-, hunits⟩ := counts.granted (hcs.shaped (winner, place) (by simp)) hgrant
  intro b
  have hsame : (others'.map Prod.fst).map (Contender.unitsOn k.direction units b) =
      (others.map Prod.fst).map (Contender.unitsOn k.direction units b) := by
    rw [List.map_map, List.map_map]
    refine map_eq_of_forall₂ hothers fun x x' hx => ?_
    obtain ⟨-, wants, -, hmissed⟩ := hx
    have hnoted := Policy.noted_of_missed hmissed
    simp only [Function.comp_apply, Contender.unitsOn, hnoted.resources, hnoted.allotted.beam]
  have hwinner : Contender.unitsOn k.direction units b w =
      Contender.unitsOn k.direction units b winner + if b = w.user.beam then 1 else 0 := by
    unfold Contender.unitsOn
    rw [hwon.beam, hunits]
    by_cases hb : winner.user.beam = b
    · rw [if_pos hb, if_pos hb, if_pos hb.symm]
    · rw [if_neg hb, if_neg hb, if_neg (Ne.symm hb)]
  have hold := ht b
  rw [BeamSymbols.toNat_of_give hgive, UInt32.toNat_one]
  simp only [List.map_append, List.map_cons, List.sum_append, List.sum_cons] at hold ⊢
  rw [hsame, hwinner]
  omega

theorem tallied_run (counts : grant.Counts shape units) {assignable : Resources} {m : UInt32}
    {cs cs' : List Contender} {won : BeamSymbols}
    (hcs : ∀ c ∈ cs, shape (c.user.link k.direction).resources ∧
      units (c.user.link k.direction).resources = 0)
    (h : k.run p grant assignable m cs = .ok (cs', won)) : Tallied k.direction units cs' won := by
  have hstart : ∀ ready : List Contender,
      (∀ c ∈ ready, units (c.user.link k.direction).resources = 0) →
      Tallied k.direction units (ready.zipIdx.map Prod.fst) ∅ := by
    intro ready hready beam
    rw [List.zipIdx_map_fst, eq_comm]
    refine List.sum_eq_zero fun x hx => ?_
    obtain ⟨c, hc, rfl⟩ := List.mem_map.mp hx
    rw [Contender.unitsOn, hready c hc, ite_self]
  obtain ⟨-, seats, -, htallied, hperm, -⟩ := run_keeps
    (I := fun _ seats won => Tallied k.direction units (seats.map Prod.fst) won) counts hcs h hstart
    fun hseated ht hr hgive => tallied_round counts hseated ht hr hgive
  exact htallied.perm hperm

theorem wants_of_zero {c : Contender} (h : (c.user.link k.direction).rbg = 0) :
    k.wants c = .ok true := by
  have hmin : (0 : UInt32) < max c.backlog minBlock := by
    rw [UInt32.lt_iff_toNat_lt, Word.toNat_max]
    exact Nat.lt_of_lt_of_le (by decide) (Nat.le_max_right _ _)
  rw [wants, achievable, LinkState.achievable, if_pos h]
  change Except.ok (decide ((0 : UInt32) < max c.backlog minBlock)) = _
  rw [decide_eq_true hmin]

theorem le_won {m : Nat} {total : Resources} {cs cs' : List Seat} {won won' : BeamSymbols}
    (h : k.rounds p grant m total cs won = .ok (cs', won')) (beam : BeamId) :
    (won.of beam).toNat ≤ (won'.of beam).toNat := by
  obtain ⟨-, -, -, hle, -⟩ := rounds_keeps
    (I := fun _ _ won' => (won.of beam).toNat ≤ (won'.of beam).toNat) (j := 0) h le_rfl
    fun hle _ hgive => by
      rw [BeamSymbols.toNat_of_give hgive]
      exact hle.trans (Nat.le_add_right _ _)
  exact hle

/-- Somebody gets a unit, if there is one to get and somebody to get it. -/
theorem exists_unit_of_run (counts : grant.Counts shape units) {assignable : Resources} {m : UInt32}
    {cs cs' : List Contender} {won : BeamSymbols} (hm : m ≠ 0) (hne : cs ≠ [])
    (hcs : ∀ c ∈ cs, (c.user.link k.direction).rbg = 0 ∧
      shape (c.user.link k.direction).resources ∧ units (c.user.link k.direction).resources = 0)
    (h : k.run p grant assignable m cs = .ok (cs', won)) :
    ∃ c ∈ cs', units (c.user.link k.direction).resources ≠ 0 := by
  have htallied := tallied_run counts (fun c hc => (hcs c hc).2) h
  simp only [run, bind_ok_iff, pure_ok_iff, Prod.mk.injEq] at h
  obtain ⟨ready, hready, ⟨seats, won'⟩, hrounds, hcs', rfl⟩ := h
  obtain ⟨c, hc⟩ := List.exists_mem_of_ne_nil cs hne
  obtain ⟨c₁, hc₁, hprepare⟩ := exists_of_mapM_ok hready hc
  have hzero : (c₁.user.link k.direction).rbg = 0 :=
    (congrArg Resources.rbg (Policy.prepare_noted hprepare).resources).trans (hcs c hc).1
  obtain ⟨i, hi⟩ := List.mem_iff_getElem?.mp hc₁
  have hseat : (c₁, i) ∈ ready.zipIdx := List.mem_zipIdx_iff_getElem?.mpr hi
  obtain ⟨m, hm'⟩ : ∃ n, m.toNat = n + 1 :=
    Nat.exists_eq_succ_of_ne_zero (Word.toNat_pos hm).ne'
  simp only [hm', Contest.rounds, bind_ok_iff] at hrounds
  obtain ⟨r, hr, hrounds⟩ := hrounds
  cases r with
  | none => cases (wants_of_zero hzero).symm.trans (content_of_round hr _ hseat)
  | some r =>
    obtain ⟨beam, total, seats₁⟩ := r
    simp only [bind_ok_iff] at hrounds
    obtain ⟨won₁, hgive, hrounds⟩ := hrounds
    have hle := le_won hrounds beam
    rw [BeamSymbols.toNat_of_give hgive, if_pos rfl, UInt32.toNat_one, htallied beam] at hle
    by_contra hnone
    push Not at hnone
    have hsum : (cs'.map (Contender.unitsOn k.direction units beam)).sum = 0 := by
      refine List.sum_eq_zero fun x hx => ?_
      obtain ⟨c, hc, rfl⟩ := List.mem_map.mp hx
      rw [Contender.unitsOn, hnone c hc, ite_self]
    omega

end Contest

theorem won_assignTdma {k : Contest} {p : Policy} {symbols groups : UInt32}
    {active active' : Contenders} {split : BeamSymbols}
    (hstart : ∀ c ∈ active.flat, (c.user.link k.direction).rbg = 0 ∧
      (c.user.link k.direction).sym = 0)
    (h : assignTdma k p symbols groups active = .ok (split, active')) :
    Tallied k.direction (·.sym.toNat) active'.flat split := by
  have hzero := band_start hstart groups
  rcases assignTdma_cases h with ⟨-, rfl, rfl⟩ | ⟨-, _, cs, hrun, rfl⟩
  · intro beam
    refine (List.sum_eq_zero fun x hx => ?_).symm
    obtain ⟨c, hc, rfl⟩ := List.mem_map.mp hx
    rw [Contender.unitsOn, LinkState.resources, (hzero c hc).2, ite_self]
  · obtain ⟨hallotted, -, -⟩ := Contest.run_ok (counts_grantSymbol groups) hzero hrun
    rw [(Contenders.refill_ok hallotted).2]
    exact Contest.tallied_run (counts_grantSymbol groups) hzero hrun

/-- A beam with contenders and symbols gives them groups. -/
theorem exists_rbg_of_assignBeam {k : Contest} {p : Policy} {symbols groups : UInt32}
    {cs cs' : List Contender} (hstart : ∀ c ∈ cs, (c.user.link k.direction).rbg = 0)
    (hsymbols : symbols ≠ 0) (hgroups : groups ≠ 0) (hne : cs ≠ [])
    (h : assignBeam k p symbols groups cs = .ok cs') :
    ∃ c ∈ cs', (c.user.link k.direction).rbg ≠ 0 := by
  obtain ⟨hnothing, -⟩ | ⟨-, -, _, _, hrun⟩ := assignBeam_cases h
  · exact absurd hnothing (by simp [hsymbols, hgroups])
  obtain ⟨c, hc, hunits⟩ := Contest.exists_unit_of_run (counts_grantGroup hsymbols) hgroups hne
    (fun c hc => by simp [LinkState.resources, hstart c hc]) hrun
  refine ⟨c, hc, fun h0 => hunits ?_⟩
  simp [LinkState.resources, h0]

/-- Only beams with contenders get symbols, and those that do give groups to somebody. -/
theorem won_assignOfdma {link : LinkModel} {blocksPerGroup symbols groups : UInt32} {p : Policy}
    {active active' : Contenders} {split : BeamSymbols}
    (hstart : ∀ c ∈ active.flat, (c.user.link .downlink).rbg = 0) (hgroups : groups ≠ 0)
    (hne : ∀ e ∈ active.entries, e.2 ≠ [])
    (h : assignOfdma link blocksPerGroup p symbols groups active = .ok (split, active')) :
    (∀ beam, beam ∉ active'.keys → split.of beam = 0) ∧
      ∀ e ∈ active'.entries, split.of e.1 ≠ 0 →
        ∃ c ∈ e.2, (c.user.link .downlink).rbg ≠ 0 := by
  obtain ⟨hsplit, hbeams⟩ := assignOfdma_cases h
  obtain ⟨weights, hsplit, hweights⟩ := splitSymbols_cases hsplit
  constructor
  · intro beam hbeam
    refine BeamSymbols.of_apportion hsplit fun hin => hbeam ?_
    have hnames : weights.map Prod.fst = active.entries.map Prod.fst :=
      map_eq_of_forall₂ hweights fun e w hw => hw.1
    have hkeys : active'.entries.map Prod.fst = active.entries.map Prod.fst :=
      map_eq_of_forall₂ hbeams fun e e' he => he.1
    rw [Table.keys, hkeys, ← hnames]
    exact hin
  · intro e' he' hsymbols
    obtain ⟨e, he, hkey, hassign⟩ := exists_left_of_forall₂ hbeams he'
    rw [hkey] at hsymbols
    exact exists_rbg_of_assignBeam (fun c hc => hstart c (Contenders.mem_flat.mpr ⟨e, he, hc⟩))
      hsymbols hgroups (hne e he) hassign

theorem Contenders.ne_nil_ofList (cs : List Contender) :
    ∀ beam l, (ofList cs).get? beam = some l → l ≠ [] := by
  have hfold : ∀ t : Contenders, (∀ beam l, t.get? beam = some l → l ≠ []) → ∀ beam l,
      Table.get? (cs.foldl (fun t c => t.insert c.user.beam
        ((t.get? c.user.beam).getD [] ++ [c])) t) beam = some l → l ≠ [] := by
    induction cs with
    | nil => exact fun t ht => ht
    | cons c cs ih =>
      intro t ht
      refine ih _ fun beam l hl => ?_
      rw [Table.get?_insert_if] at hl
      split at hl
      · cases hl
        simp
      · exact ht beam l hl
  exact hfold ∅ fun beam l hl => by cases hl

end Airtime
