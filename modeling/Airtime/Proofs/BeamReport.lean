import Airtime.Proofs.Precedence
import Airtime.Proofs.SlotRange
import Airtime.Proofs.Tally
import Mathlib.Data.Finset.Union
import Mathlib.Order.Interval.Finset.Nat

/-! The symbols that a slot reports for each beam, next to those that its assignments cover. What was
laid out ends at the cursor, so that symbols are covered in turn and can be counted. Blocks sent again
cover what they are reported with. New data may cover less than its beam won, when resources that carry
no byte stay unused; it covers all of it when every unit carries one. -/

namespace Airtime

/-- Every unit carries a byte at least. -/
def LinkModel.Generous (link : LinkModel) : Prop :=
  ∀ mcs units, 0 < units → 0 < link.blockSize mcs units

/-- The symbols that assignments cover on a beam. -/
def symbolsOn (beam : BeamId) (as : List Assignment) : Finset Nat :=
  (as.filter (·.beam = beam)).toFinset.biUnion fun a =>
    Finset.Ico a.startSym.toNat (a.startSym.toNat + a.numSym.toNat)

def reportedOn (beam : BeamId) (symbols : List (BeamId × UInt32)) : Nat :=
  ((symbols.filter (·.1 = beam)).map (·.2.toNat)).sum

/-- The symbols reported with the assignments of a direction. -/
structure BeamReport (c : Cell) (d : Direction) (as : List Assignment)
    (symbols : List (BeamId × UInt32)) : Prop where
  once : (symbols.map Prod.fst).Nodup
  fits : (symbols.map (·.2.toNat)).sum ≤ c.config.symbols.toNat - (c.config.control d).toNat
  listed : ∀ a ∈ as, a.beam ∈ symbols.map Prod.fst
  covered : ∀ beam, (symbolsOn beam as).card ≤ reportedOn beam symbols
  tight : c.linkModel.Generous → ∀ beam, (symbolsOn beam as).card = reportedOn beam symbols

section Covered

variable {beam : BeamId} {as bs : List Assignment} {sym : Nat}

theorem mem_symbolsOn : sym ∈ symbolsOn beam as ↔ ∃ a ∈ as, a.beam = beam ∧ a.Occupies sym := by
  simp [symbolsOn, Assignment.Occupies, and_assoc]

theorem symbolsOn_append : symbolsOn beam (as ++ bs) = symbolsOn beam as ∪ symbolsOn beam bs := by
  ext sym
  simp [mem_symbolsOn, or_and_right, exists_or]

theorem card_symbolsOn_append (has : ∀ a ∈ as, a.startSym.toNat + a.numSym.toNat ≤ sym)
    (hbs : ∀ b ∈ bs, sym ≤ b.startSym.toNat) : (symbolsOn beam (as ++ bs)).card =
      (symbolsOn beam as).card + (symbolsOn beam bs).card := by
  rw [symbolsOn_append, Finset.card_union_of_disjoint]
  rw [Finset.disjoint_left]
  intro s hs hs'
  obtain ⟨a, ha, -, -, hlt⟩ := mem_symbolsOn.mp hs
  obtain ⟨b, hb, -, hle, -⟩ := mem_symbolsOn.mp hs'
  have hend := has a ha
  have hstart := hbs b hb
  omega

theorem card_symbolsOn_beside {own : BeamId} {n : Nat} (hbs : ∀ b ∈ bs, b.beam = own ∧
    b.startSym.toNat = sym ∧ b.numSym.toNat = n) : (symbolsOn beam bs).card =
      if own = beam ∧ bs ≠ [] then n else 0 := by
  split
  · next h =>
    obtain ⟨rfl, hne⟩ := h
    have hcover : symbolsOn own bs = Finset.Ico sym (sym + n) := by
      ext s
      rw [mem_symbolsOn, Finset.mem_Ico]
      constructor
      · rintro ⟨b, hb, -, hocc⟩
        obtain ⟨-, hstart, hnum⟩ := hbs b hb
        rwa [Assignment.Occupies, hstart, hnum] at hocc
      · intro hs
        obtain ⟨b, hb⟩ := List.exists_mem_of_ne_nil bs hne
        obtain ⟨hbeam, hstart, hnum⟩ := hbs b hb
        exact ⟨b, hb, hbeam, by rwa [Assignment.Occupies, hstart, hnum]⟩
    rw [hcover, Nat.card_Ico, Nat.add_sub_cancel_left]
  · next h =>
    rw [Finset.card_eq_zero, Finset.eq_empty_iff_forall_notMem]
    intro s hs
    obtain ⟨b, hb, hbeam, -⟩ := mem_symbolsOn.mp hs
    exact h ⟨(hbs b hb).1.symm.trans hbeam, List.ne_nil_of_mem hb⟩

theorem card_symbolsOn_singleton {a : Assignment} :
    (symbolsOn beam [a]).card = if a.beam = beam then a.numSym.toNat else 0 := by
  have hbeside : ∀ b ∈ [a], b.beam = a.beam ∧ b.startSym.toNat = a.startSym.toNat ∧
      b.numSym.toNat = a.numSym.toNat := fun b hb => by simp [List.mem_singleton.mp hb]
  rw [card_symbolsOn_beside hbeside]
  simp

end Covered

/-- At most `n`, and `n` itself when `sure`. -/
def UpTo (sure : Prop) (m n : Nat) : Prop := m ≤ n ∧ (sure → m = n)

theorem UpTo.refl (sure : Prop) (n : Nat) : UpTo sure n n := ⟨le_rfl, fun _ => rfl⟩

theorem UpTo.add {sure : Prop} {l m n x y : Nat} (h : UpTo sure m (l + x))
    (h' : UpTo sure n (m + y)) : UpTo sure n (l + (x + y)) := by
  obtain ⟨hle, heq⟩ := h
  obtain ⟨hle', heq'⟩ := h'
  refine ⟨by omega, fun hs => ?_⟩
  have := heq hs
  have := heq' hs
  omega

namespace Draft

variable {config : CellConfig} {d : Direction} {beam : BeamId} {draft draft' : Draft}

/-- Beams have the symbols that are covered on them, and the others are left. -/
structure Reported (config : CellConfig) (d : Direction) (draft : Draft) : Prop where
  total : (config.control d).toNat + draft.used.sum + draft.left.toNat = config.symbols.toNat
  beams : ∀ beam, (symbolsOn beam draft.assignments).card = (draft.used.of beam).toNat

theorem reported_start (h : Draft.start config d = .ok draft) : draft.Reported config d := by
  simp only [start, bind_ok_iff, pure_ok_iff, Word.sub_eq_ok, Word.toNat_uint32] at h
  obtain ⟨left, hleft, rfl⟩ := h
  have hnone : BeamSymbols.sum ∅ = 0 := rfl
  refine ⟨?_, fun beam => rfl⟩
  simp only [hnone]
  omega

theorem reported_resend {units units' : UInt32} {id : ProcessId} {b b' : Block}
    (hwithin : draft.Within config d draft.left.toNat) (hdraft : draft.Reported config d)
    (h : Draft.resend beam (draft, units) id b = .ok ((draft', units'), b')) :
    draft'.Reported config d := by
  rcases resend_cases h with ⟨rfl, -, -⟩ | ⟨sym, n, used, -, hfits, -, -, hused, -, rfl, -⟩
  · exact hdraft
  refine ⟨?_, fun beam' => ?_⟩
  · have htotal := hdraft.total
    simp only [BeamSymbols.sum_give hused,
      UInt32.toNat_sub_of_le _ _ (UInt32.le_iff_toNat_le.mpr hfits)]
    omega
  · have hbehind := fun a ha => (hwithin.laid ⟨0⟩ 0).behind_sym hwithin.rbg_zero (a := a) ha
    simp only [BeamSymbols.toNat_of_give hused]
    rw [card_symbolsOn_append hbehind fun a ha => by simp [List.mem_singleton.mp ha, Block.repeated],
      card_symbolsOn_singleton, hdraft.beams]
    exact congrArg _ (if_congr eq_comm rfl rfl)

theorem reported_resendUser {u u' : User} (hwithin : draft.Within config d draft.left.toNat)
    (hdraft : draft.Reported config d)
    (hband : ∀ id b, (u.link d).inFlight.get? id = some b → b.assignment.InBand config.groups)
    (h : draft.resendUser d u = .ok (draft', u')) : draft'.Reported config d := by
  obtain ⟨retxRbg, inFlight, hwalk, -⟩ := resendUser_cases h
  exact (hwalk.keeps (I := fun s => s.1.Within config d s.1.left.toNat ∧ s.1.Reported config d)
    ⟨hwithin, hdraft⟩ fun s id b s' b' hb hs hstep =>
      ⟨within_resend hs.1 (hband id b (Table.mem_entries.mp hb)) hstep,
        reported_resend hs.1 hs.2 hstep⟩).2

end Draft

theorem LinkState.achievable_ne_zero {link : LinkModel} (hlink : link.Generous)
    {s : LinkState} {blocksPerGroup size : UInt32} (hblocks : 1 ≤ blocksPerGroup.toNat)
    (hrbg : s.rbg ≠ 0) (h : s.achievable link blocksPerGroup = .ok size) : size ≠ 0 := by
  rw [achievable, if_neg hrbg] at h
  simp only [bind_ok_iff, pure_ok_iff, Word.mul_eq_ok, Word.toNat_uint32] at h
  obtain ⟨blocks, hmul, rfl⟩ := h
  have hpos : 0 < blocks.toNat := by
    rw [hmul]
    exact Nat.mul_pos (Word.toNat_pos hrbg) hblocks
  exact UInt32.pos_iff_ne_zero.mp (hlink s.mcs blocks (UInt32.lt_iff_toNat_lt.mpr hpos))

namespace Cell

variable {c c' : Cell} {d : Direction} {draft draft' : Draft} {split : BeamSymbols} {need : Nat}

theorem serve_ne (hlink : c.linkModel.Generous) (hblocks : 1 ≤ c.config.blocksPerGroup.toNat)
    {u u' : User} (hfree : (u.link d).harq.available ≠ 0) (hrbg : (u.link d).rbg ≠ 0)
    (h : c.serve d draft u = .ok (draft', u')) : draft' ≠ draft := by
  simp only [serve, LinkState.sized, bind_ok_iff, lift_fault_ok_iff, pure_ok_iff] at h
  obtain ⟨s, ⟨size, hsize, rfl⟩, h⟩ := h
  rw [if_neg (LinkState.achievable_ne_zero hlink hblocks hrbg hsize)] at h
  split at h
  · next hassign =>
    cases hqueue : (u.link d).harq.free with
    | nil => exact absurd (by rw [HarqTable.available, hqueue]; rfl) hfree
    | cons id rest =>
      rw [HarqTable.assign, hqueue] at hassign
      cases hassign
  · have hadded : ∃ a, draft'.assignments = draft.assignments ++ [a] := by
      by_cases hshare : c.sharesBand d = true
      · simp only [if_pos hshare, bind_ok_iff, pure_ok_iff, Prod.mk.injEq] at h
        obtain ⟨⟨a, cursor⟩, -, s', -, rfl, -⟩ := h
        exact ⟨a, rfl⟩
      · simp only [if_neg hshare, bind_ok_iff, pure_ok_iff, Prod.mk.injEq] at h
        obtain ⟨⟨a, cursor⟩, -, s', -, rfl, -⟩ := h
        exact ⟨a, rfl⟩
    obtain ⟨a, ha⟩ := hadded
    rintro rfl
    simpa using congrArg List.length ha

theorem card_serve (valid : c.config.Valid) {u u' : User}
    (hunits : (u.link d).rbg.toNat = (u.link d).sym.toNat * c.config.groups.toNat)
    (hfree : (u.link d).harq.available ≠ 0)
    (hdraft : draft.Within c.config d ((u.link d).sym.toNat + need))
    (h : c.serve d draft u = .ok (draft', u')) (beam : BeamId) :
    UpTo c.linkModel.Generous (symbolsOn beam draft'.assignments).card
      ((symbolsOn beam draft.assignments).card +
        if u.beam = beam then (u.link d).sym.toNat else 0) := by
  rcases serve_cases h with ⟨rfl, -⟩ |
    ⟨size, process, harq, start, num, cursor, s', -, -, -, hplaces, -, -, rfl⟩
  · refine ⟨Nat.le_add_right _ _, fun hlink => ?_⟩
    by_contra hne
    have hrbg : (u.link d).rbg ≠ 0 := by
      intro h0
      have hsym : (u.link d).sym.toNat = 0 := by
        rw [h0, UInt32.toNat_zero, eq_comm, Nat.mul_eq_zero] at hunits
        have hpos := valid.groups_pos
        omega
      rw [hsym, ite_self] at hne
      exact hne rfl
    exact serve_ne hlink valid.blocks_pos hfree hrbg h rfl
  · have hbehind := fun a ha => (hdraft.laid ⟨0⟩ 0).behind_sym hdraft.rbg_zero (a := a) ha
    rw [newBlock_setLink]
    simp only
    rw [card_symbolsOn_append hbehind fun a ha => by simp [List.mem_singleton.mp ha],
      card_symbolsOn_singleton]
    exact .refl _ _

theorem card_serves (valid : c.config.Valid) (hshare : ¬ c.sharesBand d = true)
    {ks : List Contender} {us : List User}
    (hunits : ∀ k ∈ ks, (k.user.link d).rbg.toNat =
      (k.user.link d).sym.toNat * c.config.groups.toNat)
    (hfree : ∀ k ∈ ks, (k.user.link d).harq.available ≠ 0)
    (hdraft : draft.Within c.config d ((ks.map fun k => (k.user.link d).sym.toNat).sum + need))
    (h : c.Serves d draft ks draft' us) (beam : BeamId) :
    UpTo c.linkModel.Generous (symbolsOn beam draft'.assignments).card
      ((symbolsOn beam draft.assignments).card +
        (ks.map (Contender.unitsOn d (·.sym.toNat) beam)).sum) := by
  induction h with
  | nil draft => exact .refl _ _
  | @cons draft draft₁ draft' k ks u us first rest ih =>
    rw [List.map_cons, List.sum_cons, Nat.add_assoc] at hdraft
    have hk := hunits k (by simp)
    exact (card_serve valid hk (hfree k (by simp)) hdraft first beam).add
      (ih (fun k hk => hunits k (by simp [hk])) (fun k hk => hfree k (by simp [hk]))
        (within_serve valid.groups_pos hshare hk hdraft first))

theorem beside_of_serves (valid : c.config.Valid)
    (hshare : c.sharesBand d = true) {ks : List Contender} {us : List User} {beam : BeamId}
    {symbols : UInt32} (hbeam : ∀ k ∈ ks, k.user.beam = beam)
    (hsym : ∀ k ∈ ks, (k.user.link d).rbg ≠ 0 → (k.user.link d).sym = symbols)
    (hfree : ∀ k ∈ ks, (k.user.link d).harq.available ≠ 0)
    (h : c.Serves d draft ks draft' us) :
    draft'.cursor.sym = draft.cursor.sym ∧ ∃ new, draft'.assignments = draft.assignments ++ new ∧
      (∀ b ∈ new, b.beam = beam ∧ b.startSym.toNat = draft.cursor.sym.toNat ∧
        b.numSym.toNat = symbols.toNat) ∧
      (c.linkModel.Generous → (∃ k ∈ ks, (k.user.link d).rbg ≠ 0) → new ≠ []) := by
  induction h with
  | nil draft => exact ⟨rfl, [], by simp, by simp, by simp⟩
  | @cons draft draft₁ draft' k ks u us first rest ih =>
    obtain ⟨hsame, new, hnew, hall, hne⟩ := ih (fun k hk => hbeam k (by simp [hk]))
      (fun k hk => hsym k (by simp [hk])) (fun k hk => hfree k (by simp [hk]))
    rcases serve_cases first with ⟨rfl, -⟩ |
      ⟨size, process, harq, start, num, cursor, s', hsize, h0, -, hplaces, -, -, rfl⟩
    · refine ⟨hsame, new, hnew, hall, fun hlink ⟨k', hk', hrbg⟩ => hne hlink ⟨k', ?_, hrbg⟩⟩
      rcases List.mem_cons.mp hk' with rfl | hk'
      · exact absurd rfl (serve_ne hlink valid.blocks_pos (hfree k' (by simp)) hrbg first)
      · exact hk'
    · rw [Places, if_pos hshare] at hplaces
      rw [newBlock_setLink] at hnew
      simp only [hplaces.2.2.1] at hsame hnew hall
      refine ⟨hsame, _, hnew.trans (List.append_assoc _ _ _), fun b hb => ?_, fun _ _ => by simp⟩
      rcases List.mem_append.mp hb with hb | hb
      · rw [List.mem_singleton.mp hb]
        exact ⟨hbeam k (by simp), rfl,
          congrArg _ (hsym k (by simp) (rbg_ne_of_achievable hsize h0))⟩
      · exact hall b hb

structure Sendable (c : Cell) (d : Direction) (split : BeamSymbols) (e : BeamId × List Contender) :
    Prop where
  fits : c.Fits d split e
  beam : ∀ k ∈ e.2, k.user.beam = e.1
  free : ∀ k ∈ e.2, (k.user.link d).harq.available ≠ 0
  taken : c.sharesBand d = true → split.of e.1 ≠ 0 → ∃ k ∈ e.2, (k.user.link d).rbg ≠ 0

theorem card_serveBeam (valid : c.config.Valid) {e : BeamId × List Contender} {us : List User}
    (hsend : c.Sendable d split e) (hdraft : draft.Within c.config d (c.cost d split e + need))
    (h : c.serveBeam d split draft e.1 e.2 = .ok (draft', us)) (beam : BeamId) :
    UpTo c.linkModel.Generous (symbolsOn beam draft'.assignments).card
      ((symbolsOn beam draft.assignments).card + if e.1 = beam then c.cost d split e else 0) := by
  obtain ⟨draft₁, cursor, hserves, rfl, -⟩ := serveBeam_cases h
  have hfits := hsend.fits
  unfold Fits at hfits
  unfold cost at hdraft ⊢
  by_cases hshare : c.sharesBand d = true
  · rw [if_pos hshare] at hfits hdraft ⊢
    obtain ⟨-, new, hnew, hall, hne⟩ :=
      beside_of_serves valid hshare hsend.beam hfits.2.sym hsend.free hserves
    have hbehind := fun a ha => (hdraft.laid ⟨0⟩ 0).behind_sym hdraft.rbg_zero (a := a) ha
    simp only
    rw [hnew, card_symbolsOn_append hbehind fun b hb => (hall b hb).2.1.ge,
      card_symbolsOn_beside hall]
    by_cases hb : e.1 = beam
    · rw [if_pos hb]
      refine ⟨Nat.add_le_add_left (by split <;> omega) _, fun hlink => ?_⟩
      by_cases h0 : split.of e.1 = 0
      · rw [h0, UInt32.toNat_zero, ite_self]
      · rw [if_pos ⟨hb, hne hlink (hsend.taken hshare h0)⟩]
    · rw [if_neg hb, if_neg fun h => hb h.1]
      exact .refl _ _
  · rw [if_neg hshare] at hfits hdraft ⊢
    have hcard := card_serves valid hshare hfits hsend.free hdraft hserves beam
    rwa [Contender.sum_unitsOn hsend.beam] at hcard

theorem card_beams (valid : c.config.Valid) {active : List (BeamId × List Contender)}
    {served : List (BeamId × List User)} (hsend : ∀ e ∈ active, c.Sendable d split e)
    (hdraft : draft.Within c.config d ((active.map (c.cost d split)).sum + need))
    (h : Table.Walked (c.serveBeam d split) draft active draft' served) (beam : BeamId) :
    UpTo c.linkModel.Generous (symbolsOn beam draft'.assignments).card
      ((symbolsOn beam draft.assignments).card +
        (active.map fun e => if e.1 = beam then c.cost d split e else 0).sum) := by
  induction h with
  | nil draft => exact .refl _ _
  | @cons draft draft₁ draft' own ks us active served first rest ih =>
    rw [List.map_cons, List.sum_cons, Nat.add_assoc] at hdraft
    have hown := hsend (own, ks) (by simp)
    exact (card_serveBeam valid hown hdraft first beam).add
      (ih (fun e he => hsend e (by simp [he]))
        (within_serveBeam valid.groups_pos hown.fits hdraft first))

variable {symbols : UInt32} {active active' : Contenders}

theorem free_of_allocate (hc : c.Cleared d) (hactive : c.contenders d = .ok active)
    (hallocate : c.allocate d symbols active = .ok (split, active')) :
    ∀ k ∈ active'.flat, (k.user.link d).harq.available ≠ 0 := by
  obtain ⟨-, husers⟩ := active_ok hc hactive
  obtain ⟨hallotted, -⟩ := allocate_ok (fun k hk => (husers k hk).2.2) hallocate
  intro k hk
  obtain ⟨k₀, hk₀, rbg, sym, t, rfl⟩ := exists_left_of_forall₂ hallotted.flat hk
  rw [Contender.link_allot]
  exact (free_of_contenders hactive k₀ hk₀).1

/-- Every beam that takes symbols sends, and all together take what the split gives them. -/
theorem sendable_of_allocate (hc : c.Cleared d) (valid : c.config.Valid)
    (hactive : c.contenders d = .ok active)
    (hallocate : c.allocate d symbols active = .ok (split, active')) :
    (∀ e ∈ active'.entries, c.Sendable d split e) ∧ ∀ beam,
      (active'.entries.map fun e => if e.1 = beam then c.cost d split e else 0).sum =
        (split.of beam).toNat := by
  have hstart := fun k hk => ((active_ok hc hactive).2 k hk).2.2
  obtain ⟨hallotted, -⟩ := allocate_ok hstart hallocate
  have hbeams := (contenders_ok hactive).1.of_allotted hallotted
  have hfits := (fits_of_allocate hc hactive hallocate).2
  have hfree := free_of_allocate hc hactive hallocate
  have hflat : ∀ e ∈ active'.entries, ∀ k ∈ e.2, k ∈ active'.flat := fun e he k hk =>
    Contenders.mem_flat.mpr ⟨e, he, hk⟩
  have hne : ∀ e ∈ active.entries, e.2 ≠ [] := by
    simp only [contenders, bind_ok_iff, pure_ok_iff] at hactive
    obtain ⟨all, -, rfl⟩ := hactive
    exact fun e he => Contenders.ne_nil_ofList _ e.1 e.2 (Table.mem_entries.mp he)
  have hown : ∀ e ∈ active'.entries, ∀ k ∈ e.2, k.user.beam = e.1 := fun e he =>
    hbeams e.1 e.2 (Table.mem_entries.mp he)
  unfold allocate at hallocate
  simp only at hallocate
  split at hallocate
  · next hshare =>
    have hd : d = .downlink := by
      simp only [sharesBand, Bool.and_eq_true, decide_eq_true_eq] at hshare
      exact hshare.1
    subst hd
    have hgroups : c.config.groups ≠ 0 := fun h0 => by
      have := valid.groups_pos
      rw [h0] at this
      cases this
    obtain ⟨hnone, htaken⟩ := won_assignOfdma (fun k hk => (hstart k hk).1) hgroups hne hallocate
    refine ⟨fun e he => ⟨hfits e he, hown e he, fun k hk => hfree k (hflat e he k hk),
      fun _ => htaken e he⟩, fun beam => ?_⟩
    simp only [cost, if_pos hshare]
    rw [List.sum_map_ite, Table.filter_entries]
    cases hbeam : active'.get? beam with
    | none =>
      have hout : beam ∉ active'.keys := by
        rw [Table.mem_keys, hbeam]
        simp
      simp [hnone beam hout]
    | some ks => simp
  · next hshare =>
    have htallied := won_assignTdma (k := ⟨d, c.linkModel, c.config.blocksPerGroup⟩) hstart hallocate
    refine ⟨fun e he => ⟨hfits e he, hown e he, fun k hk => hfree k (hflat e he k hk),
      fun hs => absurd hs hshare⟩, fun beam => ?_⟩
    rw [htallied beam, Contenders.sum_flat]
    refine congrArg List.sum (List.map_congr_left fun e he => ?_)
    rw [cost, if_neg hshare]
    rw [Contender.sum_unitsOn (hown e he)]
    rfl

theorem reported_of_resent (hc : c.Sound) {draft₀ draft₁ : Draft} {users : Table Rnti User}
    (hstart : Draft.start c.config d = .ok draft₀)
    (hresend : Table.Walked (fun (draft : Draft) _ u => draft.resendUser d u) draft₀
      (c.cleared d).users.entries draft₁ users.entries) : draft₁.Reported c.config d := by
  refine (hresend.keeps (I := fun draft => draft.Within c.config d draft.left.toNat ∧
    draft.Reported c.config d) ⟨Draft.within_start hstart, Draft.reported_start hstart⟩ ?_).2
  intro draft r u draft' u' hu hdraft hstep
  have hband : ∀ id b, (u.link d).inFlight.get? id = some b →
      b.assignment.InBand c.config.groups := fun id b hb =>
    ((cleared_blocks hc (Table.mem_entries.mp hu)).2 id b hb).inBand
  exact ⟨Draft.within_resendUser hdraft.1 hband hstep,
    Draft.reported_resendUser hdraft.1 hdraft.2 hband hstep⟩

theorem report_of_scheduleDirection (hc : c.Sound) (h : c.scheduleDirection d = .ok (c', draft)) :
    (c.config.control d).toNat + draft.used.sum ≤ c.config.symbols.toNat ∧ ∀ beam,
      UpTo c.linkModel.Generous (symbolsOn beam draft.assignments).card
        (draft.used.of beam).toNat := by
  obtain ⟨draft₀, draft₁, users, hstart, hresend, hend⟩ := scheduleDirection_cases h
  have hreported := reported_of_resent hc hstart hresend
  have htotal := hreported.total
  rcases hend with ⟨-, rfl⟩ | ⟨active, active', split, used, served, draft₂, hactive, hallocate,
    hserve, hused, -, rfl⟩
  · refine ⟨by omega, fun beam => ?_⟩
    rw [hreported.beams]
    exact .refl _ _
  · have hcleared := cleared_of_resent hc hstart hresend
    obtain ⟨hsend, hcost⟩ := sendable_of_allocate hcleared hc.valid hactive hallocate
    have hfits := (fits_of_allocate hcleared hactive hallocate).1
    have hsame : draft₂.used = draft₁.used :=
      hserve.keeps (I := fun draft => draft.used = draft₁.used) rfl
        fun _ _ _ _ _ _ hsame hstep => (used_serveBeam hstep).trans hsame
    constructor
    · have hsplit := sum_split_le hcleared hactive hallocate
      have hsum := BeamSymbols.sum_foldlM_give hused
      rw [BeamSymbols.sum_entries, hsame] at hsum
      simp only
      omega
    · intro beam
      have hroom : draft₁.Within c.config d ((active'.entries.map
          (Cell.cost { c with users } d split)).sum + 0) :=
        (within_of_resent hc hstart hresend).mono hfits
      have hcard := card_beams (c := { c with users }) hc.valid hsend hroom hserve beam
      rw [hcost beam, hreported.beams] at hcard
      rw [BeamSymbols.toNat_of_foldlM_give hused, BeamSymbols.sum_entries_of, hsame]
      exact hcard

theorem beamReport_of_scheduleDirection (hc : c.Sound)
    (h : c.scheduleDirection d = .ok (c', draft)) :
    BeamReport c d draft.assignments draft.used.entries := by
  obtain ⟨htotal, hcard⟩ := report_of_scheduleDirection hc h
  have hread : ∀ beam, reportedOn beam draft.used.entries = (draft.used.of beam).toNat :=
    BeamSymbols.sum_entries_of draft.used
  refine ⟨draft.used.keys_nodup, ?_, fun a ha => ?_, fun beam => ?_, fun hlink beam => ?_⟩
  · rw [BeamSymbols.sum_entries]
    omega
  · have hpos := ((laid_of_scheduleDirection hc h).1 a ha).inBand.sym_pos
    have hmem : a.startSym.toNat ∈ symbolsOn a.beam draft.assignments :=
      mem_symbolsOn.mpr ⟨a, ha, rfl, le_rfl, by omega⟩
    have hcount := (Finset.card_pos.mpr ⟨_, hmem⟩).trans_le (hcard a.beam).1
    change a.beam ∈ draft.used.keys
    rw [Table.mem_keys, Option.isSome_iff_ne_none]
    intro hnone
    rw [BeamSymbols.of, hnone] at hcount
    cases hcount
  · rw [hread]
    exact (hcard beam).1
  · rw [hread]
    exact (hcard beam).2 hlink

end Cell

/-- The symbols that a slot reports name each beam once and are no more than its data symbols. Every
beam covers no more than it is reported with, and just that if every unit carries a byte. -/
theorem beam_symbols_match {c c' : Cell} {time : SlotTime} {slot : SlotAllocation}
    (hc : c.Reachable) (h : c.scheduleSlot time = .ok (c', slot)) (d : Direction) :
    BeamReport c d (slot.assignments d) (slot.symbols d) := by
  obtain ⟨c₁, down, up, hdown, hup, rfl⟩ := Cell.scheduleSlot_ok h
  cases d with
  | downlink => exact Cell.beamReport_of_scheduleDirection hc.sound hdown
  | uplink =>
    have hreport := Cell.beamReport_of_scheduleDirection (hc.sound.scheduleDirection hdown) hup
    rw [Cell.scheduleDirection_frame hdown] at hreport
    exact ⟨hreport.once, hreport.fits, hreport.listed, hreport.covered, hreport.tight⟩

def rangedCell : Cell :=
  ⟨{ sampleConfig with scheme := .ofdma }, ⟨fun _ units => units, id, 10⟩, ∅, false⟩

def rangedOperations : List Operation :=
  let report (rnti : Rnti) (tx : UInt32) : Operation := .reportBuffer (.newData rnti 4 tx)
  sampleOperations.take 4 ++ [report ⟨1⟩ 9, report ⟨2⟩ 6, .slot ⟨0, 0, 0, 0⟩,
    .feedback ⟨⟨1⟩, 0, .downlink, false⟩, .feedback ⟨⟨2⟩, 0, .downlink, true⟩, report ⟨2⟩ 8]

/-- A block sent again on one beam and new data on the other, each with its symbols. -/
theorem beam_symbols_match_sample : ∃ (c c' : Cell) (slot : SlotAllocation), c.Reachable ∧
    c.linkModel.Generous ∧ c.scheduleSlot ⟨0, 0, 1, 0⟩ = .ok (c', slot) ∧
    slot.downlink.map (fun a => (a.beam, a.newData)) = [(⟨0⟩, false), (⟨1⟩, true)] ∧
    slot.downlinkSymbols = [(⟨0⟩, 3), (⟨1⟩, 2)] ∧
    BeamReport c .downlink slot.downlink slot.downlinkSymbols ∧
    ∀ beam, (symbolsOn beam slot.downlink).card = reportedOn beam slot.downlinkSymbols := by
  have hrun : ((rangedCell.performAll rangedOperations).bind fun x =>
      x.2.scheduleSlot ⟨0, 0, 1, 0⟩).toOption.any (fun x =>
        x.2.downlink.map (fun a => (a.beam, a.newData)) = [(⟨0⟩, false), (⟨1⟩, true)] &&
          x.2.downlinkSymbols = [(⟨0⟩, 3), (⟨1⟩, 2)]) = true := by
    decide +kernel
  obtain ⟨⟨c', slot⟩, hslot, htest⟩ := exists_ok_of_any hrun
  obtain ⟨⟨events, c⟩, hops, hslot⟩ := bind_ok_iff.mp hslot
  simp only [Bool.and_eq_true, decide_eq_true_eq] at htest
  have hstart : Run rangedCell.config rangedCell.linkModel false [] rangedCell := .start rfl
  have hend := hstart.performAll hops
  have hlink : c.linkModel.Generous := by
    rw [hend.linkModel]
    exact fun mcs units h => h
  have hreport := beam_symbols_match ⟨_, _, _, _, hend⟩ hslot .downlink
  exact ⟨c, c', slot, ⟨_, _, _, _, hend⟩, hlink, hslot, htest.1, htest.2, hreport,
    hreport.tight hlink⟩

end Airtime
