import Airtime.Proofs.Slot

/-! Where the assignments of a slot lie on the grid. The cursor carries the invariant: what is laid out
so far ends before its symbol, or belongs to the same beam and ends before its group. -/

namespace Airtime

namespace Assignment

def Occupies (a : Assignment) (sym : Nat) : Prop :=
  a.startSym.toNat ≤ sym ∧ sym < a.startSym.toNat + a.numSym.toNat

/-- The assignment takes the group during the symbol. -/
def Covers (a : Assignment) (rbg sym : Nat) : Prop :=
  a.startRbg.toNat ≤ rbg ∧ rbg < a.startRbg.toNat + a.numRbg.toNat ∧ a.Occupies sym

structure OnGrid (config : CellConfig) (d : Direction) (a : Assignment) : Prop where
  inBand : a.InBand config.groups
  control_le : (config.control d).toNat ≤ a.startSym.toNat
  symbols_le : a.startSym.toNat + a.numSym.toNat ≤ config.symbols.toNat

/-- Two assignments share no unit of the grid, and no symbol if their beams differ. -/
def Apart (a b : Assignment) : Prop :=
  (∀ rbg sym, ¬ (a.Covers rbg sym ∧ b.Covers rbg sym)) ∧
    (a.beam ≠ b.beam → ∀ sym, ¬ (a.Occupies sym ∧ b.Occupies sym))

theorem apart_of_before {a b : Assignment}
    (h : a.startSym.toNat + a.numSym.toNat ≤ b.startSym.toNat) : a.Apart b := by
  have hnone : ∀ sym, ¬ (a.Occupies sym ∧ b.Occupies sym) := by
    rintro sym ⟨ha, hb⟩
    unfold Occupies at ha hb
    omega
  exact ⟨fun rbg sym ⟨ha, hb⟩ => hnone sym ⟨ha.2.2, hb.2.2⟩, fun _ => hnone⟩

theorem apart_of_beside {a b : Assignment} (hbeam : a.beam = b.beam)
    (h : a.startRbg.toNat + a.numRbg.toNat ≤ b.startRbg.toNat) : a.Apart b := by
  refine ⟨?_, fun hne => absurd hbeam hne⟩
  rintro rbg sym ⟨ha, hb⟩
  have ha₂ := ha.2.1
  have hb₁ := hb.1
  omega

end Assignment

namespace Draft

/-- Laid out up to the cursor, with `beam` being laid out over `span` symbols. -/
structure Laid (config : CellConfig) (d : Direction) (beam : BeamId) (span : Nat) (draft : Draft) :
    Prop where
  onGrid : ∀ a ∈ draft.assignments, a.OnGrid config d
  apart : draft.assignments.Pairwise Assignment.Apart
  behind : ∀ a ∈ draft.assignments,
    a.startSym.toNat + a.numSym.toNat ≤ draft.cursor.sym.toNat ∨
      a.beam = beam ∧ a.startRbg.toNat + a.numRbg.toNat ≤ draft.cursor.rbg.toNat ∧
        a.startSym.toNat + a.numSym.toNat ≤ draft.cursor.sym.toNat + span
  control_le : (config.control d).toNat ≤ draft.cursor.sym.toNat

/-- Laid out up to the cursor, which is at the first group and has `need` symbols ahead of it. -/
structure Within (config : CellConfig) (d : Direction) (draft : Draft) (need : Nat) : Prop where
  laid : ∀ beam span, draft.Laid config d beam span
  rbg_zero : draft.cursor.rbg = 0
  room : draft.cursor.sym.toNat + need ≤ config.symbols.toNat

variable {config : CellConfig} {d : Direction} {beam : BeamId} {span need : Nat}
  {draft draft' : Draft}

/-- An assignment at the cursor, which then moves past it in time or in frequency. -/
theorem Laid.add (h : draft.Laid config d beam span) {a : Assignment}
    (hassignments : draft'.assignments = draft.assignments ++ [a])
    (hband : a.InBand config.groups) (hbeam : a.beam = beam) (hsym : a.startSym = draft.cursor.sym)
    (hrbg : draft.cursor.rbg.toNat ≤ a.startRbg.toNat)
    (hfits : a.startSym.toNat + a.numSym.toNat ≤ config.symbols.toNat)
    (hnext : draft'.cursor.sym.toNat = a.startSym.toNat + a.numSym.toNat ∧
        draft'.cursor.rbg = draft.cursor.rbg ∨
      draft'.cursor.sym = draft.cursor.sym ∧ a.numSym.toNat ≤ span ∧
        draft'.cursor.rbg.toNat = a.startRbg.toNat + a.numRbg.toNat) :
    draft'.Laid config d beam span := by
  have hcontrol := h.control_le
  have hbefore : draft.cursor.sym.toNat ≤ draft'.cursor.sym.toNat ∧
      draft.cursor.rbg.toNat ≤ draft'.cursor.rbg.toNat := by
    rw [← hsym]
    rcases hnext with ⟨hs, hr⟩ | ⟨hs, -, hr⟩
    · rw [hr]
      omega
    · rw [hs, ← hsym]
      omega
  refine ⟨fun b hb => ?_, ?_, fun b hb => ?_, by omega⟩
  · rw [hassignments, List.mem_append, List.mem_singleton] at hb
    rcases hb with hb | rfl
    · exact h.onGrid b hb
    · exact ⟨hband, hsym ▸ hcontrol, hfits⟩
  · rw [hassignments, List.pairwise_append]
    refine ⟨h.apart, List.pairwise_singleton _ _, ?_⟩
    intro b hb a' ha'
    rw [List.mem_singleton.mp ha']
    rcases h.behind b hb with hbehind | ⟨hsame, hbeside, -⟩
    · exact Assignment.apart_of_before (hsym ▸ hbehind)
    · exact Assignment.apart_of_beside (hsame.trans hbeam.symm) (by omega)
  · rw [hassignments, List.mem_append, List.mem_singleton] at hb
    rcases hb with hb | rfl
    · rcases h.behind b hb with hbehind | ⟨hsame, hbeside, hend⟩
      · exact .inl (by omega)
      · exact .inr ⟨hsame, by omega, by omega⟩
    · rcases hnext with ⟨hs, -⟩ | ⟨hs, hspan, hr⟩
      · exact .inl (by omega)
      · refine .inr ⟨hbeam, by omega, ?_⟩
        rw [hs, hsym]
        omega

theorem Laid.behind_sym (h : draft.Laid config d beam span) (hzero : draft.cursor.rbg = 0)
    {a : Assignment} (ha : a ∈ draft.assignments) :
    a.startSym.toNat + a.numSym.toNat ≤ draft.cursor.sym.toNat := by
  rcases h.behind a ha with hbehind | ⟨-, hbeside, -⟩
  · exact hbehind
  · have hpos := (h.onGrid a ha).inBand.rbg_pos
    rw [hzero, UInt32.toNat_zero] at hbeside
    omega

theorem Laid.within (h : draft.Laid config d beam span) (hzero : draft.cursor.rbg = 0)
    (hroom : draft.cursor.sym.toNat + need ≤ config.symbols.toNat) :
    draft.Within config d need where
  laid _ _ := ⟨h.onGrid, h.apart, fun _ ha => .inl (h.behind_sym hzero ha), h.control_le⟩
  rbg_zero := hzero
  room := hroom

theorem Laid.nextBeam (h : draft.Laid config d beam span) {cursor : Cursor}
    (hzero : cursor.rbg = 0) (hsym : cursor.sym.toNat = draft.cursor.sym.toNat + span)
    (hroom : cursor.sym.toNat + need ≤ config.symbols.toNat) :
    Draft.Within config d { draft with cursor } need where
  laid _ _ := by
    have hcontrol := h.control_le
    refine ⟨h.onGrid, h.apart, fun a ha => .inl ?_, ?_⟩
    · rcases h.behind a ha with hbehind | ⟨-, -, hend⟩
      · simp only
        omega
      · simp only
        omega
    · simp only
      omega
  rbg_zero := hzero
  room := hroom

theorem Within.mono (h : draft.Within config d need) {need' : Nat} (hle : need' ≤ need) :
    draft.Within config d need' :=
  ⟨h.laid, h.rbg_zero, (Nat.add_le_add_left hle _).trans h.room⟩

theorem within_start (h : Draft.start config d = .ok draft) :
    draft.Within config d draft.left.toNat := by
  simp only [Draft.start, bind_ok_iff, pure_ok_iff, Word.sub_eq_ok, Word.toNat_uint32] at h
  obtain ⟨left, hleft, rfl⟩ := h
  refine ⟨fun _ _ => ⟨fun a ha => ?_, .nil, fun a ha => ?_, Nat.le_refl _⟩, rfl, ?_⟩
  · cases ha
  · cases ha
  · simp only
    omega

theorem within_resend {units units' : UInt32} {id : ProcessId} {b b' : Block}
    (hdraft : draft.Within config d draft.left.toNat) (hband : b.assignment.InBand config.groups)
    (h : Draft.resend beam (draft, units) id b = .ok ((draft', units'), b')) :
    draft'.Within config d draft'.left.toNat := by
  rcases resend_cases h with ⟨rfl, -, -⟩ | ⟨sym, n, used, -, hfits, hsym, -, -, -, rfl, -⟩
  · exact hdraft
  have hroom := hdraft.room
  have hleft : (draft.left - b.assignment.numSym).toNat =
      draft.left.toNat - b.assignment.numSym.toNat :=
    UInt32.toNat_sub_of_le _ _ (UInt32.le_iff_toNat_le.mpr hfits)
  refine Laid.within ((hdraft.laid beam 0).add (a := b.repeated beam draft.cursor.sym) rfl ?_ rfl rfl
    ?_ ?_ (.inl ⟨hsym, rfl⟩)) hdraft.rbg_zero ?_
  · exact ⟨hband.rbg_pos, hband.sym_pos, hband.rbg_le⟩
  · rw [hdraft.rbg_zero]
    exact Nat.zero_le _
  · simp only [Block.repeated]
    omega
  · simp only [hleft]
    omega

theorem within_resendUser {u u' : User} (hdraft : draft.Within config d draft.left.toNat)
    (hband : ∀ id b, (u.link d).inFlight.get? id = some b → b.assignment.InBand config.groups)
    (h : draft.resendUser d u = .ok (draft', u')) :
    draft'.Within config d draft'.left.toNat := by
  obtain ⟨retxRbg, inFlight, hwalk, -⟩ := resendUser_cases h
  exact hwalk.keeps (I := fun s => s.1.Within config d s.1.left.toNat) hdraft
    fun s id b s' b' hb hs hstep =>
      within_resend hs (hband id b (Table.mem_entries.mp hb)) hstep

end Draft

namespace Cell

variable {c : Cell} {d : Direction} {draft draft' : Draft} {need : Nat}

theorem rbg_ne_of_achievable {s : LinkState} {link : LinkModel} {blocksPerGroup size : UInt32}
    (h : s.achievable link blocksPerGroup = .ok size) (hsize : size ≠ 0) : s.rbg ≠ 0 := by
  intro h0
  rw [LinkState.achievable, if_pos h0] at h
  cases h
  exact hsize rfl

theorem within_serve {u u' : User} (hpos : 1 ≤ c.config.groups.toNat)
    (hshare : ¬ c.sharesBand d = true)
    (hunits : (u.link d).rbg.toNat = (u.link d).sym.toNat * c.config.groups.toNat)
    (hdraft : draft.Within c.config d ((u.link d).sym.toNat + need))
    (h : c.serve d draft u = .ok (draft', u')) : draft'.Within c.config d need := by
  rcases serve_cases h with ⟨rfl, -⟩ |
    ⟨size, process, harq, start, num, cursor, s', hsize, h0, -, hplaces, -, -, rfl⟩
  · exact hdraft.mono (by omega)
  rw [Places, if_neg hshare] at hplaces
  obtain ⟨rfl, rfl, hrbg, hsym⟩ := hplaces
  have hne := (Word.toNat_pos (rbg_ne_of_achievable hsize h0)).ne'
  have hsymbols : (u.link d).sym.toNat ≠ 0 := by
    intro h
    rw [h, Nat.zero_mul] at hunits
    exact hne hunits
  have hroom := hdraft.room
  have hzero := hdraft.rbg_zero
  rw [newBlock_setLink]
  refine Draft.Laid.within ((hdraft.laid u.beam 0).add rfl ⟨hpos, ?_, ?_⟩ rfl rfl ?_ ?_
    (.inl ⟨hsym, hrbg⟩)) (hrbg.trans hzero) ?_
  · simp only
    omega
  · simp
  · simp [hzero]
  · simp only
    omega
  · simp only
    omega

/-- Inside a beam: a user takes its groups over all symbols of the beam, and the cursor moves past
them. -/
theorem laid_serve {u u' : User} {symbols : UInt32} (hshare : c.sharesBand d = true)
    (hwhole : symbols.toNat ∣ (u.link d).rbg.toNat)
    (hsym : (u.link d).rbg ≠ 0 → (u.link d).sym = symbols)
    (hdraft : draft.Laid c.config d u.beam symbols.toNat)
    (hgroups : draft.cursor.rbg.toNat + ((u.link d).rbg.toNat / symbols.toNat + need) ≤
      c.config.groups.toNat)
    (hroom : draft.cursor.sym.toNat + symbols.toNat ≤ c.config.symbols.toNat)
    (h : c.serve d draft u = .ok (draft', u')) :
    draft'.Laid c.config d u.beam symbols.toNat ∧ draft'.cursor.sym = draft.cursor.sym ∧
      draft'.cursor.rbg.toNat + need ≤ c.config.groups.toNat := by
  rcases serve_cases h with ⟨rfl, -⟩ |
    ⟨size, process, harq, start, num, cursor, s', hsize, h0, -, hplaces, -, -, rfl⟩
  · exact ⟨hdraft, rfl, (Nat.add_le_add_left (Nat.le_add_left _ _) _).trans hgroups⟩
  rw [Places, if_pos hshare] at hplaces
  obtain ⟨rfl, hnum, hsame, hrbg⟩ := hplaces
  have hne := rbg_ne_of_achievable hsize h0
  have hpos := Word.toNat_pos hne
  have hsymbols : 0 < symbols.toNat := Nat.pos_of_dvd_of_pos hwhole hpos
  rw [hsym hne] at hnum
  have hnum : num.toNat = (u.link d).rbg.toNat / symbols.toNat := by
    rw [hnum, UInt32.toNat_div, Word.toNat_max, UInt32.toNat_one, Nat.max_eq_left hsymbols]
  have hnumpos : 0 < num.toNat := by
    rw [hnum]
    exact Nat.div_pos (Nat.le_of_dvd (by omega) hwhole) hsymbols
  rw [newBlock_setLink]
  refine ⟨hdraft.add rfl ⟨hnumpos, ?_, ?_⟩ rfl rfl le_rfl ?_ (.inr ⟨hsame, ?_, hrbg⟩), hsame, ?_⟩
  · simp only [hsym hne]
    omega
  · simp only
    omega
  · simp only [hsym hne]
    omega
  · simp only [hsym hne]
    omega
  · simp only
    omega

def cost (c : Cell) (d : Direction) (split : BeamSymbols) (e : BeamId × List Contender) : Nat :=
  if c.sharesBand d then (split.of e.1).toNat
  else (e.2.map fun k => (k.user.link d).sym.toNat).sum

theorem within_serves {ks : List Contender} {us : List User}
    (hpos : 1 ≤ c.config.groups.toNat) (hshare : ¬ c.sharesBand d = true)
    (hunits : ∀ k ∈ ks, (k.user.link d).rbg.toNat =
      (k.user.link d).sym.toNat * c.config.groups.toNat)
    (hdraft : draft.Within c.config d ((ks.map fun k => (k.user.link d).sym.toNat).sum + need))
    (h : c.Serves d draft ks draft' us) : draft'.Within c.config d need := by
  induction h with
  | nil draft => exact hdraft.mono (by simp)
  | @cons draft draft₁ draft' k ks u us first rest ih =>
    rw [List.map_cons, List.sum_cons, Nat.add_assoc] at hdraft
    exact ih (fun k hk => hunits k (by simp [hk]))
      (within_serve hpos hshare (hunits k (by simp)) hdraft first)

theorem laid_serves {ks : List Contender} {us : List User} {beam : BeamId} {symbols : UInt32}
    (hshare : c.sharesBand d = true) (hbeam : ∀ k ∈ ks, k.user.beam = beam)
    (hwhole : ∀ k ∈ ks, symbols.toNat ∣ (k.user.link d).rbg.toNat)
    (hsym : ∀ k ∈ ks, (k.user.link d).rbg ≠ 0 → (k.user.link d).sym = symbols)
    (hdraft : draft.Laid c.config d beam symbols.toNat)
    (hgroups : draft.cursor.rbg.toNat +
      (ks.map fun k => (k.user.link d).rbg.toNat / symbols.toNat).sum ≤ c.config.groups.toNat)
    (hroom : draft.cursor.sym.toNat + symbols.toNat ≤ c.config.symbols.toNat)
    (h : c.Serves d draft ks draft' us) :
    draft'.Laid c.config d beam symbols.toNat ∧ draft'.cursor.sym = draft.cursor.sym := by
  induction h with
  | nil draft => exact ⟨hdraft, rfl⟩
  | @cons draft draft₁ draft' k ks u us first rest ih =>
    have hb := hbeam k (by simp)
    rw [List.map_cons, List.sum_cons] at hgroups
    obtain ⟨hlaid, hsame, hleft⟩ := laid_serve hshare (hwhole k (by simp)) (hsym k (by simp))
      (hb ▸ hdraft) hgroups hroom first
    obtain ⟨hlaid', hsame'⟩ := ih (fun k hk => hbeam k (by simp [hk]))
      (fun k hk => hwhole k (by simp [hk])) (fun k hk => hsym k (by simp [hk])) (hb ▸ hlaid) hleft
      (hsame ▸ hroom)
    exact ⟨hlaid', hsame'.trans hsame⟩

/-- What is known of a beam before its contenders are served. -/
def Fits (c : Cell) (d : Direction) (split : BeamSymbols) (e : BeamId × List Contender) : Prop :=
  if c.sharesBand d then
    (∀ k ∈ e.2, k.user.beam = e.1) ∧ Ranged d (split.of e.1) c.config.groups e.2
  else ∀ k ∈ e.2, (k.user.link d).rbg.toNat = (k.user.link d).sym.toNat * c.config.groups.toNat

theorem within_serveBeam {split : BeamSymbols} {e : BeamId × List Contender} {us : List User}
    (hpos : 1 ≤ c.config.groups.toNat) (hfits : c.Fits d split e)
    (hdraft : draft.Within c.config d (c.cost d split e + need))
    (h : c.serveBeam d split draft e.1 e.2 = .ok (draft', us)) :
    draft'.Within c.config d need := by
  obtain ⟨draft₁, cursor, hserves, rfl, hcursor⟩ := serveBeam_cases h
  unfold Fits at hfits
  unfold cost at hdraft
  by_cases hshare : c.sharesBand d = true
  · rw [if_pos hshare] at hfits hdraft hcursor
    obtain ⟨hbeam, hranged⟩ := hfits
    have hroom := hdraft.room
    have hgroups := hranged.fits
    rw [← Nat.zero_add (List.sum _), ← UInt32.toNat_zero, ← hdraft.rbg_zero] at hgroups
    obtain ⟨hlaid, hsame⟩ := laid_serves hshare hbeam hranged.whole hranged.sym
      (hdraft.laid e.1 _) hgroups (by omega) hserves
    apply hlaid.nextBeam hcursor.1 hcursor.2
    rw [hcursor.2, hsame]
    omega
  · rw [if_neg hshare] at hfits hdraft hcursor
    rw [hcursor]
    exact within_serves hpos hshare hfits hdraft hserves

theorem within_beams {split : BeamSymbols} {active : List (BeamId × List Contender)}
    {served : List (BeamId × List User)} (hpos : 1 ≤ c.config.groups.toNat)
    (hfits : ∀ e ∈ active, c.Fits d split e)
    (hdraft : draft.Within c.config d ((active.map (c.cost d split)).sum + need))
    (h : Table.Walked (c.serveBeam d split) draft active draft' served) :
    draft'.Within c.config d need := by
  induction h with
  | nil draft => exact hdraft.mono (by simp)
  | @cons draft draft₁ draft' beam ks us active served first rest ih =>
    rw [List.map_cons, List.sum_cons, Nat.add_assoc] at hdraft
    exact ih (fun e he => hfits e (by simp [he]))
      (within_serveBeam hpos (hfits (beam, ks) (by simp)) hdraft first)

theorem sum_cost_le {symbols : UInt32} {split : BeamSymbols} {active : Contenders}
    (h : c.Shared d symbols split active) :
    (active.entries.map (c.cost d split)).sum ≤ symbols.toNat := by
  unfold Shared at h
  unfold cost
  split at h
  · next hshare =>
    simp only [if_pos hshare]
    have hle := split.sum_of_le active.keys_nodup
    rw [Table.keys, List.map_map] at hle
    exact hle.trans h.1
  · next hshare =>
    simp only [if_neg hshare]
    exact active.sum_flat (fun k => (k.user.link d).sym.toNat) ▸ h.2

theorem fits_of_shared {symbols : UInt32} {split : BeamSymbols} {active : Contenders}
    (hbeams : active.ByBeam) (h : c.Shared d symbols split active) :
    ∀ e ∈ active.entries, c.Fits d split e := by
  intro e he
  unfold Shared at h
  unfold Fits
  split at h
  · next hshare =>
    rw [if_pos hshare]
    exact ⟨hbeams e.1 e.2 (Table.mem_entries.mp he), h.2 e he⟩
  · next hshare =>
    rw [if_neg hshare]
    exact fun k hk => h.1 k (Contenders.mem_flat.mpr ⟨e, he, hk⟩)

theorem fits_of_allocate (hc : c.Cleared d) {symbols : UInt32} {active active' : Contenders}
    {split : BeamSymbols} (hactive : c.contenders d = .ok active)
    (hallocate : c.allocate d symbols active = .ok (split, active')) :
    (active'.entries.map (c.cost d split)).sum ≤ symbols.toNat ∧
      ∀ e ∈ active'.entries, c.Fits d split e := by
  obtain ⟨hallotted, hshared⟩ := allocate_ok
    (fun k hk => ((active_ok hc hactive).2 k hk).2.2) hallocate
  have hbeams := (contenders_ok hactive).1.of_allotted hallotted
  exact ⟨sum_cost_le hshared, fits_of_shared hbeams hshared⟩

theorem within_of_resent (hc : c.Sound) {draft₀ draft₁ : Draft} {users : Table Rnti User}
    (hstart : Draft.start c.config d = .ok draft₀)
    (hresend : Table.Walked (fun (draft : Draft) _ u => draft.resendUser d u) draft₀
      (c.cleared d).users.entries draft₁ users.entries) :
    draft₁.Within c.config d draft₁.left.toNat := by
  refine hresend.keeps (Draft.within_start hstart) fun draft r u draft' u' hu hdraft hstep =>
    Draft.within_resendUser hdraft (fun id b hb => ?_) hstep
  obtain ⟨u₀, hu₀, hlink⟩ := link_cleared (Table.mem_entries.mp hu)
  rw [hlink] at hb
  exact (((hc.user r u₀ hu₀).2 d).block id b hb).1.inBand

/-- All assignments of a direction lie on the grid, apart from each other. -/
theorem laid_of_scheduleDirection {c' : Cell} (hc : c.Sound)
    (h : c.scheduleDirection d = .ok (c', draft)) :
    (∀ a ∈ draft.assignments, a.OnGrid c.config d) ∧
      draft.assignments.Pairwise Assignment.Apart := by
  obtain ⟨draft₀, draft₁, users, hstart, hresend, hend⟩ := scheduleDirection_cases h
  have hresent := within_of_resent hc hstart hresend
  rcases hend with ⟨-, rfl⟩ | ⟨active, active', split, used, served, draft₂, hactive, hallocate,
    hserve, -, -, rfl⟩
  · exact ⟨(hresent.laid ⟨0⟩ 0).onGrid, (hresent.laid ⟨0⟩ 0).apart⟩
  · obtain ⟨hcost, hfits⟩ := fits_of_allocate (cleared_of_resent hc hstart hresend) hactive hallocate
    have hend : draft₂.Within c.config d 0 :=
      within_beams hc.valid.groups_pos hfits (hresent.mono hcost) hserve
    exact ⟨(hend.laid ⟨0⟩ 0).onGrid, (hend.laid ⟨0⟩ 0).apart⟩

end Cell

end Airtime
