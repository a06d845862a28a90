import Airtime.Proofs.AllocationRange
import Airtime.Proofs.FillRange
import Airtime.Proofs.Reachable

/-! A slot never leaves the range of a computation, on a grid whose resource blocks can be counted in a
word and with queues that can be summed. The cursor and the symbols left to hand out bound each
other, so that nothing is placed beyond the grid and no beam is given more than the slot has. -/

namespace Airtime

namespace Cursor

variable {cursor : Cursor} {u : User} {d : Direction} {process : ProcessId}

theorem succeeds_placeRange (h : cursor.rbg.toNat +
    ((u.link d).rbg / max (u.link d).sym 1).toNat < UInt32.size) :
    Succeeds (cursor.placeRange u d process) := by
  have hdiv : Succeeds (Word.div (u.link d).rbg (max (u.link d).sym 1)) :=
    Word.succeeds_div_iff.mpr fun h0 => Groups.Filling.max_one_ne_zero _ (UInt32.toNat_inj.mp h0)
  refine hdiv.bind fun groups hgroups => ?_
  rw [(Word.div_ok_iff.mp hgroups).2]
  exact (Word.succeeds_add_iff.mpr h).bind fun _ _ => succeeds_ok _

theorem succeeds_placeBand {groups : UInt32}
    (h : cursor.sym.toNat + (u.link d).sym.toNat < UInt32.size) :
    Succeeds (cursor.placeBand u d groups process) :=
  (Word.succeeds_add_iff.mpr h).bind fun _ _ => succeeds_ok _

theorem succeeds_nextBeam {symbols : UInt32}
    (h : cursor.sym.toNat + symbols.toNat < UInt32.size) : Succeeds (cursor.nextBeam symbols) :=
  (Word.succeeds_add_iff.mpr h).bind fun _ _ => succeeds_ok _

theorem succeeds_placeAgain {a : Assignment} {beam : BeamId} {transmissions : UInt8}
    (h : cursor.sym.toNat + a.numSym.toNat < UInt32.size) :
    Succeeds (cursor.placeAgain a beam transmissions) :=
  (Word.succeeds_add_iff.mpr h).bind fun _ _ => succeeds_ok _

end Cursor

namespace Draft

variable {config : CellConfig} {d : Direction} {beam : BeamId} {draft draft' : Draft}

/-- Laid out up to the cursor. What was given to beams and what is left are no more than the
slot. -/
structure Steady (config : CellConfig) (d : Direction) (draft : Draft) : Prop where
  within : draft.Within config d draft.left.toNat
  used_le : draft.used.sum + draft.left.toNat ≤ config.symbols.toNat

theorem Steady.left_le (h : draft.Steady config d) : draft.left.toNat ≤ config.symbols.toNat :=
  (Nat.le_add_left _ _).trans h.used_le

theorem succeeds_start (valid : config.Valid) : Succeeds (Draft.start config d) :=
  (Word.succeeds_sub_iff.mpr (valid.control_lt d).le).bind fun _ _ => succeeds_ok _

theorem steady_start (h : Draft.start config d = .ok draft) : draft.Steady config d := by
  refine ⟨within_start h, ?_⟩
  simp only [start, bind_ok_iff, pure_ok_iff, Word.sub_eq_ok, Word.toNat_uint32] at h
  obtain ⟨left, hleft, rfl⟩ := h
  have hnone : BeamSymbols.sum ∅ = 0 := rfl
  simp only [hnone]
  omega

/-- The units that a user's blocks take again, next to all units that are left. -/
def Room (config : CellConfig) (draft : Draft) (units : UInt32) : Prop :=
  units.toNat + draft.left.toNat * config.groups.toNat ≤
    config.symbols.toNat * config.groups.toNat

section Resend

variable {units units' : UInt32} {id : ProcessId} {b b' : Block}

theorem succeeds_resend {r : Rnti}
    (hgrid : config.symbols.toNat * config.groups.toNat < UInt32.size)
    (hdraft : draft.Steady config d) (hroom : draft.Room config units)
    (hb : b.Sound config r d id) : Succeeds (Draft.resend beam (draft, units) id b) := by
  unfold resend
  simp only
  split
  · exact succeeds_ok _
  next hfits =>
  obtain ⟨hlost, hle⟩ : b.lost = true ∧ b.assignment.numSym.toNat ≤ draft.left.toNat := by
    simpa [UInt32.lt_iff_toNat_lt] using hfits
  have hsym := hdraft.within.room
  have hlt := config.symbols.toNat_lt_size
  refine (Cursor.succeeds_placeAgain (by omega)).bind fun x hx => ?_
  simp only [Cursor.placeAgain, bind_ok_iff, pure_ok_iff] at hx
  obtain ⟨sym, -, rfl⟩ := hx
  have hused := hdraft.used_le
  have hproduct : b.assignment.numRbg.toNat * b.assignment.numSym.toNat ≤
      draft.left.toNat * config.groups.toNat := by
    rw [Nat.mul_comm]
    exact Nat.mul_le_mul hle ((Nat.le_add_left _ _).trans hb.inBand.rbg_le)
  unfold Room at hroom
  refine (Word.succeeds_sub_iff.mpr hle).bind fun left _ =>
    (BeamSymbols.succeeds_give ?_).bind fun used _ =>
    (Word.succeeds_mul_iff.mpr ?_).bind fun product hmul =>
    (Word.succeeds_add_iff.mpr ?_).bind fun units' _ =>
    (Word.succeeds_add_iff.mpr ?_).bind fun transmissions _ => succeeds_ok _
  · simp only
    omega
  · simp only [Word.size_uint32, Word.toNat_uint32]
    omega
  · have hmul := Word.mul_eq_ok.mp hmul
    simp only [Word.size_uint32, Word.toNat_uint32] at hmul ⊢
    omega
  · have hretry := hb.retry hlost
    have hmax := config.maxTransmissions.toNat_lt_size
    simp only [Word.size_uint8, Word.toNat_uint8, UInt8.toNat_one]
    omega

theorem steady_resend (hdraft : draft.Steady config d) (hband : b.assignment.InBand config.groups)
    (h : Draft.resend beam (draft, units) id b = .ok ((draft', units'), b')) :
    draft'.Steady config d := by
  refine ⟨within_resend hdraft.within hband h, ?_⟩
  rcases resend_cases h with ⟨rfl, -, -⟩ | ⟨sym, n, used, -, hfits, -, -, hused, -, rfl, -⟩
  · exact hdraft.used_le
  · have hle := hdraft.used_le
    simp only [BeamSymbols.sum_give hused,
      UInt32.toNat_sub_of_le _ _ (UInt32.le_iff_toNat_le.mpr hfits)]
    omega

theorem room_resend (hroom : draft.Room config units) (hband : b.assignment.InBand config.groups)
    (h : Draft.resend beam (draft, units) id b = .ok ((draft', units'), b')) :
    draft'.Room config units' := by
  unfold Room at hroom ⊢
  rcases resend_cases h with ⟨rfl, rfl, -⟩ | ⟨sym, n, used, -, hfits, -, -, -, hunits, rfl, -⟩
  · exact hroom
  · have hproduct : b.assignment.numRbg.toNat * b.assignment.numSym.toNat ≤
        b.assignment.numSym.toNat * config.groups.toNat := by
      rw [Nat.mul_comm]
      exact Nat.mul_le_mul_left _ ((Nat.le_add_left _ _).trans hband.rbg_le)
    have hsplit : draft.left.toNat * config.groups.toNat =
        (draft.left.toNat - b.assignment.numSym.toNat) * config.groups.toNat +
          b.assignment.numSym.toNat * config.groups.toNat := by
      rw [← Nat.add_mul, Nat.sub_add_cancel hfits]
    simp only [UInt32.toNat_sub_of_le _ _ (UInt32.le_iff_toNat_le.mpr hfits)]
    omega

end Resend

variable {r : Rnti} {u u' : User}

theorem succeeds_resendUser (hgrid : config.symbols.toNat * config.groups.toNat < UInt32.size)
    (hdraft : draft.Steady config d) (hretx : (u.link d).retxRbg = 0)
    (hblocks : ∀ id b, (u.link d).inFlight.get? id = some b → b.Sound config r d id) :
    Succeeds (draft.resendUser d u) := by
  refine (succeeds_walk (I := fun _ s => s.1.Steady config d ∧ s.1.Room config s.2)
    ⟨hdraft, ?_⟩ ?_ ?_).bind fun x _ => succeeds_ok _
  · unfold Room
    rw [hretx, UInt32.toNat_zero, Nat.zero_add]
    exact Nat.mul_le_mul_right _ hdraft.left_le
  · rintro id b hb - ⟨draft, units⟩ ⟨hdraft, hroom⟩
    exact succeeds_resend hgrid hdraft hroom (hblocks id b hb)
  · rintro id b hb - ⟨draft, units⟩ ⟨draft', units'⟩ b' ⟨hdraft, hroom⟩ h
    have hband := (hblocks id b hb).inBand
    exact ⟨steady_resend hdraft hband h, room_resend hroom hband h⟩

theorem steady_resendUser (hdraft : draft.Steady config d)
    (hblocks : ∀ id b, (u.link d).inFlight.get? id = some b → b.Sound config r d id)
    (h : draft.resendUser d u = .ok (draft', u')) : draft'.Steady config d := by
  obtain ⟨retxRbg, inFlight, hwalk, -⟩ := resendUser_cases h
  exact hwalk.keeps (I := fun s => s.1.Steady config d) hdraft fun s id b s' b' hb hs hstep =>
    steady_resend hs (hblocks id b (Table.mem_entries.mp hb)).inBand hstep

end Draft

namespace Cell

/-- A grid and queues that can be counted, in one direction. -/
structure InRange (c : Cell) (d : Direction) : Prop where
  grid : c.config.symbols.toNat * c.config.groups.toNat * c.config.blocksPerGroup.toNat <
    UInt32.size
  bytes : ∀ r u, c.user? r = some u → (u.link d).groups.bytes < UInt32.size
  demand : c.sharesBand d = true →
    c.config.symbols.toNat * (c.users.sumOf fun u => (u.link d).groups.bytes) < UInt64.size

variable {c c' : Cell} {d : Direction} {draft draft' draft₀ draft₁ : Draft}
  {users : Table Rnti User}

theorem cleared_blocks (hc : c.Sound) {r : Rnti} {u : User}
    (hu : (c.cleared d).users.get? r = some u) : (u.link d).retxRbg = 0 ∧
      ∀ id b, (u.link d).inFlight.get? id = some b → b.Sound c.config r d id := by
  obtain ⟨u₀, hu₀, hlink⟩ := link_cleared hu
  rw [hlink]
  exact ⟨rfl, fun id b hb => (((hc.user r u₀ hu₀).2 d).block id b hb).1⟩

theorem steady_of_resent (hc : c.Sound) (hstart : Draft.start c.config d = .ok draft₀)
    (hresend : Table.Walked (fun (draft : Draft) _ u => draft.resendUser d u) draft₀
      (c.cleared d).users.entries draft₁ users.entries) : draft₁.Steady c.config d :=
  hresend.keeps (Draft.steady_start hstart) fun _ _ _ _ _ hu hdraft hstep =>
    Draft.steady_resendUser hdraft (cleared_blocks hc (Table.mem_entries.mp hu)).2 hstep

theorem succeeds_resent (hc : c.Sound) (hr : c.InRange d)
    (hstart : Draft.start c.config d = .ok draft₀) : Succeeds ((c.cleared d).users.walk
      (fun draft _ u => (liftM (draft.resendUser d u) : Except Failure _)) draft₀) := by
  have hgrid : c.config.symbols.toNat * c.config.groups.toNat < UInt32.size :=
    units_lt hc.valid.blocks_pos hr.grid
  refine succeeds_walk (I := fun _ draft => draft.Steady c.config d)
    (Draft.steady_start hstart) ?_ ?_
  · intro r u hu _ draft hdraft
    obtain ⟨hretx, hblocks⟩ := cleared_blocks hc hu
    exact (Draft.succeeds_resendUser hgrid hdraft hretx hblocks).lift
  · intro r u hu _ draft draft' u' hdraft hstep
    obtain ⟨-, hblocks⟩ := cleared_blocks hc hu
    exact Draft.steady_resendUser hdraft hblocks (lift_fault_ok_iff.mp hstep)

theorem inRange_of_resent (hr : c.InRange d)
    (hstart : Draft.start c.config d = .ok draft₀)
    (hresend : Table.Walked (fun (draft : Draft) _ u => draft.resendUser d u) draft₀
      (c.cleared d).users.entries draft₁ users.entries) : InRange { c with users } d where
  grid := hr.grid
  bytes r u hu := by
    obtain ⟨E, -, husers⟩ := resent_users (assignments_start hstart) hresend
    rcases husers r with ⟨-, hnone⟩ | ⟨u₀, s, hu₀, hu', hresent, -⟩
    · rw [user?, hnone] at hu
      cases hu
    · rw [user?, hu', Option.some.injEq] at hu
      rw [← hu, User.link_setLink, hresent.groups]
      exact hr.bytes r u₀ hu₀
  demand hshare := by
    have hqueued : users.values.map (fun u => (u.link d).groups.bytes) =
        c.users.values.map fun u => (u.link d).groups.bytes := by
      simp only [Table.values, List.map_map]
      rw [map_eq_of_forall₂ (f := fun e : Rnti × User => (e.2.link d).groups.bytes) hresend.forall₂]
      · simp [cleared, Table.map, User.modify, LinkState.newSlot, Function.comp_def]
      · rintro e e' ⟨-, draft, draft', hstep⟩
        obtain ⟨retxRbg, inFlight, -, hu⟩ := Draft.resendUser_cases hstep
        simp [hu]
    have := hr.demand hshare
    rw [Table.sumOf, ← hqueued] at this
    exact this

theorem succeeds_contenders (hr : c.InRange d) : Succeeds (c.contenders d) := by
  refine Succeeds.bind (succeeds_mapM fun u hu => ?_) fun _ _ => succeeds_ok _
  obtain ⟨r, hu⟩ := Table.mem_values.mp hu
  exact (Groups.succeeds_total_iff.mpr (hr.bytes r u hu)).bind fun _ _ => succeeds_ok _

theorem demand_le {active : Contenders} (h : c.contenders d = .ok active) :
    active.demand ≤ c.users.sumOf fun u => (u.link d).groups.bytes := by
  obtain ⟨-, ks, hperm, hsub, hqueued⟩ := contenders_ok h
  have hbytes : ks.map (fun k => k.backlog.toNat) =
      (ks.map Contender.user).map fun u => (u.link d).groups.bytes := by
    rw [List.map_map]
    exact List.map_congr_left fun k hk => Groups.total_ok_iff.mp (hqueued k hk).1
  rw [Contenders.demand, (hperm.map _).sum_eq, hbytes]
  exact (hsub.map _).sum_le_sum fun n _ => Nat.zero_le n

variable {symbols : UInt32} {active active' : Contenders} {split : BeamSymbols}

theorem succeeds_allocate (hc : c.Cleared d) (valid : c.config.Valid) (hr : c.InRange d)
    (hsymbols : symbols.toNat ≤ c.config.symbols.toNat) (hactive : c.contenders d = .ok active) :
    Succeeds (c.allocate d symbols active) := by
  have hgrid : symbols.toNat * c.config.groups.toNat * c.config.blocksPerGroup.toNat <
      UInt32.size :=
    (Nat.mul_le_mul_right _ (Nat.mul_le_mul_right _ hsymbols)).trans_lt hr.grid
  have hstart := fun k hk => ((active_ok hc hactive).2 k hk).2.2
  unfold allocate
  simp only
  split
  · next hshare =>
    have hd : d = .downlink := by
      simp only [sharesBand, Bool.and_eq_true, decide_eq_true_eq] at hshare
      exact hshare.1
    subst hd
    have hscaled := (Nat.mul_le_mul_left _ (demand_le hactive)).trans_lt (hr.demand hshare)
    have hpos : 0 < c.config.symbols.toNat := (Nat.zero_le _).trans_lt (valid.control_lt .downlink)
    exact succeeds_assignOfdma (units_lt valid.blocks_pos hgrid) hgrid (fun k hk => (hstart k hk).1)
      ((Nat.le_mul_of_pos_left _ hpos).trans_lt hscaled)
      fun e he => (Nat.mul_le_mul hsymbols (Contenders.le_demand he)).trans_lt hscaled
  · let k : Contest := ⟨d, c.linkModel, c.config.blocksPerGroup⟩
    exact succeeds_assignTdma (k := k) (units_lt valid.blocks_pos hgrid) hgrid hstart

theorem sum_split_le (hc : c.Cleared d) (hactive : c.contenders d = .ok active)
    (hallocate : c.allocate d symbols active = .ok (split, active')) :
    split.sum ≤ symbols.toNat := by
  have hshared := (allocate_ok (fun k hk => ((active_ok hc hactive).2 k hk).2.2) hallocate).2
  unfold Shared at hshared
  unfold allocate at hallocate
  simp only at hallocate
  split at hallocate
  · next hshare =>
    rw [if_pos hshare] at hshared
    exact hshared.1
  · exact sum_split_assignTdma hallocate

/-- What the resources of a state carry can be counted, and so can the bytes that wait. -/
structure Servable (c : Cell) (s : LinkState) : Prop where
  ready : s.Ready
  bytes : s.groups.bytes < UInt32.size
  carried : s.rbg.toNat * c.config.blocksPerGroup.toNat < UInt32.size

theorem succeeds_commit {s : LinkState} {a : Assignment} (wf : s.groups.WellFormed)
    (hbytes : s.groups.bytes < UInt32.size)
    (hp : s.harq.process? a.process = some ⟨some a.rnti, ∅, []⟩) : Succeeds (commit s a) := by
  obtain ⟨⟨pdus, groups⟩, hfill⟩ := Groups.succeeds_fill wf.keyed (Groups.counted_of_bytes hbytes)
    a.blockSize
  exact ⟨_, commit_eq wf hp hfill⟩

def Fitting (c : Cell) (d : Direction) (cursor : Cursor) (s : LinkState) : Prop :=
  if c.sharesBand d then cursor.rbg.toNat + (s.rbg / max s.sym 1).toNat < UInt32.size
  else cursor.sym.toNat + s.sym.toNat < UInt32.size

theorem succeeds_serve {u : User} (hu : c.Servable (u.link d))
    (hfit : c.Fitting d draft.cursor (u.link d)) : Succeeds (c.serve d draft u) := by
  have hsized : Succeeds ((u.link d).sized c.linkModel c.config.blocksPerGroup) :=
    (LinkState.succeeds_achievable hu.carried).bind fun _ _ => succeeds_ok _
  refine hsized.lift.bind fun s hs => ?_
  simp only [LinkState.sized, lift_fault_ok_iff, bind_ok_iff, pure_ok_iff] at hs
  obtain ⟨size, -, rfl⟩ := hs
  split
  · exact succeeds_ok _
  · split
    · exact succeeds_ok _
    · next process harq hassign =>
      have hproc := HarqTable.process?_assign hu.ready.harq hassign process
      rw [if_pos rfl] at hproc
      -- Both ways to lay out the block give it the process that was taken.
      have hcommit : ∀ start num, Succeeds (commit { u.link d with blockSize := size, harq }
          (draft.cursor.newBlock (u.setLink d { u.link d with blockSize := size, harq }) d process
            start num)) :=
        fun start num => succeeds_commit hu.ready.groups hu.bytes
          (by simpa [Cursor.newBlock] using hproc)
      simp only [User.setLink_setLink]
      unfold Fitting at hfit
      split at hfit
      · next hshare =>
        rw [if_pos hshare]
        refine (Cursor.succeeds_placeRange (by rwa [User.link_setLink])).lift.bind fun x hx => ?_
        simp only [Cursor.placeRange, lift_fault_ok_iff, bind_ok_iff, pure_ok_iff] at hx
        obtain ⟨groups, -, rbg, -, rfl⟩ := hx
        exact (hcommit _ _).bind fun _ _ => succeeds_ok _
      · next hshare =>
        rw [if_neg hshare]
        refine (Cursor.succeeds_placeBand (by rwa [User.link_setLink])).lift.bind fun x hx => ?_
        simp only [Cursor.placeBand, lift_fault_ok_iff, bind_ok_iff, pure_ok_iff] at hx
        obtain ⟨sym, -, rfl⟩ := hx
        exact (hcommit _ _).bind fun _ _ => succeeds_ok _

theorem toNat_groups {s : LinkState} {symbols : UInt32} (hwhole : symbols.toNat ∣ s.rbg.toNat)
    (hsym : s.rbg ≠ 0 → s.sym = symbols) :
    (s.rbg / max s.sym 1).toNat = s.rbg.toNat / symbols.toNat := by
  by_cases h0 : s.rbg = 0
  · simp [h0]
  · have hpos : 0 < symbols.toNat := Nat.pos_of_dvd_of_pos hwhole (Word.toNat_pos h0)
    rw [hsym h0, UInt32.toNat_div, Word.toNat_max, UInt32.toNat_one, Nat.max_eq_left hpos]

/-- Inside a beam: laid out up to the cursor, with `need` groups and all symbols of the beam ahead
of it. -/
structure InBeam (c : Cell) (d : Direction) (beam : BeamId) (symbols : UInt32) (draft : Draft)
    (need : Nat) : Prop where
  laid : draft.Laid c.config d beam symbols.toNat
  groups : draft.cursor.rbg.toNat + need ≤ c.config.groups.toNat
  sym : draft.cursor.sym.toNat + symbols.toNat ≤ c.config.symbols.toNat

theorem InBeam.fitting {beam : BeamId} {symbols : UInt32} {need : Nat} {s : LinkState}
    (h : c.InBeam d beam symbols draft (s.rbg.toNat / symbols.toNat + need))
    (hshare : c.sharesBand d = true) (hwhole : symbols.toNat ∣ s.rbg.toNat)
    (hsym : s.rbg ≠ 0 → s.sym = symbols) : c.Fitting d draft.cursor s := by
  have hgroups := h.groups
  have hlt := c.config.groups.toNat_lt_size
  unfold Fitting
  rw [if_pos hshare, toNat_groups hwhole hsym]
  omega

theorem InBeam.serve {u u' : User} {beam : BeamId} {symbols : UInt32} {need : Nat}
    (h : c.InBeam d beam symbols draft ((u.link d).rbg.toNat / symbols.toNat + need))
    (hshare : c.sharesBand d = true) (hbeam : u.beam = beam)
    (hwhole : symbols.toNat ∣ (u.link d).rbg.toNat)
    (hsym : (u.link d).rbg ≠ 0 → (u.link d).sym = symbols)
    (hserve : c.serve d draft u = .ok (draft', u')) : c.InBeam d beam symbols draft' need := by
  subst hbeam
  obtain ⟨hlaid, hsame, hgroups⟩ := laid_serve hshare hwhole hsym h.laid h.groups h.sym hserve
  exact ⟨hlaid, hgroups, hsame ▸ h.sym⟩

/-- Inside a beam the groups of the contenders fit next to each other. -/
theorem succeeds_serveRange {e : BeamId × List Contender} {need : Nat}
    (hshare : c.sharesBand d = true) (hfits : c.Fits d split e)
    (hservable : ∀ k ∈ e.2, c.Servable (k.user.link d))
    (hdraft : draft.Within c.config d ((split.of e.1).toNat + need)) :
    Succeeds (c.serveBeam d split draft e.1 e.2) := by
  unfold Fits at hfits
  rw [if_pos hshare] at hfits
  obtain ⟨hbeam, hranged⟩ := hfits
  have hstart : c.InBeam d e.1 (split.of e.1) draft
      (e.2.map fun k => (k.user.link d).rbg.toNat / (split.of e.1).toNat).sum := by
    refine ⟨hdraft.laid e.1 _, ?_, ?_⟩
    · rw [hdraft.rbg_zero, UInt32.toNat_zero, Nat.zero_add]
      exact hranged.fits
    · have hroom := hdraft.room
      omega
  refine Succeeds.bind (succeeds_foldlM (I := fun rest x => c.InBeam d e.1 (split.of e.1) x.1
    (rest.map fun k => (k.user.link d).rbg.toNat / (split.of e.1).toNat).sum) hstart ?_ ?_)
    fun x hfold => ?_
  · rintro k hk rest ⟨draft, us⟩ hdraft
    rw [List.map_cons, List.sum_cons] at hdraft
    have hfit := hdraft.fitting hshare (hranged.whole k hk) (hranged.sym k hk)
    exact (succeeds_serve (hservable k hk) hfit).bind fun _ _ => succeeds_ok _
  · rintro k hk rest ⟨draft, us⟩ ⟨draft', us'⟩ hdraft hstep
    simp only [bind_ok_iff, pure_ok_iff, Prod.mk.injEq] at hstep
    obtain ⟨⟨draft₁, u⟩, hserve, rfl, rfl⟩ := hstep
    rw [List.map_cons, List.sum_cons] at hdraft
    exact hdraft.serve hshare (hbeam k hk) (hranged.whole k hk) (hranged.sym k hk) hserve
  · obtain ⟨draft₁, us⟩ := x
    obtain ⟨new, -, hserves⟩ := serves_of_foldlM hfold
    obtain ⟨-, hsame⟩ := laid_serves hshare hbeam hranged.whole hranged.sym hstart.laid
      hstart.groups hstart.sym hserves
    simp only
    rw [if_pos hshare]
    have hnext : draft₁.cursor.sym.toNat + (split.of e.1).toNat < UInt32.size := by
      have hsym := hstart.sym
      have hlt := c.config.symbols.toNat_lt_size
      rw [hsame]
      omega
    exact (Cursor.succeeds_nextBeam hnext).lift.bind fun _ _ => succeeds_ok _

/-- Over the whole band the symbols of the contenders fit one after the other. -/
theorem succeeds_serveBand {e : BeamId × List Contender} {need : Nat} (valid : c.config.Valid)
    (hshare : ¬ c.sharesBand d = true) (hfits : c.Fits d split e)
    (hservable : ∀ k ∈ e.2, c.Servable (k.user.link d))
    (hdraft : draft.Within c.config d ((e.2.map fun k => (k.user.link d).sym.toNat).sum + need)) :
    Succeeds (c.serveBeam d split draft e.1 e.2) := by
  unfold Fits at hfits
  rw [if_neg hshare] at hfits
  refine Succeeds.bind (succeeds_foldlM (I := fun rest x =>
    x.1.Within c.config d ((rest.map fun k => (k.user.link d).sym.toNat).sum + need))
    hdraft ?_ ?_) fun x _ => ?_
  · rintro k hk rest ⟨draft, us⟩ hdraft
    have hfit : c.Fitting d draft.cursor (k.user.link d) := by
      have hroom := hdraft.room
      have hlt := c.config.symbols.toNat_lt_size
      rw [List.map_cons, List.sum_cons] at hroom
      unfold Fitting
      rw [if_neg hshare]
      simp only at hroom
      omega
    exact (succeeds_serve (hservable k hk) hfit).bind fun _ _ => succeeds_ok _
  · rintro k hk rest ⟨draft, us⟩ ⟨draft', us'⟩ hdraft hstep
    simp only [bind_ok_iff, pure_ok_iff, Prod.mk.injEq] at hstep
    obtain ⟨⟨draft₁, u⟩, hserve, rfl, rfl⟩ := hstep
    rw [List.map_cons, List.sum_cons, Nat.add_assoc] at hdraft
    exact within_serve valid.groups_pos hshare (hfits k hk) hdraft hserve
  · simp only
    rw [if_neg hshare]
    exact succeeds_ok _

theorem succeeds_beams (valid : c.config.Valid) (hfits : ∀ e ∈ active.entries, c.Fits d split e)
    (hservable : ∀ k ∈ active.flat, c.Servable (k.user.link d))
    (hdraft : draft.Within c.config d (active.entries.map (c.cost d split)).sum) :
    Succeeds (active.walk (c.serveBeam d split) draft) := by
  refine succeeds_walk (I := fun rest draft =>
    draft.Within c.config d (rest.map (c.cost d split)).sum) hdraft ?_ ?_
  · intro beam ks hks rest draft hdraft
    have hmem := Table.mem_entries.mpr hks
    have hks : ∀ k ∈ ks, c.Servable (k.user.link d) := fun k hk =>
      hservable k (Contenders.mem_flat.mpr ⟨_, hmem, hk⟩)
    rw [List.map_cons, List.sum_cons, cost] at hdraft
    split at hdraft
    · next hshare => exact succeeds_serveRange hshare (hfits _ hmem) hks hdraft
    · next hshare => exact succeeds_serveBand valid hshare (hfits _ hmem) hks hdraft
  · intro beam ks hks rest draft draft' us hdraft hstep
    rw [List.map_cons, List.sum_cons] at hdraft
    exact within_serveBeam valid.groups_pos (hfits _ (Table.mem_entries.mpr hks)) hdraft hstep

theorem rbg_le_of_fits {e : BeamId × List Contender} (hfits : c.Fits d split e) {k : Contender}
    (hk : k ∈ e.2) :
    (k.user.link d).rbg.toNat ≤ c.cost d split e * c.config.groups.toNat := by
  unfold Fits at hfits
  unfold cost
  split at hfits
  · next hshare =>
    obtain ⟨-, hranged⟩ := hfits
    have hgroups := (le_sum_map (fun k : Contender =>
      (k.user.link d).rbg.toNat / (split.of e.1).toNat) hk).trans hranged.fits
    rw [if_pos hshare, ← Nat.mul_div_cancel' (hranged.whole k hk)]
    exact Nat.mul_le_mul_left _ hgroups
  · next hshare =>
    rw [if_neg hshare, hfits k hk]
    exact Nat.mul_le_mul_right _ (le_sum_map (fun k : Contender => (k.user.link d).sym.toNat) hk)

theorem servable_of_allocate (hc : c.Cleared d) (hr : c.InRange d)
    (hsymbols : symbols.toNat ≤ c.config.symbols.toNat) (hactive : c.contenders d = .ok active)
    (hallocate : c.allocate d symbols active = .ok (split, active')) :
    ∀ k ∈ active'.flat, c.Servable (k.user.link d) := by
  obtain ⟨-, husers⟩ := active_ok hc hactive
  obtain ⟨hallotted, -⟩ := allocate_ok (fun k hk => (husers k hk).2.2) hallocate
  obtain ⟨hcost, hfits⟩ := fits_of_allocate hc hactive hallocate
  intro k hk
  refine ⟨ready_of_allocate hc hactive hallocate k hk, ?_, ?_⟩
  · obtain ⟨k₀, hk₀, rbg, sym, t, rfl⟩ := exists_left_of_forall₂ hallotted.flat hk
    rw [Contender.link_allot]
    exact hr.bytes _ _ (husers k₀ hk₀).1
  · obtain ⟨e, he, hk⟩ := Contenders.mem_flat.mp hk
    have hcost : c.cost d split e ≤ c.config.symbols.toNat :=
      ((le_sum_map (c.cost d split) he).trans hcost).trans hsymbols
    have hrbg := (rbg_le_of_fits (hfits e he) hk).trans (Nat.mul_le_mul_right _ hcost)
    exact (Nat.mul_le_mul_right _ hrbg).trans_lt hr.grid

theorem used_serveBeam {beam : BeamId} {ks : List Contender} {us : List User}
    (h : c.serveBeam d split draft beam ks = .ok (draft', us)) : draft'.used = draft.used := by
  obtain ⟨draft₁, cursor, hserves, rfl, -⟩ := serveBeam_cases h
  clear h
  simp only
  induction hserves with
  | nil => rfl
  | cons first _ ih =>
    rw [ih]
    rcases serve_cases first with ⟨rfl, -⟩ | ⟨_, _, _, _, _, _, _, -, -, -, -, -, -, rfl⟩
    · rfl
    · rfl

theorem succeeds_addNewData (hc : c.Cleared d) (valid : c.config.Valid) (hr : c.InRange d)
    (hdraft : draft.Steady c.config d) : Succeeds (c.addNewData d draft) := by
  refine (succeeds_contenders hr).lift.bind fun active hactive => ?_
  rw [lift_fault_ok_iff] at hactive
  split
  · exact succeeds_ok _
  refine (succeeds_allocate hc valid hr hdraft.left_le hactive).lift.bind fun x hallocate => ?_
  obtain ⟨split, active'⟩ := x
  rw [lift_fault_ok_iff] at hallocate
  obtain ⟨hcost, hfits⟩ := fits_of_allocate hc hactive hallocate
  have hservable := servable_of_allocate hc hr hdraft.left_le hactive hallocate
  refine (succeeds_beams valid hfits hservable (hdraft.within.mono hcost)).bind fun x hserve => ?_
  obtain ⟨draft', served⟩ := x
  have hsame : draft'.used = draft.used :=
    (Table.walk_ok hserve).keeps (I := fun draft' => draft'.used = draft.used) rfl
      fun _ _ _ _ _ _ hsame hstep => (used_serveBeam hstep).trans hsame
  have hsplit := sum_split_le hc hactive hallocate
  have hused := hdraft.used_le
  have hlt := c.config.symbols.toNat_lt_size
  have hgive : Succeeds (split.entries.foldlM (fun (t : BeamSymbols) e => t.give e.1 e.2)
      draft'.used) :=
    BeamSymbols.succeeds_foldlM_give (by rw [hsame, BeamSymbols.sum_entries]; omega)
  obtain ⟨used, hgive⟩ := hgive
  have hgive := foldlM_imp hgive fun _ _ _ => lift_fault_ok_iff.mpr
  exact Succeeds.bind ⟨used, hgive⟩ fun _ _ => succeeds_ok _

theorem succeeds_scheduleDirection (hc : c.Sound) (hr : c.InRange d) :
    Succeeds (c.scheduleDirection d) := by
  refine (Draft.succeeds_start hc.valid).lift.bind fun draft₀ hstart => ?_
  rw [lift_fault_ok_iff] at hstart
  refine (succeeds_resent hc hr hstart).bind fun x hresend => ?_
  obtain ⟨draft₁, users⟩ := x
  have hresend := (Table.walk_ok hresend).imp fun _ _ _ _ => lift_fault_ok_iff.mp
  have hsteady := steady_of_resent hc hstart hresend
  simp only
  split
  · exact succeeds_ok _
  · exact succeeds_addNewData (cleared_of_resent hc hstart hresend) hc.valid
      (inRange_of_resent hr hstart hresend) hsteady

theorem InRange.uplink (hc : c.Sound) (hr : c.InRange .uplink)
    (h : c.scheduleDirection .downlink = .ok (c', draft)) : c'.InRange .uplink where
  grid := by
    rw [scheduleDirection_frame h]
    exact hr.grid
  bytes r u hu := by
    rcases scheduleDirection_user hc h r with ⟨-, hnone, -⟩ | ⟨u₀, s, hu₀, hu', -⟩
    · rw [hnone] at hu
      cases hu
    · rw [hu', Option.some.injEq] at hu
      subst hu
      exact hr.bytes r u₀ hu₀
  demand hshare := by cases hshare

theorem succeeds_scheduleSlot (hc : c.Sound) (hr : ∀ d, c.InRange d) (time : SlotTime) :
    Succeeds (c.scheduleSlot time) := by
  refine (succeeds_scheduleDirection hc (hr .downlink)).bind fun x h => ?_
  obtain ⟨c₁, down⟩ := x
  exact (succeeds_scheduleDirection (hc.scheduleDirection h) ((hr .uplink).uplink hc h)).bind
    fun _ _ => succeeds_ok _

end Cell

/-- Where all resource blocks of a slot can be counted in a word, no slot fails: each user's bytes
must be a word in each direction, and all downlink bytes, each counted for every symbol, a double
word. -/
theorem slot_succeeds {c : Cell} (hc : c.Reachable) (hgrid : c.config.groups.toNat *
      c.config.blocksPerGroup.toNat * c.config.symbols.toNat < UInt32.size)
    (hbytes : ∀ r u d, c.user? r = some u → (u.link d).groups.bytes < UInt32.size)
    (hdemand : c.config.symbols.toNat * (c.users.sumOf fun u => u.downlink.groups.bytes) <
      UInt64.size) (time : SlotTime) :
    ∃ c' slot, c.scheduleSlot time = .ok (c', slot) := by
  have hgrid : c.config.symbols.toNat * c.config.groups.toNat * c.config.blocksPerGroup.toNat <
      UInt32.size := by
    rwa [Nat.mul_assoc, Nat.mul_comm]
  have hdown : c.InRange .downlink := ⟨hgrid, fun r u => hbytes r u .downlink, fun _ => hdemand⟩
  have hup : c.InRange .uplink :=
    ⟨hgrid, fun r u => hbytes r u .uplink, fun hshare => by cases hshare⟩
  have hslot := Cell.succeeds_scheduleSlot hc.sound (fun d => by
    cases d with
    | downlink => exact hdown
    | uplink => exact hup) time
  obtain ⟨⟨c', slot⟩, hslot⟩ := hslot
  exact ⟨c', slot, hslot⟩

/-- A user with as many bytes as a word can count. -/
theorem slot_succeeds_sample : ∃ (c c' : Cell) (slot : SlotAllocation) (u : User), c.Reachable ∧
    c.user? ⟨2⟩ = some u ∧ u.downlink.groups.bytes + 1 = UInt32.size ∧
    c.scheduleSlot ⟨0, 0, 1, 0⟩ = .ok (c', slot) := by
  have hrun : (sampleCell.performAll (sampleOperations ++
      [.reportBuffer ⟨⟨2⟩, 4, 4294967295, 0, 0, 0, 0⟩])).toOption.any (fun x =>
        (x.2.user? ⟨2⟩).any (fun u => u.downlink.groups.bytes + 1 = UInt32.size) &&
        x.2.users.values.all (fun u => u.downlink.groups.bytes < UInt32.size &&
          u.uplink.groups.bytes < UInt32.size) &&
        x.2.config.symbols.toNat * (x.2.users.sumOf fun u => u.downlink.groups.bytes) <
          UInt64.size) = true := by
    decide +kernel
  obtain ⟨⟨events, c⟩, hops, htest⟩ := exists_ok_of_any hrun
  simp only [Bool.and_eq_true, decide_eq_true_eq, List.all_eq_true] at htest
  obtain ⟨⟨huser, hbytes⟩, hdemand⟩ := htest
  obtain ⟨u, hu, hfull⟩ := (Option.any_eq_true _ _).mp huser
  have h := run_sample hops
  have hgrid : c.config.groups.toNat * c.config.blocksPerGroup.toNat * c.config.symbols.toNat <
      UInt32.size := by
    rw [h.config]
    decide
  obtain ⟨c', slot, hslot⟩ := slot_succeeds ⟨_, _, _, _, h⟩ hgrid (fun r u d hu => by
    have hle := hbytes u (Table.mem_values.mpr ⟨r, hu⟩)
    cases d with
    | downlink => exact hle.1
    | uplink => exact hle.2) hdemand ⟨0, 0, 1, 0⟩
  exact ⟨c, c', slot, u, ⟨_, _, _, _, h⟩, hu, by simpa using hfull, hslot⟩

end Airtime
