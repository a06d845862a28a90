import Airtime.Cell.Slot
import Airtime.Proofs.Allocation
import Airtime.Proofs.Turn

/-! A direction of a slot, read user by user: what each one sent again, the block that it started, and
how its state moved on with them. -/

namespace Airtime

namespace Draft

variable {draft draft' : Draft} {beam : BeamId}

theorem resend_cases {units units' : UInt32} {id : ProcessId} {b b' : Block}
    (h : Draft.resend beam (draft, units) id b = .ok ((draft', units'), b')) :
    draft' = draft ∧ units' = units ∧ b' = b ∨
    ∃ sym transmissions used, b.lost = true ∧
      b.assignment.numSym.toNat ≤ draft.left.toNat ∧
      sym.toNat = draft.cursor.sym.toNat + b.assignment.numSym.toNat ∧
      transmissions.toNat = b.transmissions.toNat + 1 ∧
      draft.used.give beam b.assignment.numSym = .ok used ∧
      units'.toNat =
        units.toNat + b.assignment.numRbg.toNat * b.assignment.numSym.toNat ∧
      draft' = ⟨{ draft.cursor with sym }, draft.left - b.assignment.numSym,
        draft.assignments ++ [b.repeated beam draft.cursor.sym], used⟩ ∧
      b' = ⟨b.repeated beam draft.cursor.sym, transmissions, false⟩ := by
  simp only [resend] at h
  split at h
  · simp only [pure_ok_iff, Prod.mk.injEq] at h
    obtain ⟨⟨rfl, rfl⟩, rfl⟩ := h
    exact .inl ⟨rfl, rfl, rfl⟩
  · next hfits =>
    simp only [Cursor.placeAgain, bind_ok_iff, pure_ok_iff, Word.add_eq_ok, Word.sub_ok_iff,
      Word.mul_eq_ok, Word.toNat_uint32, Word.toNat_uint8, Prod.mk.injEq] at h
    obtain ⟨⟨a, cursor⟩, ⟨sym, hsym, rfl, rfl⟩, left, ⟨-, rfl⟩, used, hused, product, hproduct,
      total, htotal, transmissions, htransmissions, ⟨rfl, rfl⟩, rfl⟩ := h
    have hlost : b.lost = true ∧ b.assignment.numSym.toNat ≤ draft.left.toNat := by
      simpa [UInt32.lt_iff_toNat_lt] using hfits
    refine .inr ⟨sym, transmissions, used, hlost.1, hlost.2, hsym, htransmissions, hused, ?_, rfl,
      rfl⟩
    rw [htotal, hproduct]

theorem again_of_resend {units units' : UInt32} {id : ProcessId} {b b' : Block}
    (h : Draft.resend beam (draft, units) id b = .ok ((draft', units'), b')) :
    ∃ e, draft'.assignments = draft.assignments ++ e ∧ Block.Again beam b b' e := by
  rcases resend_cases h with ⟨rfl, -, rfl⟩ | ⟨sym, n, used, hlost, -, -, hn, -, -, rfl, rfl⟩
  · exact ⟨[], by simp, .inl ⟨rfl, rfl⟩⟩
  · exact ⟨_, rfl, .inr ⟨hlost, _, n, hn, rfl, rfl⟩⟩

theorem resendUser_cases {d : Direction} {u u' : User}
    (h : draft.resendUser d u = .ok (draft', u')) :
    ∃ retxRbg inFlight, Table.Walked (Draft.resend u.beam) (draft, (u.link d).retxRbg)
        (u.link d).inFlight.entries (draft', retxRbg) inFlight.entries ∧
      u' = u.setLink d { u.link d with retxRbg, inFlight } := by
  simp only [resendUser, bind_ok_iff, pure_ok_iff, Prod.mk.injEq] at h
  obtain ⟨⟨⟨draft₁, retxRbg⟩, inFlight⟩, hwalk, rfl, rfl⟩ := h
  exact ⟨retxRbg, inFlight, Table.walk_ok hwalk, rfl⟩

theorem units_of_walked {units units' : UInt32} {l l' : List (ProcessId × Block)}
    (h : Table.Walked (Draft.resend beam) (draft, units) l (draft', units') l')
    {e : List Assignment} (he : draft'.assignments = draft.assignments ++ e) :
    units'.toNat = units.toNat + (e.map Assignment.units).sum := by
  obtain ⟨e', he', hunits⟩ := h.keeps (I := fun s => ∃ e, s.1.assignments = draft.assignments ++ e ∧
      s.2.toNat = units.toNat + (e.map Assignment.units).sum) ⟨[], by simp, by simp⟩
    fun s id b s₁ b' _ hs hb => by
      obtain ⟨e, he, hunits⟩ := hs
      rcases resend_cases hb with ⟨hd, hu, -⟩ | ⟨sym, n, used, -, -, -, -, -, hu, hd, -⟩
      · exact ⟨e, by rw [hd, he], by rw [hu, hunits]⟩
      · refine ⟨e ++ [b.repeated beam s.1.cursor.sym], by rw [hd, he, List.append_assoc], ?_⟩
        rw [hu, hunits, List.map_append, List.sum_append, Nat.add_assoc]
        rfl
  rw [hunits, List.append_cancel_left (he'.symm.trans he)]

/-- The part of a user in the resending: only its blocks and its count of repeated units change. -/
theorem resent_of_resendUser {d : Direction} {u u' : User} (hretx : (u.link d).retxRbg = 0)
    (hsize : (u.link d).blockSize = 0) (h : draft.resendUser d u = .ok (draft', u')) :
    ∃ e, draft'.assignments = draft.assignments ++ e ∧
      (u.link d).Resent u.beam (u'.link d) e ∧
      ∃ retxRbg inFlight, u' = u.setLink d { u.link d with retxRbg, inFlight } := by
  obtain ⟨retxRbg, inFlight, hwalk, rfl⟩ := resendUser_cases h
  obtain ⟨E, hE, hall⟩ := Table.emits_of_walked (fun s => s.1.assignments) hwalk
    fun s id b s₁ b' _ hb => again_of_resend hb
  have hunits := units_of_walked hwalk hE
  rw [hretx, UInt32.toNat_zero, Nat.zero_add] at hunits
  refine ⟨_, hE, ?_, retxRbg, inFlight, rfl⟩
  rw [User.link_setLink]
  exact ⟨rfl, rfl, rfl, rfl, hunits, hsize, E, rfl, hall⟩

end Draft

namespace Cell

variable {c c' : Cell} {d : Direction} {draft draft' : Draft}

theorem commit_eq {s : LinkState} {a : Assignment} {pdus : List Pdu} {groups : Groups}
    (wf : s.groups.WellFormed) (hp : s.harq.process? a.process = some ⟨some a.rnti, ∅, []⟩)
    (hfill : s.groups.fill a.blockSize = .ok (pdus, groups)) :
    commit s a = .ok { s with
      groups
      harq := s.harq.put a.process (Process.addAll Pdu.channel ⟨some a.rnti, ∅, []⟩ pdus)
      inFlight := s.inFlight.insert a.process ⟨a, 1, false⟩ } := by
  have hstored := foldlM_imp (HarqTable.addPackets_of_new hp rfl rfl
    ((Groups.filled_of_fill wf hfill).channels_nodup wf) fun x _ => List.not_mem_nil)
    fun _ _ _ => lift_harq_ok_iff.mpr
  rw [commit, bind_ok_iff]
  exact ⟨(pdus, groups), lift_fault_ok_iff.mpr hfill,
    bind_ok_iff.mpr ⟨_, lift_refusal_ok_iff.mpr hstored, rfl⟩⟩

theorem commit_ok {s s' : LinkState} {a : Assignment} (h : commit s a = .ok s')
    (wf : s.groups.WellFormed) (hp : s.harq.process? a.process = some ⟨some a.rnti, ∅, []⟩) :
    ∃ pdus groups, s.groups.fill a.blockSize = .ok (pdus, groups) ∧
      s' = { s with
        groups
        harq := s.harq.put a.process (Process.addAll Pdu.channel ⟨some a.rnti, ∅, []⟩ pdus)
        inFlight := s.inFlight.insert a.process ⟨a, 1, false⟩ } := by
  obtain ⟨⟨pdus, groups⟩, hfill, -⟩ := bind_ok_iff.mp h
  rw [lift_fault_ok_iff] at hfill
  rw [commit_eq wf hp hfill, Except.ok.injEq] at h
  exact ⟨pdus, groups, hfill, h.symm⟩

theorem newBlock_setLink (cursor : Cursor) (u : User) (d : Direction) (s : LinkState)
    (process : ProcessId) (startRbg numRbg : UInt32) :
    cursor.newBlock (u.setLink d s) d process startRbg numRbg =
      { rnti := u.rnti, beam := u.beam, direction := d, process, startRbg, numRbg,
        startSym := cursor.sym, numSym := s.sym, mcs := s.mcs, blockSize := s.blockSize,
        newData := true, redundancy := 0 } := by
  simp only [Cursor.newBlock, User.link_setLink, User.rnti_setLink, User.beam_setLink]

/-- Where the block of a state goes, and where the cursor goes from there. -/
def Places (c : Cell) (d : Direction) (cursor cursor' : Cursor) (s : LinkState)
    (startRbg numRbg : UInt32) : Prop :=
  if c.sharesBand d then
    startRbg = cursor.rbg ∧ numRbg = s.rbg / max s.sym 1 ∧ cursor'.sym = cursor.sym ∧
      cursor'.rbg.toNat = cursor.rbg.toNat + numRbg.toNat
  else
    startRbg = 0 ∧ numRbg = c.config.groups ∧ cursor'.rbg = cursor.rbg ∧
      cursor'.sym.toNat = cursor.sym.toNat + s.sym.toNat

/-- A user is passed over, or it takes a process and starts a block. -/
theorem serve_cases {u u' : User} (h : c.serve d draft u = .ok (draft', u')) :
    draft' = draft ∧ u' = u.setLink d { u.link d with blockSize := 0 } ∨
    ∃ size process harq startRbg numRbg cursor s',
      (u.link d).achievable c.linkModel c.config.blocksPerGroup = .ok size ∧ size ≠ 0 ∧
      (u.link d).harq.assign u.rnti = .ok (process, harq) ∧
      c.Places d draft.cursor cursor (u.link d) startRbg numRbg ∧
      let s : LinkState := { u.link d with blockSize := size, harq }
      let a := draft.cursor.newBlock (u.setLink d s) d process startRbg numRbg
      commit s a = .ok s' ∧ u' = u.setLink d s' ∧
      draft' = { draft with cursor, assignments := draft.assignments ++ [a] } := by
  simp only [serve, LinkState.sized, bind_ok_iff, lift_fault_ok_iff, pure_ok_iff] at h
  obtain ⟨s, ⟨size, hsize, rfl⟩, h⟩ := h
  split at h
  · next h0 =>
    simp only at h0
    cases pure_ok_iff.mp h
    subst h0
    exact .inl ⟨rfl, rfl⟩
  · next h0 =>
    split at h
    · cases pure_ok_iff.mp h
      exact .inl ⟨rfl, rfl⟩
    · next process harq hassign =>
      simp only at hassign
      by_cases hshare : c.sharesBand d = true
      · simp only [if_pos hshare, Cursor.placeRange, bind_ok_iff, lift_fault_ok_iff, pure_ok_iff,
          Word.div_ok_iff, Word.add_eq_ok, Word.toNat_uint32, Prod.mk.injEq, User.link_setLink,
          User.setLink_setLink] at h
        obtain ⟨⟨a, cursor⟩, ⟨groups, ⟨-, rfl⟩, rbg, hrbg, rfl, rfl⟩, s', hcommit, rfl, rfl⟩ := h
        refine .inr ⟨size, process, harq, _, _, _, s', hsize, h0, hassign, ?_, hcommit, rfl, rfl⟩
        rw [Places, if_pos hshare]
        exact ⟨rfl, rfl, rfl, hrbg⟩
      · simp only [if_neg hshare, Cursor.placeBand, bind_ok_iff, lift_fault_ok_iff, pure_ok_iff,
          Word.add_eq_ok, Word.toNat_uint32, Prod.mk.injEq, User.link_setLink,
          User.setLink_setLink] at h
        obtain ⟨⟨a, cursor⟩, ⟨sym, hsym, rfl, rfl⟩, s', hcommit, rfl, rfl⟩ := h
        refine .inr ⟨size, process, harq, _, _, _, s', hsize, h0, hassign, ?_, hcommit, rfl, rfl⟩
        rw [Places, if_neg hshare]
        exact ⟨rfl, rfl, rfl, hsym⟩

/-- Contenders served one after the other. -/
inductive Serves (c : Cell) (d : Direction) : Draft → List Contender → Draft → List User → Prop
  | nil (draft : Draft) : Serves c d draft [] draft []
  | cons {draft draft₁ draft' : Draft} {k : Contender} {ks : List Contender} {u : User}
      {us : List User} (first : c.serve d draft k.user = .ok (draft₁, u))
      (rest : Serves c d draft₁ ks draft' us) : Serves c d draft (k :: ks) draft' (u :: us)

theorem serves_of_foldlM {ks : List Contender} {done us : List User}
    (h : ks.foldlM (fun x k => do
      let y ← c.serve d x.1 k.user
      return (y.1, x.2 ++ [y.2])) (draft, done) = .ok (draft', us)) :
    ∃ new, us = done ++ new ∧ c.Serves d draft ks draft' new := by
  induction ks generalizing draft done with
  | nil =>
    cases pure_ok_iff.mp h
    exact ⟨[], by simp, .nil _⟩
  | cons k ks ih =>
    simp only [List.foldlM_cons, bind_ok_iff, pure_ok_iff] at h
    obtain ⟨_, ⟨⟨draft₁, u⟩, hserve, rfl⟩, h⟩ := h
    obtain ⟨new, rfl, hrest⟩ := ih h
    exact ⟨u :: new, by simp, .cons hserve hrest⟩

theorem serveBeam_cases {split : BeamSymbols} {beam : BeamId} {cs : List Contender}
    {users : List User} (h : c.serveBeam d split draft beam cs = .ok (draft', users)) :
    ∃ draft₁ cursor, c.Serves d draft cs draft₁ users ∧ draft' = { draft₁ with cursor } ∧
      if c.sharesBand d then
        cursor.rbg = 0 ∧ cursor.sym.toNat = draft₁.cursor.sym.toNat + (split.of beam).toNat
      else cursor = draft₁.cursor := by
  simp only [serveBeam, bind_ok_iff] at h
  obtain ⟨⟨draft₁, us⟩, hserve, h⟩ := h
  obtain ⟨new, rfl, hserves⟩ := serves_of_foldlM hserve
  split at h
  · next hshare =>
    simp only [Cursor.nextBeam, bind_ok_iff, lift_fault_ok_iff, pure_ok_iff, Word.add_eq_ok,
      Prod.mk.injEq] at h
    obtain ⟨cursor, ⟨sym, hsym, rfl⟩, rfl, rfl⟩ := h
    refine ⟨draft₁, _, hserves, rfl, ?_⟩
    rw [if_pos hshare]
    exact ⟨rfl, hsym⟩
  · next hshare =>
    simp only [pure_ok_iff, Prod.mk.injEq] at h
    obtain ⟨rfl, rfl⟩ := h
    refine ⟨draft₁, draft₁.cursor, hserves, rfl, ?_⟩
    rw [if_neg hshare]

end Cell

/-- Serving changes nothing that lasts, or it starts a block. -/
def User.Served (d : Direction) (u u' : User) (sent : List Assignment) : Prop :=
  ∃ s, u' = u.setLink d s ∧ ((u.link d).Alike s ∧ sent = [] ∨
    ∃ a, (u.link d).Opened u.rnti u.beam d s a ∧ sent = [a])

theorem User.Served.rnti {d : Direction} {u u' : User} {sent : List Assignment}
    (h : u.Served d u' sent) : u'.rnti = u.rnti := by
  obtain ⟨s, rfl, -⟩ := h
  rw [User.rnti_setLink]

/-- It makes no difference how resources were allotted before. -/
theorem User.Served.of_allotted {d : Direction} {k k' : Contender} {u : User}
    {sent : List Assignment} (hk : Contender.Allotted d k k') (h : k'.user.Served d u sent) :
    k.user.Served d u sent := by
  obtain ⟨s, rfl, h⟩ := h
  have hr := hk.rnti
  have hbeam := hk.beam
  obtain ⟨rbg, sym, t, rfl⟩ := hk
  have hlink := Contender.link_allot (d := d) (c := k) rbg sym t
  have halike : (k.user.link d).Alike ((k.allot d rbg sym t).user.link d) := by
    rw [hlink]
    exact ⟨rfl, rfl, rfl, rfl, rfl, rfl, .inl rfl⟩
  refine ⟨s, by simp [Contender.allot, Contender.modify, User.modify], ?_⟩
  rw [hr, hbeam] at h
  rcases h with ⟨hsame, hsent⟩ | ⟨a, ha, hsent⟩
  · exact .inl ⟨halike.trans hsame, hsent⟩
  · exact .inr ⟨a, ha.congr halike, hsent⟩

structure LinkState.Ready (s : LinkState) : Prop where
  groups : s.groups.WellFormed
  harq : s.harq.WellFormed
  waiting : s.Waiting

namespace Cell

variable {c c' : Cell} {d : Direction} {draft draft' : Draft}

theorem served_of_serve {u u' : User} (hs : (u.link d).Ready)
    (h : c.serve d draft u = .ok (draft', u')) :
    ∃ sent, draft'.assignments = draft.assignments ++ sent ∧ u.Served d u' sent := by
  rcases serve_cases h with ⟨rfl, rfl⟩ |
    ⟨size, process, harq, start, num, cursor, s', -, h0, hassign, -, hcommit, rfl, rfl⟩
  · exact ⟨[], by simp, _, rfl, .inl ⟨⟨rfl, rfl, rfl, rfl, rfl, rfl, .inr rfl⟩, rfl⟩⟩
  · refine ⟨_, rfl, s', rfl, .inr ⟨_, ?_, rfl⟩⟩
    have hp := HarqTable.process?_assign hs.harq hassign process
    rw [if_pos rfl] at hp
    obtain ⟨pdus, groups, hfill, rfl⟩ := commit_ok hcommit hs.groups
      (by simpa [Cursor.newBlock] using hp)
    exact
      { rnti := by simp [Cursor.newBlock]
        beam := by simp [Cursor.newBlock]
        direction := rfl
        newData := rfl
        redundancy := rfl
        mcs := by simp [Cursor.newBlock]
        size_ne := by simpa [Cursor.newBlock] using h0
        waiting := hs.waiting
        stored := ⟨harq, pdus, hassign, hfill, by simp [Cursor.newBlock]⟩
        inFlight := rfl
        blockSize := by simp [Cursor.newBlock]
        same_mcs := rfl
        same_cqi := rfl
        same_retxRbg := rfl }

theorem served_of_serves {ks : List Contender} {us : List User}
    (hs : ∀ k ∈ ks, (k.user.link d).Ready) (h : c.Serves d draft ks draft' us) :
    ∃ out : List (User × List Assignment), us = out.map Prod.fst ∧
      draft'.assignments = draft.assignments ++ out.flatMap Prod.snd ∧
      List.Forall₂ (fun k o => k.user.Served d o.1 o.2) ks out := by
  induction h with
  | nil draft => exact ⟨[], rfl, by simp, .nil⟩
  | @cons draft draft₁ draft' k ks u us first rest ih =>
    obtain ⟨sent, hsent, hserved⟩ := served_of_serve (hs k (by simp)) first
    obtain ⟨out, rfl, hout, hall⟩ := ih fun k' hk' => hs k' (by simp [hk'])
    exact ⟨(u, sent) :: out, rfl, by simp [hout, hsent], .cons hserved hall⟩

theorem served_of_beams {split : BeamSymbols} {active : List (BeamId × List Contender)}
    {served : List (BeamId × List User)}
    (hs : ∀ k ∈ (active.map Prod.snd).flatten, (k.user.link d).Ready)
    (h : Table.Walked (c.serveBeam d split) draft active draft' served) :
    ∃ out : List (User × List Assignment), (served.map Prod.snd).flatten = out.map Prod.fst ∧
      draft'.assignments = draft.assignments ++ out.flatMap Prod.snd ∧
      List.Forall₂ (fun k o => k.user.Served d o.1 o.2) (active.map Prod.snd).flatten out := by
  induction h with
  | nil draft => exact ⟨[], rfl, by simp, .nil⟩
  | @cons draft draft₁ draft' beam ks us active served first rest ih =>
    simp only [List.map_cons, List.flatten_cons, List.mem_append] at hs
    obtain ⟨draft₂, cursor, hserves, rfl, -⟩ := serveBeam_cases first
    obtain ⟨out₁, rfl, hout₁, hall₁⟩ := served_of_serves (fun k hk => hs k (.inl hk)) hserves
    obtain ⟨out₂, hus, hout₂, hall₂⟩ := ih fun k hk => hs k (.inr hk)
    refine ⟨out₁ ++ out₂, ?_, ?_, List.rel_append hall₁ hall₂⟩
    · rw [List.map_cons, List.flatten_cons, hus, List.map_append]
    · rw [hout₂, hout₁, List.flatMap_append, List.append_assoc]

theorem contenders_ok {active : Contenders} (h : c.contenders d = .ok active) :
    active.ByBeam ∧ ∃ ks : List Contender, active.flat.Perm ks ∧
      (ks.map Contender.user).Sublist c.users.values ∧
      ∀ k ∈ ks, (k.user.link d).backlog = .ok k.backlog ∧ k.backlog ≠ 0 := by
  simp only [contenders, bind_ok_iff, pure_ok_iff] at h
  obtain ⟨all, hall, rfl⟩ := h
  have husers : all.map Contender.user = c.users.values := by
    have := map_eq_of_forall₂ (f := fun u : User => u) (g := Contender.user) (mapM_ok_iff.mp hall)
      fun u k hk => by
        simp only [bind_ok_iff, pure_ok_iff] at hk
        obtain ⟨n, -, rfl⟩ := hk
        rfl
    rwa [List.map_id'] at this
  refine ⟨Contenders.byBeam_ofList _, _, Contenders.flat_ofList _, ?_, fun k hk => ?_⟩
  · rw [← husers]
    exact List.filter_sublist.map _
  · obtain ⟨hk, hwants⟩ := List.mem_filter.mp hk
    obtain ⟨u, -, hu⟩ := (mem_mapM_ok hall).mp hk
    simp only [bind_ok_iff, pure_ok_iff] at hu
    obtain ⟨n, hn, rfl⟩ := hu
    simp only [Bool.and_eq_true, bne_iff_ne, ne_eq] at hwants
    exact ⟨hn, hwants.1.1.1⟩

def cleared (c : Cell) (d : Direction) : Cell :=
  { c with users := c.users.map fun u => u.modify d LinkState.newSlot }

theorem link_cleared {r : Rnti} {u : User} (hu : (c.cleared d).users.get? r = some u) :
    ∃ u₀, c.user? r = some u₀ ∧ u.link d = (u₀.link d).newSlot := by
  rw [cleared, Table.get?_map, Option.map_eq_some_iff] at hu
  obtain ⟨u₀, hu₀, rfl⟩ := hu
  exact ⟨u₀, hu₀, User.link_setLink u₀ d _⟩

/-- The symbols and groups of a shared-out band, beam by beam or over all of it. -/
def Shared (c : Cell) (d : Direction) (symbols : UInt32) (split : BeamSymbols)
    (active : Contenders) : Prop :=
  if c.sharesBand d then
    split.sum ≤ symbols.toNat ∧
      ∀ e ∈ active.entries, Ranged d (split.of e.1) c.config.groups e.2
  else
    (∀ k ∈ active.flat, (k.user.link d).rbg.toNat =
      (k.user.link d).sym.toNat * c.config.groups.toNat) ∧
    (active.flat.map fun k => (k.user.link d).sym.toNat).sum ≤ symbols.toNat

theorem allocate_ok {symbols : UInt32} {active active' : Contenders} {split : BeamSymbols}
    (hstart : ∀ k ∈ active.flat, (k.user.link d).rbg = 0 ∧ (k.user.link d).sym = 0)
    (h : c.allocate d symbols active = .ok (split, active')) :
    active.Allotted d active' ∧ c.Shared d symbols split active' := by
  unfold allocate at h
  unfold Shared
  simp only at h
  split at h
  · next hshare =>
    rw [if_pos hshare]
    have hd : d = .downlink := by
      simp only [sharesBand, Bool.and_eq_true, decide_eq_true_eq] at hshare
      exact hshare.1
    subst hd
    exact assignOfdma_ok (fun k hk => (hstart k hk).1) h
  · next hshare =>
    rw [if_neg hshare]
    exact assignTdma_ok (k := ⟨d, c.linkModel, c.config.blocksPerGroup⟩) hstart h

/-- A direction of a slot: the lost blocks of all users first, and then new data, if symbols are left
and somebody has something to send. -/
theorem scheduleDirection_cases (h : c.scheduleDirection d = .ok (c', draft)) :
    ∃ draft₀ draft₁ users, Draft.start c.config d = .ok draft₀ ∧
      Table.Walked (fun (draft : Draft) _ u => draft.resendUser d u) draft₀
        (c.cleared d).users.entries draft₁ users.entries ∧
      (c' = { c with users } ∧ draft = draft₁ ∨
        ∃ (active active' : Contenders) (split used : BeamSymbols)
          (served : Table BeamId (List User)) (draft₂ : Draft),
          Cell.contenders { c with users } d = .ok active ∧
          Cell.allocate { c with users } d draft₁.left active = .ok (split, active') ∧
          Table.Walked (Cell.serveBeam { c with users } d split) draft₁ active'.entries draft₂
            served.entries ∧
          split.entries.foldlM (fun t e => BeamSymbols.give t e.1 e.2) draft₂.used = .ok used ∧
          c' = (served.values.flatten).foldl put { c with users } ∧
          draft = { draft₂ with used }) := by
  simp only [scheduleDirection, bind_ok_iff, lift_fault_ok_iff] at h
  obtain ⟨draft₀, hstart, ⟨draft₁, users⟩, hresend, h⟩ := h
  refine ⟨draft₀, draft₁, users, hstart,
    (Table.walk_ok hresend).imp fun _ _ _ _ => lift_fault_ok_iff.mp, ?_⟩
  split at h
  · cases pure_ok_iff.mp h
    exact .inl ⟨rfl, rfl⟩
  · simp only [addNewData, bind_ok_iff, lift_fault_ok_iff] at h
    obtain ⟨active, hactive, h⟩ := h
    split at h
    · cases pure_ok_iff.mp h
      exact .inl ⟨rfl, rfl⟩
    · simp only [bind_ok_iff, lift_fault_ok_iff, pure_ok_iff, Prod.mk.injEq] at h
      obtain ⟨⟨split, active'⟩, hallocate, ⟨draft₂, served⟩, hserve, used, hused, rfl, rfl⟩ := h
      exact .inr ⟨active, active', split, used, served, draft₂, hactive, hallocate,
        Table.walk_ok hserve, foldlM_imp hused fun _ _ _ => lift_fault_ok_iff.mp, rfl, rfl⟩

theorem assignments_start {config : CellConfig} (h : Draft.start config d = .ok draft) :
    draft.assignments = [] := by
  simp only [Draft.start, bind_ok_iff, pure_ok_iff] at h
  obtain ⟨left, -, rfl⟩ := h
  rfl

theorem resent_users {draft₀ draft₁ : Draft} {users : Table Rnti User}
    (hnil : draft₀.assignments = [])
    (h : Table.Walked (fun (draft : Draft) _ u => draft.resendUser d u) draft₀
      (c.cleared d).users.entries draft₁ users.entries) :
    ∃ E : Rnti → List Assignment, draft₁.assignments = c.users.keys.flatMap E ∧
      ∀ r, c.user? r = none ∧ users.get? r = none ∨
        ∃ u s, c.user? r = some u ∧ users.get? r = some (u.setLink d s) ∧
          (u.link d).Resent u.beam s (E r) ∧ s.rbg = 0 ∧ s.sym = 0 := by
  have hr : ∀ r, (c.cleared d).users.get? r = (c.users.get? r).map fun u =>
      u.modify d LinkState.newSlot := fun r => Table.get?_map _ _ _
  have hzero : ∀ r u, (c.cleared d).users.get? r = some u →
      (u.link d).retxRbg = 0 ∧ (u.link d).blockSize = 0 := by
    intro r u hu
    obtain ⟨u₀, -, hlink⟩ := link_cleared hu
    rw [hlink]
    exact ⟨rfl, rfl⟩
  obtain ⟨E, hE, hall⟩ := Table.emits_of_walked Draft.assignments h
    fun draft r u draft' u' hget hu =>
      Draft.resent_of_resendUser (hzero r u hget).1 (hzero r u hget).2 hu
  have hkeys : (c.cleared d).users.keys = c.users.keys := Table.keys_map _ _
  refine ⟨E, ?_, fun r => ?_⟩
  · rw [hE, hnil, List.nil_append, ← hkeys]
  · rcases hall r with ⟨hnone, hnone'⟩ | ⟨u₀, u₁, hu₀, hu₁, hresent⟩
    · rw [hr, Option.map_eq_none_iff] at hnone
      exact .inl ⟨hnone, hnone'⟩
    · rw [hr] at hu₀
      obtain ⟨u, hu, rfl⟩ := Option.map_eq_some_iff.mp hu₀
      obtain ⟨hresent, retxRbg, inFlight, rfl⟩ := hresent
      simp only [User.modify, User.link_setLink, User.setLink_setLink, User.beam_setLink]
        at hresent hu₁
      exact .inr ⟨u, _, hu, hu₁, ⟨hresent.groups, hresent.harq, hresent.mcs, hresent.cqi,
        hresent.retxRbg, hresent.blockSize, hresent.blocks⟩, rfl, rfl⟩

theorem user?_foldl_put {us : List User} (hnodup : (us.map User.rnti).Nodup) (c : Cell) (r : Rnti) :
    (r ∉ us.map User.rnti → (us.foldl put c).user? r = c.user? r) ∧
      ∀ u ∈ us, u.rnti = r → (us.foldl put c).user? r = some u := by
  induction us generalizing c with
  | nil => exact ⟨fun _ => rfl, fun u hu => by cases hu⟩
  | cons v us ih =>
    rw [List.map_cons, List.nodup_cons] at hnodup
    obtain ⟨hout, hin⟩ := ih hnodup.2 (c.put v)
    refine ⟨fun hr => ?_, fun u hu hr => ?_⟩
    · rw [List.map_cons, List.mem_cons, not_or] at hr
      rw [List.foldl_cons, hout hr.2, user?_put, if_neg hr.1]
    · rcases List.mem_cons.mp hu with rfl | hu
      · subst hr
        rw [List.foldl_cons, hout hnodup.1, user?_put, if_pos rfl]
      · exact hin u hu hr

theorem foldl_put_frame (us : List User) (c : Cell) :
    us.foldl put c = { c with users := (us.foldl put c).users } := by
  induction us generalizing c with
  | nil => rfl
  | cons u us ih =>
    rw [List.foldl_cons, ih]
    rfl

def Cleared (c : Cell) (d : Direction) : Prop :=
  ∀ r u, c.user? r = some u → u.rnti = r ∧ (u.link d).groups.WellFormed ∧
    (u.link d).harq.WellFormed ∧ (u.link d).rbg = 0 ∧ (u.link d).sym = 0

theorem active_ok (hc : c.Cleared d) {active : Contenders} (h : c.contenders d = .ok active) :
    (active.flat.map fun k => k.user.rnti).Nodup ∧
      ∀ k ∈ active.flat, c.user? k.user.rnti = some k.user ∧ (k.user.link d).Ready ∧
        (k.user.link d).rbg = 0 ∧ (k.user.link d).sym = 0 := by
  obtain ⟨-, ks, hperm, hsub, hwaiting⟩ := contenders_ok h
  have hkeys : c.users.values.map User.rnti = c.users.keys := by
    simp only [Table.values, Table.keys, List.map_map]
    apply List.map_congr_left
    intro e he
    exact (hc e.1 e.2 (Table.mem_entries.mp he)).1
  constructor
  · have hnodup : (ks.map fun k => k.user.rnti).Nodup := by
      have := (hsub.map User.rnti).nodup (hkeys ▸ c.users.keys_nodup)
      rwa [List.map_map] at this
    exact ((hperm.map _).nodup_iff).mpr hnodup
  · intro k hk
    rw [hperm.mem_iff] at hk
    obtain ⟨r, hr⟩ := Table.mem_values.mp (hsub.subset (List.mem_map_of_mem hk))
    obtain ⟨rfl, hgroups, hharq, hzero⟩ := hc r k.user hr
    exact ⟨hr, ⟨hgroups, hharq, k.backlog, hwaiting k hk⟩, hzero⟩

theorem cleared_of_resent (hc : c.Sound) {draft₀ draft₁ : Draft} {users : Table Rnti User}
    (hstart : Draft.start c.config d = .ok draft₀)
    (hresend : Table.Walked (fun (draft : Draft) _ u => draft.resendUser d u) draft₀
      (c.cleared d).users.entries draft₁ users.entries) : Cleared { c with users } d := by
  obtain ⟨E, -, husers⟩ := resent_users (assignments_start hstart) hresend
  intro r u hu
  rcases husers r with ⟨-, hnone⟩ | ⟨u₀, s, hu₀, hu', hresent, h0⟩
  · rw [user?, hnone] at hu
    cases hu
  · rw [user?, hu', Option.some.injEq] at hu
    subst hu
    obtain ⟨hr, hs⟩ := hc.user r u₀ hu₀
    rw [User.rnti_setLink, User.link_setLink, hresent.groups, hresent.harq]
    exact ⟨hr, (hs d).groups, (hs d).harq, h0⟩

theorem resent_user (hc : c.Sound) {draft₀ draft₁ : Draft} {users : Table Rnti User}
    (hstart : Draft.start c.config d = .ok draft₀)
    (hresend : Table.Walked (fun (draft : Draft) _ u => draft.resendUser d u) draft₀
      (c.cleared d).users.entries draft₁ users.entries) (r : Rnti) :
    c.user? r = none ∧ users.get? r = none ∧ draft₁.assignments.filter (·.rnti = r) = [] ∨
      ∃ u s, c.user? r = some u ∧ users.get? r = some (u.setLink d s) ∧
        (u.link d).Resent u.beam s (draft₁.assignments.filter (·.rnti = r)) := by
  obtain ⟨E, hE, husers⟩ := resent_users (assignments_start hstart) hresend
  have hkey : ∀ r' ∈ c.users.keys, ∀ a ∈ E r', a.rnti = r' := by
    intro r' hr' a ha
    rw [Table.mem_keys] at hr'
    rcases husers r' with ⟨hnone, -⟩ | ⟨u, s, hu, -, hresent, -⟩
    · rw [user?] at hnone
      rw [hnone] at hr'
      cases hr'
    · obtain ⟨id, b, sym, hb, -, rfl⟩ := hresent.mem ha
      exact (((hc.user r' u hu).2 d).block id b hb).1.rnti
  rw [hE]
  rcases husers r with ⟨hnone, hnone'⟩ | ⟨u, s, hu, hu', hresent, -⟩
  · have hr : r ∉ c.users.keys := by
      rw [Table.mem_keys, ← user?, hnone]
      simp
    exact .inl ⟨hnone, hnone', filter_flatMap_of_not_mem hkey (by simpa using hr)⟩
  · have hr : r ∈ c.users.keys := by
      rw [Table.mem_keys, ← user?, hu]
      rfl
    have hmine : (c.users.keys.flatMap E).filter (·.rnti = r) = E r :=
      filter_flatMap_of_mem hkey (by simpa using c.users.keys_nodup) hr
    exact .inr ⟨u, s, hu, hu', hmine ▸ hresent⟩

theorem ready_of_allocate (hc : c.Cleared d) {symbols : UInt32} {active active' : Contenders}
    {split : BeamSymbols} (hactive : c.contenders d = .ok active)
    (hallocate : c.allocate d symbols active = .ok (split, active')) :
    ∀ k ∈ active'.flat, (k.user.link d).Ready := by
  obtain ⟨-, husers⟩ := active_ok hc hactive
  obtain ⟨hallotted, -⟩ := allocate_ok (fun k hk => (husers k hk).2.2) hallocate
  intro k hk
  obtain ⟨k₀, hk₀, rbg, sym, t, rfl⟩ := exists_left_of_forall₂ hallotted.flat hk
  rw [Contender.link_allot]
  have hready := (husers k₀ hk₀).2.1
  exact ⟨hready.groups, hready.harq, hready.waiting⟩

theorem served_users (hc : c.Cleared d) {symbols : UInt32} {active active' : Contenders}
    {split : BeamSymbols} {served : Table BeamId (List User)}
    (hactive : c.contenders d = .ok active)
    (hallocate : c.allocate d symbols active = .ok (split, active'))
    (hserve : Table.Walked (c.serveBeam d split) draft active'.entries draft' served.entries) :
    ∃ new, draft'.assignments = draft.assignments ++ new ∧ ∀ r,
      (served.values.flatten.foldl put c).user? r = c.user? r ∧ new.filter (·.rnti = r) = [] ∨
      ∃ u s, c.user? r = some u ∧
        (served.values.flatten.foldl put c).user? r = some (u.setLink d s) ∧
        ((u.link d).Alike s ∧ new.filter (·.rnti = r) = [] ∨
          ∃ a, (u.link d).Opened r u.beam d s a ∧ new.filter (·.rnti = r) = [a]) := by
  obtain ⟨hnodup, husers⟩ := active_ok hc hactive
  obtain ⟨hallotted, -⟩ := allocate_ok (fun k hk => (husers k hk).2.2) hallocate
  obtain ⟨out, hout, hsent, hserved⟩ :=
    served_of_beams (ready_of_allocate hc hactive hallocate) hserve
  have hserved : List.Forall₂ (fun k o => k.user.Served d o.1 o.2) active.flat out :=
    forall₂_trans hallotted.flat hserved fun k k' o hk ho => ho.of_allotted hk
  have htags : out.map (fun o => o.1.rnti) = active.flat.map fun k => k.user.rnti :=
    map_eq_of_forall₂ hserved fun k o ho => ho.rnti
  have hkey : ∀ o ∈ out, ∀ a ∈ o.2, a.rnti = o.1.rnti := by
    intro o ho a ha
    obtain ⟨k, -, s, hu, ⟨-, hnone⟩ | ⟨a', ha', hone⟩⟩ := exists_left_of_forall₂ hserved ho
    · rw [hnone] at ha
      cases ha
    · rw [hone, List.mem_singleton] at ha
      rw [ha, hu, ha'.rnti, User.rnti_setLink]
  have hvalues : served.values.flatten = out.map Prod.fst := hout
  have hputs : (served.values.flatten.map User.rnti) = out.map fun o => o.1.rnti := by
    rw [hvalues, List.map_map]
    rfl
  have hput := user?_foldl_put (hputs ▸ htags ▸ hnodup) c
  refine ⟨out.flatMap Prod.snd, hsent, ?_⟩
  intro r
  by_cases hr : r ∈ out.map fun o => o.1.rnti
  · obtain ⟨o, ho, rfl⟩ := List.mem_map.mp hr
    obtain ⟨k, hk, hko⟩ := exists_left_of_forall₂ hserved ho
    have hmine := filter_flatMap_of_mem hkey (htags ▸ hnodup) ho
    have hmem : o.1 ∈ served.values.flatten := hvalues ▸ List.mem_map_of_mem ho
    have hafter := (hput o.1.rnti).2 o.1 hmem rfl
    rw [hmine]
    have hrnti := hko.rnti
    obtain ⟨s, hu, hcases⟩ := hko
    exact .inr ⟨k.user, s, hrnti ▸ (husers k hk).1, hu ▸ hafter, hrnti ▸ hcases⟩
  · refine .inl ⟨(hput r).1 (hputs ▸ hr), filter_flatMap_of_not_mem hkey hr⟩

/-- A direction of a slot, read for one user. -/
theorem scheduleDirection_user (hc : c.Sound) (h : c.scheduleDirection d = .ok (c', draft))
    (r : Rnti) :
    c.user? r = none ∧ c'.user? r = none ∧ draft.assignments.filter (·.rnti = r) = [] ∨
      ∃ u s, c.user? r = some u ∧ c'.user? r = some (u.setLink d s) ∧
        (u.link d).Turn r u.beam d s (draft.assignments.filter (·.rnti = r)) := by
  obtain ⟨draft₀, draft₁, users, hstart, hresend, hend⟩ := scheduleDirection_cases h
  have hagain := resent_user hc hstart hresend r
  rcases hend with ⟨rfl, rfl⟩ | ⟨active, active', split, used, served, draft₂, hactive, hallocate,
    hserve, -, rfl, rfl⟩
  · rcases hagain with hnone | ⟨u, s, hu, hu', hresent⟩
    · exact .inl hnone
    · exact .inr ⟨u, s, hu, hu', s, _, [], hresent, by simp, .inl ⟨.refl s, rfl⟩⟩
  · have hcleared := cleared_of_resent hc hstart hresend
    obtain ⟨new, hnew, hread⟩ := served_users hcleared hactive hallocate hserve
    simp only [hnew, List.filter_append]
    rcases hagain with ⟨hnone, hnone', hempty⟩ | ⟨u, s, hu, hu', hresent⟩
    · rcases hread r with ⟨hsame, hnil⟩ | ⟨u, s, hu, -⟩
      · exact .inl ⟨hnone, hsame.trans hnone', by rw [hempty, hnil, List.append_nil]⟩
      · rw [user?, hnone'] at hu
        cases hu
    · rcases hread r with ⟨hsame, hnil⟩ | ⟨u₁, s', hu₁, hu₁', hcases⟩
      · exact .inr ⟨u, s, hu, hsame.trans hu', s, _, _, hresent, rfl, .inl ⟨.refl s, hnil⟩⟩
      · rw [user?, hu', Option.some.injEq] at hu₁
        subst hu₁
        rw [User.setLink_setLink] at hu₁'
        rw [User.link_setLink, User.beam_setLink] at hcases
        exact .inr ⟨u, s', hu, hu₁', s, _, _, hresent, rfl, hcases⟩

end Cell

end Airtime
