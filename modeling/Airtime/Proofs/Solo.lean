import Airtime.Proofs.Run

/-! One direction of a slot with the other one taken away. A user in one direction is its number,
its beam and its state there (`User.solo`). Each stage of a slot gives the same in a direction
whether the other one is there or not, so the states of that direction and what is laid out in it
are decided by that direction alone (`Cell.scheduleDirection_solo`). -/

namespace Airtime

/-- The user in one direction, with nothing in the other one. -/
def User.solo (d : Direction) (u : User) : User :=
  (User.fresh u.rnti u.beam 0 0 0).setLink d (u.link d)

namespace User

variable {d e : Direction}

@[simp] theorem rnti_solo (u : User) : (u.solo d).rnti = u.rnti := rnti_setLink _ _ _

@[simp] theorem beam_solo (u : User) : (u.solo d).beam = u.beam := beam_setLink _ _ _

@[simp] theorem link_solo (u : User) : (u.solo d).link d = u.link d := link_setLink _ _ _

@[simp] theorem solo_setLink (u : User) (s : LinkState) :
    (u.setLink d s).solo d = (u.solo d).setLink d s := by cases d <;> rfl

theorem solo_setLink_of_ne (h : d ≠ e) (u : User) (s : LinkState) :
    (u.setLink e s).solo d = u.solo d := by
  rw [solo, solo, rnti_setLink, beam_setLink, link_setLink_of_ne u h]

@[simp] theorem solo_modify (u : User) (f : LinkState → LinkState) :
    (u.modify d f).solo d = (u.solo d).modify d f := by
  rw [modify, modify, solo_setLink, link_solo]

end User

def Contender.solo (d : Direction) (c : Contender) : Contender := { c with user := c.user.solo d }

theorem Contender.solo_modify (d : Direction) (c : Contender) (f : LinkState → LinkState) :
    (c.modify d f).solo d = (c.solo d).modify d f :=
  congrArg (Contender.mk · c.backlog) (c.user.solo_modify f)

def Seat.solo (d : Direction) (s : Seat) : Seat := (s.1.solo d, s.2)

namespace Policy

variable {p : Policy} {k : Contest} {c c' : Contender}

theorem compare_solo (p : Policy) (d : Direction) (a b : Contender) :
    p.compare d (a.solo d) (b.solo d) = p.compare d a b := by
  simp only [compare, Contender.solo, User.link_solo]

theorem prepare_solo {r : Resources} (h : p.prepare k r c = .ok c') :
    p.prepare k r (c.solo k.direction) = .ok (c'.solo k.direction) := by
  cases p with
  | proportionalFair window fairness =>
    simp only [prepare, bind_ok_iff, pure_ok_iff] at h ⊢
    obtain ⟨units, hunits, rfl⟩ := h
    refine ⟨units, hunits, ?_⟩
    rw [Contender.solo_modify]
    simp only [Contender.solo, User.link_solo]
  | _ =>
    cases h
    rfl

end Policy

namespace Contest

variable (k : Contest) (c : Contender)

theorem achievable_solo : k.achievable (c.solo k.direction) = k.achievable c := by
  simp only [achievable, Contender.solo, User.link_solo]

theorem wants_solo : k.wants (c.solo k.direction) = k.wants c := by
  simp only [wants, achievable_solo]
  rfl

end Contest

namespace Policy

variable {p : Policy} {k : Contest} {c c' : Contender}

theorem recordGrant_solo (h : p.recordGrant k c = .ok c') :
    p.recordGrant k (c.solo k.direction) = .ok (c'.solo k.direction) := by
  cases p with
  | proportionalFair window fairness =>
    simp only [recordGrant, bind_ok_iff, pure_ok_iff, k.achievable_solo] at h ⊢
    obtain ⟨bytes, hbytes, rfl⟩ := h
    exact ⟨bytes, hbytes, (Contender.solo_modify ..).symm⟩
  | _ =>
    cases h
    rfl

theorem recordMiss_solo (p : Policy) (k : Contest) (c : Contender) :
    (p.recordMiss k c).solo k.direction = p.recordMiss k (c.solo k.direction) := by
  cases p with
  | proportionalFair window fairness => exact Contender.solo_modify ..
  | _ => rfl

end Policy

namespace Contest

variable {k : Contest} {p : Policy} {grant : Grantor}

theorem rank_solo (k : Contest) (p : Policy) (cs : List Seat) :
    k.rank p (cs.map (Seat.solo k.direction)) = (k.rank p cs).map (Seat.solo k.direction) := by
  refine (List.map_mergeSort fun a _ b _ => ?_).symm
  rw [Seat.solo, Seat.solo, Policy.compare_solo]

theorem round_solo {total : Resources} {cs : List Seat}
    {o : Option (BeamId × Resources × List Seat)} (h : k.round p grant total cs = .ok o) :
    k.round p grant total (cs.map (Seat.solo k.direction)) =
      .ok (o.map fun x => (x.1, x.2.1, x.2.2.map (Seat.solo k.direction))) := by
  simp only [round, bind_ok_iff] at h ⊢
  obtain ⟨marked, hmarked, h⟩ := h
  refine ⟨marked.map fun m => (m.1.solo k.direction, m.2), ?_, ?_⟩
  · rw [rank_solo]
    refine mapM_ok_map hmarked fun s m hm => ?_
    simp only [bind_ok_iff, pure_ok_iff] at hm ⊢
    obtain ⟨wants, hwants, rfl⟩ := hm
    exact ⟨wants, (k.wants_solo s.1).trans hwants, rfl⟩
  · have hcontent : (marked.map fun m => (m.1.solo k.direction, m.2)).takeWhile (fun m => !m.2) =
        (marked.takeWhile fun m => !m.2).map fun m => (m.1.solo k.direction, m.2) :=
      List.takeWhile_map ..
    rw [hcontent, List.length_map, ← List.map_drop]
    generalize marked.drop (marked.takeWhile fun m => !m.2).length = rest at h ⊢
    cases rest with
    | nil =>
      cases h
      rfl
    | cons first others =>
      obtain ⟨⟨winner, place⟩, wants⟩ := first
      simp only [bind_ok_iff, pure_ok_iff] at h
      obtain ⟨state, hstate, total', htotal, winner', hwinner, rfl⟩ := h
      simp only [List.map_cons, Seat.solo, bind_ok_iff, pure_ok_iff]
      refine ⟨state, ?_, total', htotal, winner'.solo k.direction, ?_, ?_⟩
      · rw [Contender.solo, User.link_solo]
        exact hstate
      · have := Policy.recordGrant_solo hwinner
        rwa [Contender.solo, User.solo_setLink] at this
      · have hothers : ∀ m : Seat × Bool,
            ((if m.2 then p.recordMiss k (m.1.1.solo k.direction) else m.1.1.solo k.direction),
                m.1.2) =
              Seat.solo k.direction (if m.2 then p.recordMiss k m.1.1 else m.1.1, m.1.2) := by
          intro m
          rw [Seat.solo, apply_ite (Contender.solo k.direction), Policy.recordMiss_solo]
        have hbeam : (winner'.solo k.direction).user.beam = winner'.user.beam := User.beam_solo _
        simp only [Option.map_some, List.map_append, List.map_cons, List.map_map, Function.comp_def,
          ← hothers, hbeam]
        rfl

theorem rounds_solo {n : Nat} {total : Resources} {cs cs' : List Seat} {won won' : BeamSymbols}
    (h : k.rounds p grant n total cs won = .ok (cs', won')) :
    k.rounds p grant n total (cs.map (Seat.solo k.direction)) won =
      .ok (cs'.map (Seat.solo k.direction), won') := by
  induction n generalizing total cs won with
  | zero =>
    cases h
    rfl
  | succ n ih =>
    simp only [rounds, bind_ok_iff] at h ⊢
    obtain ⟨o, hround, h⟩ := h
    refine ⟨_, round_solo hround, ?_⟩
    cases o with
    | none =>
      cases h
      rfl
    | some x =>
      simp only [Option.map_some, bind_ok_iff] at h ⊢
      obtain ⟨won₁, hwon, h⟩ := h
      exact ⟨won₁, hwon, ih h⟩

theorem run_solo {assignable : Resources} {n : UInt32} {cs cs' : List Contender}
    {won : BeamSymbols} (h : k.run p grant assignable n cs = .ok (cs', won)) :
    k.run p grant assignable n (cs.map (Contender.solo k.direction)) =
      .ok (cs'.map (Contender.solo k.direction), won) := by
  simp only [run, bind_ok_iff, pure_ok_iff, Prod.mk.injEq] at h ⊢
  obtain ⟨ready, hready, ⟨seats, won'⟩, hrounds, rfl, rfl⟩ := h
  refine ⟨_, mapM_ok_map hready fun c c' => Policy.prepare_solo,
    (seats.map (Seat.solo k.direction), won'), ?_, ?_, rfl⟩
  · rw [List.zipIdx_map]
    exact rounds_solo hrounds
  · have hsort : (seats.map (Seat.solo k.direction)).mergeSort (fun a b => a.2 ≤ b.2) =
        (seats.mergeSort fun a b => a.2 ≤ b.2).map (Seat.solo k.direction) := by
      refine (List.map_mergeSort fun _ _ _ _ => ?_).symm
      rfl
    rw [hsort, List.map_map, List.map_map]
    rfl

end Contest

namespace Contenders

def solo (d : Direction) (t : Contenders) : Contenders := t.map (List.map (Contender.solo d))

theorem flat_solo (d : Direction) (t : Contenders) :
    (t.solo d).flat = t.flat.map (Contender.solo d) := by
  rw [flat, flat, solo, Table.values_map, List.map_flatten]

theorem isEmpty_solo (d : Direction) (t : Contenders) : (t.solo d).isEmpty = t.isEmpty := by
  simp only [solo, Table.isEmpty, Table.map, List.isEmpty_map]

theorem ofList_solo (d : Direction) (cs : List Contender) :
    ofList (cs.map (Contender.solo d)) = (ofList cs).solo d := by
  rw [ofList, List.foldl_map, ofList]
  change List.foldl _ (solo d ∅) cs = solo d (List.foldl _ ∅ cs)
  refine List.foldl_hom (solo d) fun t c => ?_
  have hbeam : (c.solo d).user.beam = c.user.beam := User.beam_solo _
  rw [solo, solo, Table.map_insert, hbeam, Table.get?_map, List.map_append]
  cases Table.get? t c.user.beam <;> rfl

/-- Contenders that take the places of others, beam by beam. -/
theorem walkList_solo (d : Direction) (l : List (BeamId × List Contender)) (cs : List Contender) :
    (Table.walkList (m := Id) (fun rest _ old => (rest.drop old.length, rest.take old.length))
        (cs.map (Contender.solo d)) (l.map fun e => (e.1, e.2.map (Contender.solo d)))).2.1 =
      (Table.walkList (m := Id) (fun rest _ old => (rest.drop old.length, rest.take old.length))
        cs l).2.1.map fun e => (e.1, e.2.map (Contender.solo d)) := by
  induction l generalizing cs with
  | nil => rfl
  | cons e l ih =>
    have hrest := ih (cs.drop e.2.length)
    rw [List.map_drop] at hrest
    refine List.cons_eq_cons.mpr ⟨Prod.ext rfl ?_, ?_⟩
    · simp only [List.length_map, List.map_take]
    · rwa [List.length_map]

theorem refill_solo (d : Direction) (t : Contenders) (cs : List Contender) :
    (t.solo d).refill (cs.map (Contender.solo d)) = (t.refill cs).solo d :=
  Table.ext_get? fun beam => congrArg (Table.lookup beam) (walkList_solo d t.entries cs)

end Contenders

theorem assignTdma_solo {k : Contest} {p : Policy} {symbols groups : UInt32}
    {active active' : Contenders} {won : BeamSymbols}
    (h : assignTdma k p symbols groups active = .ok (won, active')) :
    assignTdma k p symbols groups (active.solo k.direction) =
      .ok (won, active'.solo k.direction) := by
  unfold assignTdma at h ⊢
  rw [Contenders.flat_solo, List.isEmpty_map]
  split at h
  · next hnone =>
    cases h
    rw [if_pos hnone]
    rfl
  · next hsome =>
    rw [if_neg hsome]
    simp only [bind_ok_iff, pure_ok_iff, Prod.mk.injEq] at h ⊢
    obtain ⟨units, hunits, ⟨cs, won'⟩, hrun, rfl, rfl⟩ := h
    exact ⟨units, hunits, _, Contest.run_solo hrun, rfl, Contenders.refill_solo ..⟩

theorem splitSymbols_solo (d : Direction) (symbols : UInt32) (active : Contenders) :
    splitSymbols symbols (active.solo d) = splitSymbols symbols active := by
  have hentries : (active.solo d).entries =
      active.entries.map fun e => (e.1, e.2.map (Contender.solo d)) := rfl
  rw [splitSymbols, splitSymbols, hentries, List.mapM_map]
  simp only [Function.comp_def, List.map_map]
  rfl

theorem assignBeam_solo {k : Contest} {p : Policy} {symbols groups : UInt32}
    {cs cs' : List Contender} (h : assignBeam k p symbols groups cs = .ok cs') :
    assignBeam k p symbols groups (cs.map (Contender.solo k.direction)) =
      .ok (cs'.map (Contender.solo k.direction)) := by
  unfold assignBeam at h ⊢
  split at h
  · next hnone =>
    cases h
    rw [if_pos hnone]
    rfl
  · next hsome =>
    rw [if_neg hsome]
    simp only [bind_ok_iff, pure_ok_iff] at h ⊢
    obtain ⟨units, hunits, ⟨cs₁, won⟩, hrun, rfl⟩ := h
    exact ⟨units, hunits, _, Contest.run_solo hrun, rfl⟩

theorem assignOfdma_solo {link : LinkModel} {blocksPerGroup : UInt32} {p : Policy}
    {symbols groups : UInt32} {active active' : Contenders} {split : BeamSymbols}
    (h : assignOfdma link blocksPerGroup p symbols groups active = .ok (split, active')) :
    assignOfdma link blocksPerGroup p symbols groups (active.solo .downlink) =
      .ok (split, active'.solo .downlink) := by
  unfold assignOfdma at h ⊢
  simp only [bind_ok_iff, pure_ok_iff, Prod.mk.injEq] at h ⊢
  obtain ⟨split', hsplit, ⟨⟨⟩, active₁⟩, hwalk, rfl, rfl⟩ := h
  refine ⟨split', (splitSymbols_solo ..).trans hsplit, ((), Contenders.solo .downlink active₁), ?_,
    rfl, rfl⟩
  refine Table.walk_ok_map hwalk fun _ beam cs _ cs' hcs => ?_
  simp only [bind_ok_iff, pure_ok_iff, Prod.mk.injEq] at hcs ⊢
  obtain ⟨cs₁, hassign, -, rfl⟩ := hcs
  exact ⟨_, assignBeam_solo hassign, trivial, rfl⟩

/-- The cell in one direction. Who waits for confirmations does not matter there. -/
def Cell.solo (d : Direction) (c : Cell) : Cell :=
  { c with users := c.users.map (User.solo d), confirming := false }

namespace Cell

variable {c c' : Cell} {d : Direction}

theorem user?_solo (c : Cell) (d : Direction) (r : Rnti) :
    (c.solo d).user? r = (c.user? r).map (User.solo d) := Table.get?_map ..

theorem solo_put (c : Cell) (d : Direction) (u : User) :
    (c.put u).solo d = (c.solo d).put (u.solo d) := by
  rw [solo, put, Table.map_insert, put, User.rnti_solo]
  rfl

theorem solo_foldl_put (d : Direction) (us : List User) (c : Cell) :
    (us.foldl put c).solo d = (us.map (User.solo d)).foldl put (c.solo d) := by
  rw [List.foldl_map]
  exact (List.foldl_hom (solo d) fun c u => (c.solo_put d u).symm).symm

theorem contenders_solo {active : Contenders} (h : c.contenders d = .ok active) :
    (c.solo d).contenders d = .ok (active.solo d) := by
  simp only [contenders, bind_ok_iff, pure_ok_iff] at h ⊢
  obtain ⟨all, hall, rfl⟩ := h
  refine ⟨all.map (Contender.solo d), ?_, ?_⟩
  · have hvalues : (c.solo d).users.values = c.users.values.map (User.solo d) :=
      Table.values_map ..
    rw [hvalues]
    refine mapM_ok_map hall fun u k hk => ?_
    simp only [bind_ok_iff, pure_ok_iff] at hk ⊢
    obtain ⟨backlog, hbacklog, rfl⟩ := hk
    exact ⟨backlog, by rwa [User.link_solo], rfl⟩
  · rw [List.filter_map, Contenders.ofList_solo]
    simp only [Function.comp_def, Contender.solo, User.link_solo]

theorem allocate_solo {symbols : UInt32} {active active' : Contenders} {split : BeamSymbols}
    (h : c.allocate d symbols active = .ok (split, active')) :
    (c.solo d).allocate d symbols (active.solo d) = .ok (split, active'.solo d) := by
  unfold allocate at h ⊢
  simp only at h ⊢
  split at h
  · next hshare =>
    have hd : d = .downlink := by
      simp only [sharesBand, Bool.and_eq_true, decide_eq_true_eq] at hshare
      exact hshare.1
    subst hd
    exact (if_pos hshare).trans (assignOfdma_solo h)
  · next hshare => exact (if_neg hshare).trans (assignTdma_solo h)

theorem placeRange_solo (cursor : Cursor) (u : User) (d : Direction) (process : ProcessId) :
    cursor.placeRange (u.solo d) d process = cursor.placeRange u d process := by
  simp only [Cursor.placeRange, Cursor.newBlock, User.rnti_solo, User.beam_solo, User.link_solo]

theorem placeBand_solo (cursor : Cursor) (u : User) (d : Direction) (groups : UInt32)
    (process : ProcessId) :
    cursor.placeBand (u.solo d) d groups process = cursor.placeBand u d groups process := by
  simp only [Cursor.placeBand, Cursor.newBlock, User.rnti_solo, User.beam_solo, User.link_solo]

theorem serve_solo {draft draft' : Draft} {u u' : User} (h : c.serve d draft u = .ok (draft', u')) :
    (c.solo d).serve d draft (u.solo d) = .ok (draft', u'.solo d) := by
  unfold serve at h ⊢
  simp only [User.link_solo, User.rnti_solo, bind_ok_iff] at h ⊢
  obtain ⟨s, hs, h⟩ := h
  refine ⟨s, hs, ?_⟩
  split at h
  · next hsize =>
    cases h
    rw [if_pos hsize, User.solo_setLink]
    rfl
  · next hsize =>
    rw [if_neg hsize]
    cases hassign : s.harq.assign u.rnti with
    | error e =>
      rw [hassign] at h
      cases h
      simp only [User.solo_setLink]
      rfl
    | ok x =>
      obtain ⟨process, harq⟩ := x
      rw [hassign] at h
      simp only [← User.solo_setLink, placeRange_solo, placeBand_solo]
      have hshared : (c.solo d).sharesBand d = c.sharesBand d := rfl
      rw [hshared]
      by_cases hshare : c.sharesBand d = true
      · simp only [if_pos hshare, bind_ok_iff, pure_ok_iff, Prod.mk.injEq] at h ⊢
        obtain ⟨⟨a, cursor⟩, hplace, s', hcommit, rfl, rfl⟩ := h
        exact ⟨(a, cursor), hplace, s', hcommit, rfl, rfl⟩
      · simp only [if_neg hshare, bind_ok_iff, pure_ok_iff, Prod.mk.injEq] at h ⊢
        obtain ⟨⟨a, cursor⟩, hplace, s', hcommit, rfl, rfl⟩ := h
        exact ⟨(a, cursor), hplace, s', hcommit, rfl, rfl⟩

theorem serveBeam_solo {split : BeamSymbols} {draft draft' : Draft} {beam : BeamId}
    {cs : List Contender} {users : List User}
    (h : c.serveBeam d split draft beam cs = .ok (draft', users)) :
    (c.solo d).serveBeam d split draft beam (cs.map (Contender.solo d)) =
      .ok (draft', users.map (User.solo d)) := by
  simp only [serveBeam, bind_ok_iff] at h ⊢
  obtain ⟨⟨draft₁, users₁⟩, hserve, h⟩ := h
  refine ⟨(draft₁, users₁.map (User.solo d)), ?_, ?_⟩
  · refine foldlM_ok_map (q := fun x : Draft × List User => (x.1, x.2.map (User.solo d))) hserve ?_
    rintro ⟨draft, users⟩ k x hx
    simp only [bind_ok_iff, pure_ok_iff] at hx ⊢
    obtain ⟨⟨draft', u⟩, hu, rfl⟩ := hx
    exact ⟨_, serve_solo hu, by simp⟩
  · split at h
    · next hshare =>
      refine (if_pos hshare).trans ?_
      simp only [bind_ok_iff, pure_ok_iff, Prod.mk.injEq] at h ⊢
      obtain ⟨cursor, hcursor, rfl, rfl⟩ := h
      exact ⟨cursor, hcursor, rfl, rfl⟩
    · next hshare =>
      cases h
      exact if_neg hshare

theorem addNewData_solo {draft draft' : Draft} (h : c.addNewData d draft = .ok (c', draft')) :
    (c.solo d).addNewData d draft = .ok (c'.solo d, draft') := by
  simp only [addNewData, bind_ok_iff, lift_fault_ok_iff] at h ⊢
  obtain ⟨active, hactive, h⟩ := h
  refine ⟨active.solo d, contenders_solo hactive, ?_⟩
  rw [Contenders.isEmpty_solo]
  split at h
  · next hnone =>
    cases h
    exact if_pos hnone
  · next hsome =>
    rw [if_neg hsome]
    simp only [bind_ok_iff, lift_fault_ok_iff, pure_ok_iff, Prod.mk.injEq] at h ⊢
    obtain ⟨⟨split, active'⟩, hallocate, ⟨draft₁, served⟩, hserve, used, hused, rfl, rfl⟩ := h
    refine ⟨_, allocate_solo hallocate, (draft₁, served.map (List.map (User.solo d))), ?_, used,
      hused, ?_, rfl⟩
    · exact Table.walk_ok_map hserve fun draft beam cs draft' users => serveBeam_solo
    · rw [solo_foldl_put, Table.values_map, List.map_flatten]

end Cell

theorem Draft.resendUser_solo {d : Direction} {draft draft' : Draft} {u u' : User}
    (h : draft.resendUser d u = .ok (draft', u')) :
    draft.resendUser d (u.solo d) = .ok (draft', u'.solo d) := by
  simp only [resendUser, User.link_solo, User.beam_solo, bind_ok_iff, pure_ok_iff, Prod.mk.injEq]
    at h ⊢
  obtain ⟨⟨⟨draft₁, retxRbg⟩, inFlight⟩, hwalk, rfl, rfl⟩ := h
  exact ⟨_, hwalk, rfl, (User.solo_setLink ..).symm⟩

namespace Cell

variable {c c' : Cell} {d : Direction}

/-- A direction of a slot does not read the other one. -/
theorem scheduleDirection_solo {draft : Draft} (h : c.scheduleDirection d = .ok (c', draft)) :
    (c.solo d).scheduleDirection d = .ok (c'.solo d, draft) := by
  simp only [scheduleDirection, bind_ok_iff, lift_fault_ok_iff] at h ⊢
  obtain ⟨draft₀, hstart, ⟨draft₁, users⟩, hresend, h⟩ := h
  refine ⟨draft₀, hstart, (draft₁, users.map (User.solo d)), ?_, ?_⟩
  · have hcleared : (c.solo d).users.map (fun u : User => u.modify d LinkState.newSlot) =
        (c.users.map fun u : User => u.modify d LinkState.newSlot).map (User.solo d) := by
      rw [Table.map_map, solo, Table.map_map]
      simp only [User.solo_modify]
    rw [hcleared]
    exact Table.walk_ok_map hresend fun draft _ u draft' u' hu =>
      lift_fault_ok_iff.mpr (Draft.resendUser_solo (lift_fault_ok_iff.mp hu))
  · split at h
    · next hfull =>
      cases h
      exact if_pos hfull
    · next hleft => exact (if_neg hleft).trans (addNewData_solo h)

end Cell

end Airtime
