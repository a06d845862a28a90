import Airtime.Proofs.Booking

/-! Lost blocks come before new data. They are tried in the order of users and processes against what is
left of the slot, which only shrinks, so that a block that was passed over stays too long for it. New
data starts behind the cursor that the repeated blocks leave, and only for users without a lost
block. -/

namespace Airtime

def Cell.link? (c : Cell) (r : Rnti) (d : Direction) : Option LinkState :=
  (c.user? r).map (·.link d)

/-- In one direction of a slot `again` is sent again, before `new` is started. -/
structure RepeatsFirst (c c' : Cell) (d : Direction) (again new : List Assignment) : Prop where
  repeated : ∀ a ∈ again, a.newData = false
  started : ∀ b ∈ new, b.newData = true
  before : ∀ a ∈ again, ∀ b ∈ new, a.startSym.toNat < b.startSym.toNat ∧
    a.startSym.toNat + a.numSym.toNat ≤ b.startSym.toNat
  /-- A block that is still to be sent again is longer than what was left for new data. -/
  too_long : ∀ r s id b, c'.link? r d = some s → s.inFlight.get? id = some b → b.lost = true →
    c.config.symbols.toNat - (c.config.control d).toNat - (again.map (·.numSym.toNat)).sum <
      b.assignment.numSym.toNat
  none_again : ∀ b ∈ new, ∀ a ∈ again, a.rnti ≠ b.rnti
  none_lost : ∀ b ∈ new, ∀ s, c'.link? b.rnti d = some s → s.hasLost = false
  once : (new.map Assignment.rnti).Nodup
  processes_once : ((again ++ new).map fun a => (a.rnti, a.process)).Nodup
  ready : ∀ b ∈ new, ∃ s n, c.link? b.rnti d = some s ∧ s.backlog = .ok n ∧ n ≠ 0 ∧
    s.harq.available ≠ 0

theorem nodup_map_of_filter {α κ : Type} [DecidableEq κ] {key : α → κ} {l : List α}
    (h : ∀ k, (l.filter (key · = k)).length ≤ 1) : (l.map key).Nodup := by
  rw [List.nodup_iff_count_le_one]
  intro k
  rw [List.count_eq_countP, List.countP_map, List.countP_eq_length_filter]
  exact h k

namespace Draft

variable {config : CellConfig} {d : Direction} {beam : BeamId} {draft draft' : Draft}

/-- Data symbols were given to blocks sent again, or they are left. -/
def Spent (config : CellConfig) (d : Direction) (draft : Draft) : Prop :=
  (config.control d).toNat + (draft.assignments.map (·.numSym.toNat)).sum + draft.left.toNat =
    config.symbols.toNat

theorem spent_start (h : Draft.start config d = .ok draft) : draft.Spent config d := by
  simp only [start, bind_ok_iff, pure_ok_iff, Word.sub_eq_ok, Word.toNat_uint32] at h
  obtain ⟨left, hleft, rfl⟩ := h
  simp only [Spent, List.map_nil, List.sum_nil]
  omega

section Resend

variable {units units' : UInt32} {id : ProcessId} {b b' : Block}

theorem left_resend_le (h : Draft.resend beam (draft, units) id b = .ok ((draft', units'), b')) :
    draft'.left.toNat ≤ draft.left.toNat := by
  rcases resend_cases h with ⟨rfl, -, -⟩ | ⟨sym, n, used, -, hfits, -, -, -, -, rfl, -⟩
  · exact Nat.le_refl _
  · simp only [UInt32.toNat_sub_of_le _ _ (UInt32.le_iff_toNat_le.mpr hfits)]
    omega

theorem spent_resend (hdraft : draft.Spent config d)
    (h : Draft.resend beam (draft, units) id b = .ok ((draft', units'), b')) :
    draft'.Spent config d := by
  unfold Spent at hdraft ⊢
  rcases resend_cases h with ⟨rfl, -, -⟩ | ⟨sym, n, used, -, hfits, -, -, -, -, rfl, -⟩
  · exact hdraft
  · simp only [UInt32.toNat_sub_of_le _ _ (UInt32.le_iff_toNat_le.mpr hfits), List.map_append,
      List.map_cons, List.map_nil, List.sum_append, List.sum_cons, List.sum_nil, Block.repeated]
    omega

/-- The block needs more symbols than are left. -/
def TooLong (draft : Draft) (b : Block) : Prop :=
  b.lost = true → draft.left.toNat < b.assignment.numSym.toNat

theorem tooLong_resend (h : Draft.resend beam (draft, units) id b = .ok ((draft', units'), b')) :
    draft'.TooLong b' := by
  intro hlost
  simp only [resend] at h
  split at h
  · next hover =>
    simp only [pure_ok_iff, Prod.mk.injEq] at h
    obtain ⟨⟨rfl, -⟩, rfl⟩ := h
    simpa [hlost, UInt32.lt_iff_toNat_lt] using hover
  · simp only [bind_ok_iff, pure_ok_iff, Prod.mk.injEq] at h
    obtain ⟨_, _, _, _, _, _, _, _, _, _, _, _, -, rfl⟩ := h
    cases hlost

end Resend

theorem left_resendUser_le {u u' : User} (h : draft.resendUser d u = .ok (draft', u')) :
    draft'.left.toNat ≤ draft.left.toNat := by
  obtain ⟨retxRbg, inFlight, hwalk, -⟩ := resendUser_cases h
  exact hwalk.keeps (I := fun s => s.1.left.toNat ≤ draft.left.toNat) le_rfl
    fun s id b s' b' _ hs hstep => (left_resend_le hstep).trans hs

theorem spent_resendUser {u u' : User} (hdraft : draft.Spent config d)
    (h : draft.resendUser d u = .ok (draft', u')) : draft'.Spent config d := by
  obtain ⟨retxRbg, inFlight, hwalk, -⟩ := resendUser_cases h
  exact hwalk.keeps (I := fun s => s.1.Spent config d) hdraft
    fun s id b s' b' _ hs hstep => spent_resend hs hstep

theorem tooLong_resendUser {u u' : User} (h : draft.resendUser d u = .ok (draft', u')) :
    ∀ id b, (u'.link d).inFlight.get? id = some b → draft'.TooLong b := by
  obtain ⟨retxRbg, inFlight, hwalk, rfl⟩ := resendUser_cases h
  intro id b hb
  rw [User.link_setLink] at hb
  exact hwalk.after (Q := fun s _ b => s.1.TooLong b) (fun s id b s' b' _ => tooLong_resend)
    (fun s id b s' b' id' b'' _ hstep hlong hlost => (left_resend_le hstep).trans_lt (hlong hlost))
    (id, b) (Table.mem_entries.mpr hb)

end Draft

theorem LinkState.hasLost_iff {s : LinkState} :
    s.hasLost = true ↔ ∃ id b, s.inFlight.get? id = some b ∧ b.lost = true := by
  simp only [hasLost, List.any_eq_true, Table.mem_values]
  constructor
  · rintro ⟨b, ⟨id, hb⟩, hlost⟩
    exact ⟨id, b, hb, hlost⟩
  · rintro ⟨id, b, hb, hlost⟩
    exact ⟨b, ⟨id, hb⟩, hlost⟩

/-- Since `base` only assignments at its symbol or later were laid out. -/
structure Draft.From (base draft : Draft) : Prop where
  sym_le : base.cursor.sym.toNat ≤ draft.cursor.sym.toNat
  added : ∃ new, draft.assignments = base.assignments ++ new ∧
    ∀ b ∈ new, base.cursor.sym.toNat ≤ b.startSym.toNat

namespace Cell

variable {c c' : Cell} {d : Direction} {base draft draft' : Draft}

theorem link?_some_iff {r : Rnti} {s : LinkState} :
    c.link? r d = some s ↔ ∃ u, c.user? r = some u ∧ u.link d = s := by
  rw [link?, Option.map_eq_some_iff]

theorem link?_of_user {r : Rnti} {u : User} (hu : c.user? r = some u) :
    c.link? r d = some (u.link d) := link?_some_iff.mpr ⟨u, hu, rfl⟩

theorem from_serve {u u' : User} (hdraft : base.From draft)
    (h : c.serve d draft u = .ok (draft', u')) : base.From draft' := by
  rcases serve_cases h with ⟨rfl, -⟩ |
    ⟨size, process, harq, start, num, cursor, s', -, -, -, hplaces, -, -, rfl⟩
  · exact hdraft
  have hle := hdraft.sym_le
  have hcursor : draft.cursor.sym.toNat ≤ cursor.sym.toNat := by
    unfold Places at hplaces
    split at hplaces
    · rw [hplaces.2.2.1]
    · rw [hplaces.2.2.2]
      exact Nat.le_add_right _ _
  obtain ⟨new, hnew, hstart⟩ := hdraft.added
  refine ⟨hle.trans hcursor, _, (congrArg (· ++ _) hnew).trans (List.append_assoc _ _ _),
    fun b hb => ?_⟩
  rcases List.mem_append.mp hb with hb | hb
  · exact hstart b hb
  · rw [List.mem_singleton.mp hb]
    exact hle

theorem from_serves {ks : List Contender} {us : List User} (hdraft : base.From draft)
    (h : c.Serves d draft ks draft' us) : base.From draft' := by
  induction h with
  | nil draft => exact hdraft
  | cons first rest ih => exact ih (from_serve hdraft first)

theorem from_serveBeam {split : BeamSymbols} {beam : BeamId} {ks : List Contender}
    {us : List User} (hdraft : base.From draft)
    (h : c.serveBeam d split draft beam ks = .ok (draft', us)) : base.From draft' := by
  obtain ⟨draft₁, cursor, hserves, rfl, hcursor⟩ := serveBeam_cases h
  have hserved := from_serves hdraft hserves
  refine ⟨hserved.sym_le.trans ?_, hserved.added⟩
  split at hcursor
  · rw [hcursor.2]
    exact Nat.le_add_right _ _
  · rw [hcursor]

theorem free_of_contenders {active : Contenders} (h : c.contenders d = .ok active) :
    ∀ k ∈ active.flat, (k.user.link d).harq.available ≠ 0 ∧ (k.user.link d).retxRbg = 0 ∧
      (k.user.link d).hasLost = false := by
  simp only [contenders, bind_ok_iff, pure_ok_iff] at h
  obtain ⟨all, -, rfl⟩ := h
  intro k hk
  have hfree := (List.mem_filter.mp ((Contenders.flat_ofList _).mem_iff.mp hk)).2
  simp only [Bool.and_eq_true, bne_iff_ne, beq_iff_eq, Bool.not_eq_true'] at hfree
  exact ⟨hfree.1.1.2, hfree.1.2, hfree.2⟩

section Served

variable {symbols : UInt32} {active active' : Contenders} {split : BeamSymbols}
  {served : Table BeamId (List User)}

theorem contender_of_served (hc : c.Cleared d) (hactive : c.contenders d = .ok active)
    (hallocate : c.allocate d symbols active = .ok (split, active'))
    (hserve : Table.Walked (c.serveBeam d split) draft active'.entries draft' served.entries)
    {new : List Assignment} (hnew : draft'.assignments = draft.assignments ++ new) :
    ∀ b ∈ new, b.newData = true ∧ ∃ k ∈ active.flat, c.user? b.rnti = some k.user := by
  obtain ⟨-, husers⟩ := active_ok hc hactive
  obtain ⟨hallotted, -⟩ := allocate_ok (fun k hk => (husers k hk).2.2) hallocate
  obtain ⟨out, -, hsent, hserved⟩ :=
    served_of_beams (ready_of_allocate hc hactive hallocate) hserve
  rw [List.append_cancel_left (hnew.symm.trans hsent)]
  intro b hb
  obtain ⟨o, ho, hb⟩ := List.mem_flatMap.mp hb
  obtain ⟨k', hk', s, -, ⟨-, hnone⟩ | ⟨a, hopened, hone⟩⟩ := exists_left_of_forall₂ hserved ho
  · rw [hnone] at hb
    cases hb
  · rw [hone, List.mem_singleton] at hb
    subst hb
    obtain ⟨k, hk, hkk⟩ := exists_left_of_forall₂ hallotted.flat hk'
    refine ⟨hopened.newData, k, hk, ?_⟩
    rw [hopened.rnti, hkk.rnti]
    exact (husers k hk).1

theorem lost_of_served (hc : c.Cleared d) (hactive : c.contenders d = .ok active)
    (hallocate : c.allocate d symbols active = .ok (split, active'))
    (hserve : Table.Walked (c.serveBeam d split) draft active'.entries draft' served.entries)
    {r : Rnti} {s' : LinkState} {id : ProcessId} {b : Block}
    (hs' : (served.values.flatten.foldl put c).link? r d = some s')
    (hb : s'.inFlight.get? id = some b) (hlost : b.lost = true) :
    ∃ s, c.link? r d = some s ∧ s.inFlight.get? id = some b := by
  obtain ⟨u', hu', rfl⟩ := link?_some_iff.mp hs'
  obtain ⟨new, -, hread⟩ := served_users hc hactive hallocate hserve
  rcases hread r with ⟨hsame, -⟩ | ⟨u, s, hu, hu'', hcases⟩
  · exact ⟨_, link?_of_user (hsame.symm.trans hu'), hb⟩
  · rw [hu', Option.some.injEq] at hu''
    rw [hu'', User.link_setLink] at hb
    refine ⟨_, link?_of_user hu, ?_⟩
    rcases hcases with ⟨halike, -⟩ | ⟨a, hopened, -⟩
    · exact halike.inFlight ▸ hb
    · rw [hopened.inFlight, Table.get?_insert_if] at hb
      split at hb
      · cases hb
        cases hlost
      · exact hb

end Served

/-- The part of the ordering that can be read for one user at a time. -/
theorem user_of_scheduleDirection (hc : c.Sound) (h : c.scheduleDirection d = .ok (c', draft)) :
    ((draft.assignments.filter Assignment.newData).map Assignment.rnti).Nodup ∧
      (draft.assignments.map fun a => (a.rnti, a.process)).Nodup ∧
      ∀ b ∈ draft.assignments, b.newData = true → ∃ s n, c.link? b.rnti d = some s ∧
        s.backlog = .ok n ∧ n ≠ 0 ∧ s.harq.available ≠ 0 := by
  have hread := scheduleDirection_user hc h
  refine ⟨nodup_map_of_filter fun r => ?_, nodup_map_of_filter fun ⟨r, id⟩ => ?_,
    fun b hb hnew => ?_⟩
  · rw [List.filter_comm]
    rcases hread r with ⟨-, -, hnone⟩ | ⟨u, s, -, -, hturn⟩
    · simp [hnone]
    · rcases hturn.booked.blockSize with ⟨hnone, -⟩ | ⟨a, hone, -⟩
      · simp [hnone]
      · simp [hone]
  · have hsplit : draft.assignments.filter (fun a => (a.rnti, a.process) = (r, id)) =
        (draft.assignments.filter (·.rnti = r)).filter (·.process = id) := by
      simp [List.filter_filter, and_comm]
    rw [hsplit]
    rcases hread r with ⟨-, -, hnone⟩ | ⟨u, s, hu, -, hturn⟩
    · simp [hnone]
    · rcases hturn.held ((hc.user r u hu).2 d) id with
        ⟨b, b', pdus, -, -, ⟨-, hnone⟩ | ⟨-, sym, n, -, -, hone⟩⟩ |
        ⟨-, ⟨-, hnone⟩ | ⟨a, pdus, hone, -⟩⟩
      · simp [hnone]
      · simp [hone]
      · simp [hnone]
      · simp [hone]
  · have hmine : b ∈ draft.assignments.filter (·.rnti = b.rnti) := by simp [List.mem_filter, hb]
    rcases hread b.rnti with ⟨-, -, hnone⟩ | ⟨u, s, hu, -, s₁, again, new, hresent, hsent, hcases⟩
    · rw [hnone] at hmine
      cases hmine
    · rw [hsent, List.mem_append] at hmine
      rcases hmine with hmine | hmine
      · rw [hresent.newData b hmine] at hnew
        cases hnew
      · rcases hcases with ⟨-, hnone⟩ | ⟨a, hopened, -⟩
        · rw [hnone] at hmine
          cases hmine
        · obtain ⟨n, hn, h0⟩ := hopened.waiting
          obtain ⟨harq, pdus, hassign, -⟩ := hopened.stored
          rw [LinkState.backlog, hresent.groups] at hn
          rw [hresent.harq] at hassign
          refine ⟨_, n, link?_of_user hu, hn, h0, ?_⟩
          rw [HarqTable.available, HarqTable.free_of_assign hassign]
          simp

section Resent

variable {draft₀ draft₁ : Draft} {users : Table Rnti User}

theorem booked_of_resent (hc : c.Sound) (hstart : Draft.start c.config d = .ok draft₀)
    (hresend : Table.Walked (fun (draft : Draft) _ u => draft.resendUser d u) draft₀
      (c.cleared d).users.entries draft₁ users.entries) {a : Assignment}
    (ha : a ∈ draft₁.assignments) :
    a.newData = false ∧ ∃ u, users.get? a.rnti = some u ∧ (u.link d).retxRbg ≠ 0 := by
  have hmine : a ∈ draft₁.assignments.filter (·.rnti = a.rnti) := by simp [List.mem_filter, ha]
  have hwithin := within_of_resent hc hstart hresend
  have hband := ((hwithin.laid ⟨0⟩ 0).onGrid a ha).inBand
  rcases resent_user hc hstart hresend a.rnti with ⟨-, -, hnone⟩ | ⟨u, s, -, hu', hresent⟩
  · rw [hnone] at hmine
    cases hmine
  refine ⟨hresent.newData a hmine, _, hu', fun h0 => ?_⟩
  have hunits := hresent.retxRbg
  rw [User.link_setLink] at h0
  rw [h0, UInt32.toNat_zero, eq_comm, List.sum_eq_zero_iff] at hunits
  have hzero := hunits _ (List.mem_map_of_mem hmine)
  have hpos : 0 < a.units := Nat.mul_pos hband.rbg_pos hband.sym_pos
  omega

theorem tooLong_of_resent (hstart : Draft.start c.config d = .ok draft₀)
    (hresend : Table.Walked (fun (draft : Draft) _ u => draft.resendUser d u) draft₀
      (c.cleared d).users.entries draft₁ users.entries) {r : Rnti} {s : LinkState}
    {id : ProcessId} {b : Block} (hs : Cell.link? { c with users } r d = some s)
    (hb : s.inFlight.get? id = some b) (hlost : b.lost = true) :
    c.config.symbols.toNat - (c.config.control d).toNat -
      (draft₁.assignments.map (·.numSym.toNat)).sum < b.assignment.numSym.toNat := by
  have hspent : draft₁.Spent c.config d := hresend.keeps (Draft.spent_start hstart)
    fun draft r u draft' u' _ hdraft hstep => Draft.spent_resendUser hdraft hstep
  have hlong : ∀ e ∈ users.entries, ∀ id b, (e.2.link d).inFlight.get? id = some b →
      draft₁.TooLong b := by
    refine hresend.after (Q := fun (draft : Draft) _ u => ∀ id b,
      (u.link d).inFlight.get? id = some b → draft.TooLong b)
      (fun _ _ _ _ _ _ => Draft.tooLong_resendUser) ?_
    intro draft r u draft' u' _ _ _ hstep hlong id b hb hlost
    exact (Draft.left_resendUser_le hstep).trans_lt (hlong id b hb hlost)
  obtain ⟨u, hu, rfl⟩ := link?_some_iff.mp hs
  have hleft := hlong (r, u) (Table.mem_entries.mpr hu) id b hb hlost
  unfold Draft.Spent at hspent
  omega

end Resent

theorem repeatsFirst_of_scheduleDirection (hc : c.Sound)
    (h : c.scheduleDirection d = .ok (c', draft)) :
    ∃ again new, draft.assignments = again ++ new ∧ RepeatsFirst c c' d again new := by
  obtain ⟨honce, hprocesses, hready⟩ := user_of_scheduleDirection hc h
  obtain ⟨draft₀, draft₁, users, hstart, hresend, hend⟩ := scheduleDirection_cases h
  have hrepeated : ∀ a ∈ draft₁.assignments, a.newData = false := fun a ha =>
    (booked_of_resent hc hstart hresend ha).1
  rcases hend with ⟨rfl, rfl⟩ | ⟨active, active', split, used, served, draft₂, hactive, hallocate,
    hserve, -, rfl, rfl⟩
  · exact ⟨draft.assignments, [], by simp,
      { repeated := hrepeated
        started := fun b hb => by cases hb
        before := fun _ _ b hb => by cases hb
        too_long := fun r s id b hs hb hl => tooLong_of_resent hstart hresend hs hb hl
        none_again := fun b hb => by cases hb
        none_lost := fun b hb => by cases hb
        once := .nil
        processes_once := by simpa using hprocesses
        ready := fun b hb => by cases hb }⟩
  have hcleared := cleared_of_resent hc hstart hresend
  have hfrom : draft₁.From draft₂ := hserve.keeps ⟨le_rfl, [], by simp⟩
    fun draft beam ks draft' us _ hdraft hstep => from_serveBeam hdraft hstep
  obtain ⟨new, hnew, hlater⟩ := hfrom.added
  have hcontender := contender_of_served hcleared hactive hallocate hserve hnew
  have hstarted : ∀ b ∈ new, b.newData = true := fun b hb => (hcontender b hb).1
  have hfilter : draft₂.assignments.filter Assignment.newData = new := by
    rw [hnew, List.filter_append, List.filter_eq_self.mpr hstarted,
      List.filter_eq_nil_iff.mpr fun a ha => by simp [hrepeated a ha], List.nil_append]
  refine ⟨draft₁.assignments, new, hnew,
    { repeated := hrepeated
      started := hstarted
      before := fun a ha b hb => ?_
      too_long := fun r s id b hs hb hl => ?_
      none_again := fun b hb a ha heq => ?_
      none_lost := fun b hb s hs => ?_
      once := hfilter ▸ honce
      processes_once := hnew ▸ hprocesses
      ready := fun b hb => hready b (by simp [hnew, hb]) (hstarted b hb) }⟩
  · have hwithin := within_of_resent hc hstart hresend
    have hbehind := (hwithin.laid ⟨0⟩ 0).behind_sym hwithin.rbg_zero ha
    have hpos := ((hwithin.laid ⟨0⟩ 0).onGrid a ha).inBand.sym_pos
    have hlate := hlater b hb
    omega
  · obtain ⟨s₁, hs₁, hb₁⟩ := lost_of_served hcleared hactive hallocate hserve hs hb hl
    exact tooLong_of_resent hstart hresend hs₁ hb₁ hl
  · obtain ⟨-, k, hk, hu⟩ := hcontender b hb
    obtain ⟨-, u, hu', hbooked⟩ := booked_of_resent hc hstart hresend ha
    rw [heq] at hu'
    obtain rfl := Option.some.inj (hu.symm.trans hu')
    exact hbooked (free_of_contenders hactive k hk).2.1
  · obtain ⟨-, k, hk, hu⟩ := hcontender b hb
    have hfree := (free_of_contenders hactive k hk).2.2
    by_contra htrue
    rw [Bool.not_eq_false, LinkState.hasLost_iff] at htrue
    obtain ⟨id, blk, hblk, hl⟩ := htrue
    obtain ⟨s₁, hs₁, hblk₁⟩ := lost_of_served hcleared hactive hallocate hserve hs hblk hl
    rw [link?_of_user hu, Option.some.injEq] at hs₁
    rw [hs₁, Bool.eq_false_iff] at hfree
    exact hfree (LinkState.hasLost_iff.mpr ⟨id, blk, hblk₁, hl⟩)

theorem link?_scheduleDirection (hc : c.Sound) (h : c.scheduleDirection d = .ok (c', draft))
    (r : Rnti) {e : Direction} (he : e ≠ d) : c'.link? r e = c.link? r e := by
  rcases scheduleDirection_user hc h r with ⟨hnone, hnone', -⟩ | ⟨u, s, hu, hu', -⟩
  · rw [link?, link?, hnone, hnone']
  · rw [link?_of_user hu, link?_of_user hu', User.link_setLink_of_ne u he]

end Cell

/-- In a slot lost blocks are sent again before new data is started, in the list and in time. No block
is left out that would fit into what new data is offered. A user whose blocks are sent again or still
lost starts nothing; any other user starts one block at most, if it has bytes waiting and a free process;
and nothing is sent twice over one process. -/
theorem retransmissions_first {c c' : Cell} {time : SlotTime} {slot : SlotAllocation}
    (hc : c.Reachable) (h : c.scheduleSlot time = .ok (c', slot)) (d : Direction) :
    ∃ again new, slot.assignments d = again ++ new ∧ RepeatsFirst c c' d again new := by
  obtain ⟨c₁, down, up, hdown, hup, hdl, hul⟩ := Cell.scheduleSlot_cases h
  have hsound := hc.sound.scheduleDirection hdown
  cases d with
  | downlink =>
    rw [hdl]
    obtain ⟨again, new, hsplit, hfirst⟩ := Cell.repeatsFirst_of_scheduleDirection hc.sound hdown
    have hsame : ∀ r, c'.link? r .downlink = c₁.link? r .downlink := fun r =>
      Cell.link?_scheduleDirection hsound hup r (by decide)
    exact ⟨again, new, hsplit,
      { hfirst with
        too_long := fun r s id b hs => hfirst.too_long r s id b (hsame r ▸ hs)
        none_lost := fun b hb s hs => hfirst.none_lost b hb s (hsame b.rnti ▸ hs) }⟩
  | uplink =>
    rw [hul]
    obtain ⟨again, new, hsplit, hfirst⟩ := Cell.repeatsFirst_of_scheduleDirection hsound hup
    have hconfig : c₁.config = c.config := by rw [Cell.scheduleDirection_frame hdown]
    exact ⟨again, new, hsplit,
      { hfirst with
        too_long := hconfig ▸ hfirst.too_long
        ready := fun b hb => by
          rw [← Cell.link?_scheduleDirection hc.sound hdown b.rnti (by decide)]
          exact hfirst.ready b hb }⟩

/-- A block that is sent again, and then a new one. -/
theorem retransmissions_first_sample : ∃ (c c' : Cell) (slot : SlotAllocation)
    (again new : List Assignment), c.Reachable ∧
    c.scheduleSlot ⟨0, 0, 1, 0⟩ = .ok (c', slot) ∧
    slot.downlink.map (fun a => (a.rnti, a.newData)) = [(⟨1⟩, false), (⟨2⟩, true)] ∧
    slot.downlink = again ++ new ∧ RepeatsFirst c c' .downlink again new := by
  have hrun : ((sampleCell.performAll sampleOperations).bind fun x =>
      x.2.scheduleSlot ⟨0, 0, 1, 0⟩).toOption.any (fun x =>
        x.2.downlink.map (fun a => (a.rnti, a.newData)) = [(⟨1⟩, false), (⟨2⟩, true)]) = true := by
    decide +kernel
  obtain ⟨⟨c', slot⟩, hslot, htest⟩ := exists_ok_of_any hrun
  obtain ⟨⟨events, c⟩, hops, hslot⟩ := bind_ok_iff.mp hslot
  have hc : c.Reachable := ⟨_, _, _, _, run_sample hops⟩
  obtain ⟨again, new, hsplit, hfirst⟩ := retransmissions_first hc hslot .downlink
  exact ⟨c, c', slot, again, new, hc, hslot, of_decide_eq_true htest, hsplit, hfirst⟩

end Airtime
