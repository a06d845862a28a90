import Airtime.Proofs.Atomic
import Airtime.Proofs.ChannelMaps

/-! Operations of different users commute. An operation that names a user reads and writes that user
alone. So operations can be put in another order between two slots, as long as those of each user stay
in theirs: the slots are laid out the same. -/

namespace Airtime

def Operation.rnti? : Operation → Option Rnti
  | .configureUser rnti _ => some rnti
  | .moveUser rnti _ => some rnti
  | .removeUser rnti => some rnti
  | .configureChannel r => some r.rnti
  | .reportBuffer r => some r.destination
  | .reportGroup r => some r.rnti
  | .reportQuality r => some r.rnti
  | .feedback f => some f.rnti
  | .slot _ => none

/-- An operation concerns the user that it names, and a slot concerns everybody. -/
def Operation.concerns (op : Operation) (r : Rnti) : Bool := op.rnti?.all (· = r)

theorem Operation.concerns_of_rnti? {op : Operation} {r : Rnti} (h : op.rnti? = some r) (r' : Rnti) :
    op.concerns r' = decide (r = r') := by
  rw [concerns, h, Option.all_some]

theorem Operation.exists_concerned (op : Operation) : ∃ r, op.concerns r = true := by
  cases hop : op.rnti? with
  | none => exact ⟨⟨0⟩, by rw [concerns, hop]; rfl⟩
  | some r => exact ⟨r, by rw [concerns_of_rnti? hop]; exact decide_eq_true rfl⟩

/-- No user is concerned by both. -/
def Operation.Independent (op op' : Operation) : Prop :=
  ∀ r, op.concerns r = true → op'.concerns r = false

theorem Operation.Independent.named {op op' : Operation} (h : op.Independent op') :
    ∃ r r', op.rnti? = some r ∧ op'.rnti? = some r' ∧ r ≠ r' := by
  cases hop : op.rnti? with
  | none =>
    obtain ⟨r', hr'⟩ := op'.exists_concerned
    have hout := h r' (by rw [concerns, hop]; rfl)
    rw [hr'] at hout
    cases hout
  | some r =>
    have hout := h r (by rw [concerns_of_rnti? hop]; exact decide_eq_true rfl)
    cases hop' : op'.rnti? with
    | none =>
      rw [concerns, hop'] at hout
      cases hout
    | some r' =>
      rw [concerns_of_rnti? hop', decide_eq_false_iff_not] at hout
      exact ⟨r, r', rfl, rfl, Ne.symm hout⟩

/-- The operations of each user, and the slots among them, are the same and in the same order. -/
def SameForEach (ops ops' : List Operation) : Prop :=
  ∀ r, ops.filter (·.concerns r) = ops'.filter (·.concerns r)

variable {op : Operation} {ops ops' : List Operation}

theorem SameForEach.nil (h : SameForEach [] ops') : ops' = [] := by
  by_contra hsome
  obtain ⟨op, hop⟩ := List.exists_mem_of_ne_nil ops' hsome
  obtain ⟨r, hr⟩ := op.exists_concerned
  have hmem : op ∈ ops'.filter (·.concerns r) := List.mem_filter.mpr ⟨hop, hr⟩
  rw [← h r] at hmem
  cases hmem

theorem SameForEach.cons (h : SameForEach (op :: ops) ops') :
    ∃ before after, ops' = before ++ op :: after ∧ (∀ op' ∈ before, op.Independent op') ∧
      SameForEach ops (before ++ after) := by
  obtain ⟨r, hr⟩ := op.exists_concerned
  have hfirst := (h r).symm
  rw [List.filter_cons_of_pos (by exact hr), List.filter_eq_cons_iff] at hfirst
  obtain ⟨before, after, rfl, hout, -, -⟩ := hfirst
  -- Whom the operation concerns, it comes first for.
  have hnone : ∀ q, op.concerns q = true → before.filter (·.concerns q) = [] := by
    intro q hq
    have hsame := h q
    rw [List.filter_cons_of_pos (by exact hq), List.filter_append] at hsame
    cases hbefore : before.filter (·.concerns q) with
    | nil => rfl
    | cons op' rest =>
      rw [hbefore, List.cons_append] at hsame
      obtain ⟨rfl, -⟩ := List.cons.inj hsame
      have hmem : op ∈ before.filter (·.concerns q) := by rw [hbefore]; exact List.mem_cons_self
      exact absurd hr (hout op (List.mem_filter.mp hmem).1)
  refine ⟨before, after, rfl, fun op' hmem q hq => ?_, fun q => ?_⟩
  · exact Bool.eq_false_iff.mpr (List.filter_eq_nil_iff.mp (hnone q hq) op' hmem)
  · have hsame := h q
    rw [List.filter_append] at hsame ⊢
    by_cases hq : op.concerns q = true
    · rw [List.filter_cons_of_pos (by exact hq), List.filter_cons_of_pos (by exact hq), hnone q hq]
        at hsame
      rw [hnone q hq]
      exact (List.cons.inj hsame).2
    · rwa [List.filter_cons_of_neg (by exact hq), List.filter_cons_of_neg (by exact hq)] at hsame

namespace Cell

variable {c c' c₁ : Cell} {r r' : Rnti} {op op' : Operation}

theorem user?_put_of_ne {u : User} (h : r' ≠ u.rnti) : (c.put u).user? r' = c.user? r' := by
  rw [user?_put, if_neg h]

theorem user?_ensureUser_of_ne (c : Cell) (beam : BeamId) (h : r' ≠ r) :
    (c.ensureUser r beam).2.user? r' = c.user? r' := by
  unfold ensureUser
  split
  · rfl
  · exact user?_put_of_ne h

theorem Notes.user?_of_ne {d : Direction} (hc : c.Sound) (h : c.Notes r d c') (hne : r' ≠ r) :
    c'.user? r' = c.user? r' := by
  cases h with
  | refused => rfl
  | noted hu h =>
    apply user?_put_of_ne
    rwa [User.rnti_setLink, hc.user_rnti hu]

theorem Sound.perform_named (hc : c.Sound) (hop : op.rnti? = some r) :
    ∃ c', c.perform op = .ok (c', none) ∧ ∀ r', r' ≠ r → c'.user? r' = c.user? r' := by
  have hensured : ∀ r beam, (c.ensureUser r beam).1.rnti = r := fun r beam =>
    (sound_ensureUser hc r beam).1.user_rnti (user?_ensureUser c r beam)
  cases op with
  | configureUser rnti beam =>
    cases hop
    refine ⟨_, rfl, fun r' hne => ?_⟩
    unfold Cell.configureUser
    rw [user?_put_of_ne (by simpa only [hensured] using hne), user?_ensureUser_of_ne c beam hne]
  | moveUser rnti beam =>
    cases hop
    refine ⟨_, rfl, fun r' hne => ?_⟩
    rcases moveUser_cases c r beam with hsame | ⟨u, hu, hput⟩
    · rw [hsame]
    · rw [hput]
      apply user?_put_of_ne
      simpa only [hc.user_rnti hu] using hne
  | removeUser rnti =>
    cases hop
    refine ⟨_, rfl, fun r' hne => ?_⟩
    rw [user?_removeUser, if_neg hne]
  | configureChannel q =>
    cases hop
    refine ⟨_, rfl, fun r' hne => ?_⟩
    rw [configureChannel_eq_put, user?_put_of_ne, user?_ensureUser_of_ne c ⟨0⟩ hne]
    rwa [(change_withChannel _ q).1, hensured]
  | reportBuffer q =>
    cases hop
    exact ⟨_, rfl, fun r' => (c.notes_reportBuffer q).user?_of_ne hc⟩
  | reportGroup q =>
    cases hop
    exact ⟨_, rfl, fun r' => (c.notes_reportGroup q).user?_of_ne hc⟩
  | reportQuality q =>
    cases hop
    exact ⟨_, rfl, fun r' => (c.notes_reportQuality q).user?_of_ne hc⟩
  | feedback f =>
    cases hop
    refine ⟨_, rfl, fun r' hne => ?_⟩
    rcases feedback_cases c f with ⟨-, hsame⟩ | ⟨u, s, hu, hput, -⟩
    · rw [hsame]
    · rw [hput]
      apply user?_put_of_ne
      rwa [User.rnti_setLink, hc.user_rnti hu]
  | slot time => cases hop

/-- Cells that have the same user `r`, whoever else is there. -/
structure AgreeOn (r : Rnti) (c c' : Cell) : Prop where
  config : c.config = c'.config
  linkModel : c.linkModel = c'.linkModel
  confirming : c.confirming = c'.confirming
  user : c.user? r = c'.user? r

namespace AgreeOn

theorem put (h : c.AgreeOn r c') (u : User) : (c.put u).AgreeOn r (c'.put u) :=
  ⟨h.config, h.linkModel, h.confirming, by rw [user?_put, user?_put, h.user]⟩

theorem ensureUser (h : c.AgreeOn r c') (beam : BeamId) :
    (c.ensureUser r beam).1 = (c'.ensureUser r beam).1 ∧
      (c.ensureUser r beam).2.AgreeOn r (c'.ensureUser r beam).2 := by
  have hfresh : c.freshUser r beam = c'.freshUser r beam := by rw [freshUser, freshUser, h.config]
  unfold Cell.ensureUser
  rw [h.user, hfresh]
  split
  · exact ⟨rfl, h⟩
  · exact ⟨rfl, h.put _⟩

theorem configureUser (h : c.AgreeOn r c') (beam : BeamId) :
    (c.configureUser r beam).AgreeOn r (c'.configureUser r beam) := by
  obtain ⟨hu, hagree⟩ := h.ensureUser beam
  unfold Cell.configureUser
  simp only [hu]
  exact hagree.put _

theorem moveUser (h : c.AgreeOn r c') (beam : BeamId) :
    (c.moveUser r beam).1.AgreeOn r (c'.moveUser r beam).1 ∧
      (c.moveUser r beam).2 = (c'.moveUser r beam).2 := by
  unfold Cell.moveUser
  rw [h.user]
  split
  · exact ⟨h, rfl⟩
  · exact ⟨h.put _, rfl⟩

theorem removeUser (h : c.AgreeOn r c') :
    (c.removeUser r).1.AgreeOn r (c'.removeUser r).1 ∧
      (c.removeUser r).2 = (c'.removeUser r).2 := by
  unfold Cell.removeUser
  rw [h.user]
  split
  · exact ⟨h, rfl⟩
  · refine ⟨⟨h.config, h.linkModel, h.confirming, ?_⟩, rfl⟩
    show (c.users.erase r).get? r = (c'.users.erase r).get? r
    rw [Table.get?_erase_if, Table.get?_erase_if, if_pos rfl, if_pos rfl]

theorem configureChannel {q : ChannelRequest} (h : c.AgreeOn q.rnti c') :
    (c.configureChannel q).1.AgreeOn q.rnti (c'.configureChannel q).1 ∧
      (c.configureChannel q).2 = (c'.configureChannel q).2 := by
  obtain ⟨hu, hagree⟩ := h.ensureUser ⟨0⟩
  unfold Cell.configureChannel
  simp only [hu, hagree.confirming]
  split
  · exact ⟨hagree.put _, rfl⟩
  · split
    · exact ⟨hagree.put _, rfl⟩
    · exact ⟨hagree.put _, rfl⟩

theorem reportBuffer {q : BufferReport Rnti} (h : c.AgreeOn q.destination c') :
    (c.reportBuffer q).1.AgreeOn q.destination (c'.reportBuffer q).1 ∧
      (c.reportBuffer q).2 = (c'.reportBuffer q).2 := by
  unfold Cell.reportBuffer
  rw [h.user]
  split
  · exact ⟨h, rfl⟩
  · split
    · exact ⟨h, rfl⟩
    · exact ⟨h.put _, rfl⟩

theorem reportGroup {q : GroupReport} (h : c.AgreeOn q.rnti c') :
    (c.reportGroup q).1.AgreeOn q.rnti (c'.reportGroup q).1 ∧
      (c.reportGroup q).2 = (c'.reportGroup q).2 := by
  unfold Cell.reportGroup
  rw [h.user]
  split
  · exact ⟨h, rfl⟩
  · split
    · exact ⟨h, rfl⟩
    · split
      · exact ⟨h, rfl⟩
      · exact ⟨h.put _, rfl⟩

theorem reportQuality {q : QualityReport} (h : c.AgreeOn q.rnti c') :
    (c.reportQuality q).1.AgreeOn q.rnti (c'.reportQuality q).1 ∧
      (c.reportQuality q).2 = (c'.reportQuality q).2 := by
  unfold Cell.reportQuality
  rw [h.user, h.config, h.linkModel]
  split
  · exact ⟨h, rfl⟩
  · exact ⟨h.put _, rfl⟩

theorem feedback {f : Feedback} (h : c.AgreeOn f.rnti c') :
    (c.feedback f).1.AgreeOn f.rnti (c'.feedback f).1 ∧
      (c.feedback f).2 = (c'.feedback f).2 := by
  unfold Cell.feedback
  rw [h.user, h.config]
  split
  · exact ⟨h, rfl⟩
  · simp only
    split
    · exact ⟨h.put _, rfl⟩
    · split
      · exact ⟨h.put _, rfl⟩
      · exact ⟨h.put _, rfl⟩

theorem perform (h : c.AgreeOn r c') (hop : op.rnti? = some r)
    {slot slot' : Option SlotAllocation} {c₁' : Cell} (hstep : c.perform op = .ok (c₁, slot))
    (hstep' : c'.perform op = .ok (c₁', slot')) :
    c₁.user? r = c₁'.user? r ∧ c.answer op = c'.answer op := by
  cases op with
  | configureUser rnti beam =>
    cases hop
    cases hstep
    cases hstep'
    exact ⟨(h.configureUser beam).user, rfl⟩
  | moveUser rnti beam =>
    cases hop
    cases hstep
    cases hstep'
    exact ⟨(h.moveUser beam).1.user, congrArg unconfirmed (h.moveUser beam).2⟩
  | removeUser rnti =>
    cases hop
    cases hstep
    cases hstep'
    exact ⟨h.removeUser.1.user, congrArg unconfirmed h.removeUser.2⟩
  | configureChannel q =>
    cases hop
    cases hstep
    cases hstep'
    exact ⟨h.configureChannel.1.user, congrArg liftM h.configureChannel.2⟩
  | reportBuffer q =>
    cases hop
    cases hstep
    cases hstep'
    exact ⟨h.reportBuffer.1.user, congrArg unconfirmed h.reportBuffer.2⟩
  | reportGroup q =>
    cases hop
    cases hstep
    cases hstep'
    exact ⟨h.reportGroup.1.user, congrArg unconfirmed h.reportGroup.2⟩
  | reportQuality q =>
    cases hop
    cases hstep
    cases hstep'
    exact ⟨h.reportQuality.1.user, congrArg unconfirmed h.reportQuality.2⟩
  | feedback f =>
    cases hop
    cases hstep
    cases hstep'
    exact ⟨h.feedback.1.user, congrArg unconfirmed h.feedback.2⟩
  | slot time => cases hop

end AgreeOn

theorem agreeOn_of_perform {slot : Option SlotAllocation} (h : c.perform op = .ok (c', slot))
    (hsame : c'.user? r = c.user? r) : c.AgreeOn r c' := by
  have hframe := perform_frame h
  refine ⟨?_, ?_, ?_, hsame.symm⟩
  · rw [hframe]
  · rw [hframe]
  · rw [hframe]

/-- Operations that name different users lead to the same state in both orders, and answer the same. -/
theorem Sound.commute (hc : c.Sound) (hop : op.rnti? = some r) (hop' : op'.rnti? = some r')
    (hne : r ≠ r') : ∃ c₁ c₁' c₂, c.perform op = .ok (c₁, none) ∧ c₁.perform op' = .ok (c₂, none) ∧
      c.perform op' = .ok (c₁', none) ∧ c₁'.perform op = .ok (c₂, none) ∧
      c₁'.answer op = c.answer op ∧ c₁.answer op' = c.answer op' := by
  obtain ⟨c₁, hfirst, hothers⟩ := hc.perform_named hop
  obtain ⟨c₁', hfirst', hothers'⟩ := hc.perform_named hop'
  obtain ⟨c₂, hthen, hothers₂⟩ := (hc.perform hfirst).perform_named hop'
  obtain ⟨c₂', hthen', hothers₂'⟩ := (hc.perform hfirst').perform_named hop
  obtain ⟨huser, hanswer⟩ :=
    (agreeOn_of_perform hfirst' (hothers' r hne)).perform hop hfirst hthen'
  obtain ⟨huser', hanswer'⟩ :=
    (agreeOn_of_perform hfirst (hothers r' hne.symm)).perform hop' hfirst' hthen
  refine ⟨c₁, c₁', c₂, hfirst, hthen, hfirst', ?_, hanswer.symm, hanswer'.symm⟩
  have husers : c₂.users = c₂'.users := by
    apply Table.ext_get?
    intro q
    show c₂.user? q = c₂'.user? q
    by_cases hq : q = r
    · rw [hq, hothers₂ r hne, huser]
    · by_cases hq' : q = r'
      · rw [hq', hothers₂' r' hne.symm, huser']
      · rw [hothers₂ q hq', hothers q hq, hothers₂' q hq, hothers' q hq']
  have hsame : c₂' = c₂ := by
    rw [perform_frame hthen', perform_frame hthen, husers, perform_frame hfirst',
      perform_frame hfirst]
  rw [hthen', hsame]

def slotsOf (c : Cell) (ops : List Operation) : Except Failure (List SlotAllocation × Cell) := do
  let (events, last) ← c.performAll ops
  return (events.filterMap Event.slot, last)

variable {ops ops' : List Operation}

theorem slotsOf_cons (c : Cell) (op : Operation) (ops : List Operation) :
    c.slotsOf (op :: ops) = c.perform op >>= fun x =>
      x.1.slotsOf ops >>= fun y => pure (x.2.toList ++ y.1, y.2) := by
  unfold slotsOf
  rw [performAll]
  simp only [bind_assoc, pure_bind]
  congr
  funext x
  congr
  funext y
  obtain ⟨c', slot⟩ := x
  cases slot with
  | none => rfl
  | some slot => rfl

theorem slotsOf_cons_of_perform (h : c.perform op = .ok (c', none)) :
    c.slotsOf (op :: ops) = c'.slotsOf ops := by
  rw [slotsOf_cons, h]
  exact bind_pure (c'.slotsOf ops)

theorem slotsOf_cons_congr (h : ∀ c' slot, c.perform op = .ok (c', slot) →
    c'.slotsOf ops = c'.slotsOf ops') : c.slotsOf (op :: ops) = c.slotsOf (op :: ops') := by
  rw [slotsOf_cons, slotsOf_cons]
  cases hstep : c.perform op with
  | error e => rfl
  | ok x =>
    obtain ⟨c', slot⟩ := x
    show (c'.slotsOf ops >>= _) = (c'.slotsOf ops' >>= _)
    rw [h c' slot hstep]

theorem Sound.slotsOf_swap (hc : c.Sound) (h : op.Independent op') (ops : List Operation) :
    c.slotsOf (op :: op' :: ops) = c.slotsOf (op' :: op :: ops) := by
  obtain ⟨r, r', hop, hop', hne⟩ := h.named
  obtain ⟨c₁, c₁', c₂, hfirst, hthen, hfirst', hthen', -⟩ := hc.commute hop hop' hne
  rw [slotsOf_cons_of_perform hfirst, slotsOf_cons_of_perform hthen,
    slotsOf_cons_of_perform hfirst', slotsOf_cons_of_perform hthen']

/-- An operation can come before others that it is independent of. -/
theorem Sound.slotsOf_front (hc : c.Sound) {before : List Operation}
    (h : ∀ op' ∈ before, op.Independent op') (ops : List Operation) :
    c.slotsOf (before ++ op :: ops) = c.slotsOf (op :: before ++ ops) := by
  induction before generalizing c with
  | nil => rfl
  | cons op' before ih =>
    obtain ⟨hfirst, hrest⟩ := List.forall_mem_cons.mp h
    calc c.slotsOf (op' :: (before ++ op :: ops))
        = c.slotsOf (op' :: op :: (before ++ ops)) :=
          slotsOf_cons_congr fun c' slot hstep => ih (hc.perform hstep) hrest
      _ = c.slotsOf (op :: op' :: (before ++ ops)) := (hc.slotsOf_swap hfirst _).symm

theorem Sound.slotsOf_eq (hc : c.Sound) (h : SameForEach ops ops') :
    c.slotsOf ops = c.slotsOf ops' := by
  induction ops generalizing c ops' with
  | nil => rw [h.nil]
  | cons op ops ih =>
    obtain ⟨before, after, rfl, hindependent, hrest⟩ := h.cons
    calc c.slotsOf (op :: ops)
        = c.slotsOf (op :: (before ++ after)) :=
          slotsOf_cons_congr fun c' slot hstep => ih (hc.perform hstep) hrest
      _ = c.slotsOf (before ++ op :: after) := (hc.slotsOf_front hindependent after).symm

end Cell

/-- Operations that name different users lead to the same state in both orders, and each answers as it
would without the other. In any order of many operations that keeps those of each user in theirs and
between the same slots, the slots are laid out the same. -/
theorem operations_of_users_commute {c : Cell} (hc : c.Reachable) :
    (∀ op op' r r', op.rnti? = some r → op'.rnti? = some r' → r ≠ r' →
      ∃ c₁ c₁' c₂, c.perform op = .ok (c₁, none) ∧ c₁.perform op' = .ok (c₂, none) ∧
        c.perform op' = .ok (c₁', none) ∧ c₁'.perform op = .ok (c₂, none) ∧
        c₁'.answer op = c.answer op ∧ c₁.answer op' = c.answer op') ∧
    ∀ ops ops', SameForEach ops ops' → c.slotsOf ops = c.slotsOf ops' :=
  ⟨fun _ _ _ _ hop hop' hne => hc.sound.commute hop hop' hne,
    fun _ _ hsame => hc.sound.slotsOf_eq hsame⟩

/-- Two users, of whom the second one is removed, and a report that is refused. -/
theorem operations_of_users_commute_sample :
    let report (rnti : Rnti) (channel : ChannelId) : Operation :=
      .reportBuffer { destination := rnti, channel, tx := 7, txDelay := 0, retx := 0, retxDelay := 0,
                      status := 0 }
    ∃ (c last : Cell) (slot : SlotAllocation), c.Reachable ∧ slot.downlink ≠ [] ∧
      c.slotsOf [report ⟨1⟩ 9, report ⟨1⟩ 4, .removeUser ⟨2⟩, report ⟨2⟩ 4, .slot ⟨0, 1, 0, 0⟩] =
        .ok ([slot], last) ∧
      c.slotsOf [.removeUser ⟨2⟩, report ⟨1⟩ 9, report ⟨2⟩ 4, report ⟨1⟩ 4, .slot ⟨0, 1, 0, 0⟩] =
        .ok ([slot], last) := by
  intro report
  have hrun : (sampleCell.performAll sampleOperations).toOption.any (fun x =>
      (x.2.slotsOf [report ⟨1⟩ 9, report ⟨1⟩ 4, .removeUser ⟨2⟩, report ⟨2⟩ 4,
        .slot ⟨0, 1, 0, 0⟩]).toOption.any fun y =>
          y.1.length = 1 ∧ ∀ slot ∈ y.1, slot.downlink ≠ []) = true := by
    decide +kernel
  obtain ⟨⟨events, c⟩, hops, hslots⟩ := exists_ok_of_any hrun
  obtain ⟨⟨slots, last⟩, hfirst, hone⟩ := exists_ok_of_any hslots
  obtain ⟨hlength, hbusy⟩ := of_decide_eq_true hone
  obtain ⟨slot, rfl⟩ := List.length_eq_one_iff.mp hlength
  have hc : c.Reachable := ⟨_, _, _, _, run_sample hops⟩
  refine ⟨c, last, slot, hc, hbusy slot List.mem_cons_self, hfirst, ?_⟩
  rw [← hfirst]
  apply Eq.symm
  apply (operations_of_users_commute hc).2
  intro r
  by_cases h₁ : r = ⟨1⟩
  · rw [h₁]
    rfl
  · by_cases h₂ : r = ⟨2⟩
    · rw [h₂]
      rfl
    · simp [Operation.concerns, Operation.rnti?, report, Ne.symm h₁, Ne.symm h₂]

end Airtime
