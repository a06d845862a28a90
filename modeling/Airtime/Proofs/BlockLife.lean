import Airtime.Proofs.Held

/-! The history of one process over a run: what is sent over it splits into blocks, one after the
other, each with its repetitions and its end. -/

namespace Airtime

/-- Two transmissions of one block. Only the beam, the first symbol and the version can differ. -/
structure Assignment.SameBlock (a b : Assignment) : Prop where
  rnti : a.rnti = b.rnti
  direction : a.direction = b.direction
  process : a.process = b.process
  startRbg : a.startRbg = b.startRbg
  numRbg : a.numRbg = b.numRbg
  numSym : a.numSym = b.numSym
  mcs : a.mcs = b.mcs
  blockSize : a.blockSize = b.blockSize

theorem Assignment.SameBlock.refl (a : Assignment) : a.SameBlock a :=
  ⟨rfl, rfl, rfl, rfl, rfl, rfl, rfl, rfl⟩

theorem Assignment.SameBlock.repeated {b : Block} {first : Assignment}
    (h : b.assignment.SameBlock first) (beam : BeamId) (sym : UInt32) :
    (b.repeated beam sym).SameBlock first :=
  ⟨h.rnti, h.direction, h.process, h.startRbg, h.numRbg, h.numSym, h.mcs, h.blockSize⟩

/-- The events of a block that was sent `n` times so far, from its first transmission on. The flag
tells whether it was reported lost after the last one. -/
inductive Life (p : ProcessRef) (max : Nat) (first : Assignment) (payload : List Pdu) :
    Nat → Bool → List Event → Prop
  | opened {e : Event} (free : e.before.hasFree p) (sent : e.sent p = [first])
      (new : first.newData = true) (version : versions[0]? = some first.redundancy)
      (stored : e.after.payload? p = some payload) : Life p max first payload 1 false [e]
  | quiet {n : Nat} {lost : Bool} {events : List Event} {e : Event}
      (life : Life p max first payload n lost events) (silent : e.operation.report? p = none)
      (stays : e.operation ≠ .removeUser p.rnti) (sent : e.sent p = [])
      (stored : e.after.payload? p = some payload) :
      Life p max first payload n lost (events ++ [e])
  | lost {n : Nat} {lost : Bool} {events : List Event} {e : Event}
      (life : Life p max first payload n lost events)
      (report : e.operation.report? p = some false) (early : n < max) (sent : e.sent p = [])
      (stored : e.after.payload? p = some payload) :
      Life p max first payload n true (events ++ [e])
  | again {n : Nat} {events : List Event} {e : Event} {a : Assignment}
      (life : Life p max first payload n true events) (early : n < max)
      (silent : e.operation.report? p = none) (stays : e.operation ≠ .removeUser p.rnti)
      (sent : e.sent p = [a]) (same : a.SameBlock first) (old : a.newData = false)
      (version : versions[n % 4]? = some a.redundancy)
      (stored : e.after.payload? p = some payload) :
      Life p max first payload (n + 1) false (events ++ [e])

def Event.Ends (e : Event) (p : ProcessRef) (max n : Nat) : Prop :=
  e.operation.report? p = some true ∨ e.operation.report? p = some false ∧ n = max ∨
    e.operation = .removeUser p.rnti

/-- Events in which every block over a process came to its end. -/
inductive Lives (p : ProcessRef) (max : Nat) : List Event → Prop
  | nil : Lives p max []
  | idle {events : List Event} {e : Event} (lives : Lives p max events) (sent : e.sent p = []) :
      Lives p max (events ++ [e])
  | life {before during : List Event} {e : Event} {first : Assignment} {payload : List Pdu}
      {n : Nat} {lost : Bool} (lives : Lives p max before)
      (life : Life p max first payload n lost during) (ends : e.Ends p max n)
      (sent : e.sent p = []) : Lives p max (before ++ during ++ [e])

namespace Life

variable {p : ProcessRef} {max n : Nat} {first : Assignment} {payload : List Pdu} {lost : Bool}
  {events : List Event}

theorem lt_max (h : Life p max first payload n lost events) (hlost : lost = true) : n < max := by
  induction h with
  | opened => cases hlost
  | quiet _ _ _ _ _ ih => exact ih hlost
  | lost _ _ early => exact early
  | again => cases hlost

theorem le_max (hmax : 1 ≤ max) (h : Life p max first payload n lost events) : n ≤ max := by
  induction h with
  | opened => exact hmax
  | quiet _ _ _ _ _ ih => exact ih
  | lost _ _ early => exact Nat.le_of_lt early
  | again _ early => exact early

theorem sent_eq (h : Life p max first payload n lost events) : ∃ again,
    events.flatMap (·.sent p) = first :: again ∧ again.length + 1 = n ∧
    first.newData = true ∧ versions[0]? = some first.redundancy ∧
    ∀ k a, again[k]? = some a → a.SameBlock first ∧ a.newData = false ∧
      versions[(k + 1) % 4]? = some a.redundancy := by
  induction h with
  | opened _ sent new version _ => exact ⟨[], by simp [sent], rfl, new, version, by simp⟩
  | quiet _ _ _ sent _ ih | lost _ _ _ sent _ ih => simpa [sent] using ih
  | @again n events e a _ _ _ _ sent same old version _ ih =>
    obtain ⟨again, hsent, hlength, hnew, hfirst, hagain⟩ := ih
    refine ⟨again ++ [a], by simp [sent, hsent], by simp [hlength], hnew, hfirst, ?_⟩
    intro k a' ha'
    rw [List.getElem?_append] at ha'
    split at ha'
    · exact hagain k a' ha'
    · next hk =>
      obtain ⟨hk', rfl⟩ : k - again.length = 0 ∧ a = a' := by
        simpa [List.getElem?_singleton] using ha'
      have hn : k + 1 = n := by omega
      exact ⟨same, old, hn ▸ version⟩

end Life

def Traced (p : ProcessRef) (max : Nat) (events : List Event) :
    Option (Block × List Pdu) → Prop
  | none => Lives p max events
  | some (b, payload) => ∃ before during first, events = before ++ during ∧ Lives p max before ∧
      Life p max first payload b.transmissions.toNat b.lost during ∧ b.assignment.SameBlock first

theorem Traced.step {p : ProcessRef} {max : Nat} {events : List Event} {e : Event}
    {x y : Option (Block × List Pdu)} (hmax : 1 ≤ max) (h : Traced p max events x)
    (he : e.Effect p max x y)
    (hstored : ∀ b pdus, y = some (b, pdus) → e.after.payload? p = some pdus) :
    Traced p max (events ++ [e]) y := by
  cases he with
  | kept silent stays sent =>
    cases x with
    | none => exact .idle h sent
    | some x =>
      obtain ⟨before, during, first, rfl, hbefore, hlife, hsame⟩ := h
      exact ⟨before, during ++ [e], first, List.append_assoc .., hbefore,
        hlife.quiet silent stays sent (hstored _ _ rfl), hsame⟩
  | removed leaves sent =>
    cases x with
    | none => exact .idle h sent
    | some x =>
      obtain ⟨before, during, first, rfl, hbefore, hlife, -⟩ := h
      exact .life hbefore hlife (.inr (.inr leaves)) sent
  | stray sent => exact .idle h sent
  | lost report early sent =>
    obtain ⟨before, during, first, rfl, hbefore, hlife, hsame⟩ := h
    exact ⟨before, during ++ [e], first, List.append_assoc .., hbefore,
      hlife.lost report early sent (hstored _ _ rfl), hsame⟩
  | @released x success report done sent =>
    obtain ⟨before, during, first, rfl, hbefore, hlife, -⟩ := h
    refine .life hbefore hlife ?_ sent
    cases success with
    | true => exact .inl report
    | false =>
      have hlimit := done.resolve_left Bool.false_ne_true
      exact .inr (.inl ⟨report, Nat.le_antisymm (hlife.le_max hmax) hlimit⟩)
  | again silent stays lost count sent =>
    obtain ⟨before, during, first, rfl, hbefore, hlife, hsame⟩ := h
    refine ⟨before, during ++ [e], first, List.append_assoc .., hbefore, ?_, hsame.repeated _ _⟩
    rw [lost] at hlife
    rw [count]
    exact hlife.again (hlife.lt_max rfl) silent stays sent (hsame.repeated _ _) rfl
      (versions_redundancyVersion _) (hstored _ _ rfl)
  | opened free new first sent =>
    exact ⟨events, [e], _, rfl, h,
      .opened free sent new (congrArg some first.symm) (hstored _ _ rfl), .refl _⟩

theorem Run.traced {config : CellConfig} {link : LinkModel} {confirming : Bool}
    {events : List Event} {c : Cell} (h : Run config link confirming events c) (p : ProcessRef) :
    Traced p config.maxTransmissions.toNat events (c.held? p) := by
  induction h with
  | @start c h =>
    rw [(Cell.create_ok_iff.mp h).2]
    exact .nil
  | @step events c c' op slot run h ih =>
    have hc := run.sound
    have hmax := hc.valid.transmissions_pos
    rw [← run.config] at ih ⊢
    exact ih.step hmax (hc.effect h p) fun b pdus hheld => Cell.payload?_of_held hheld

/-- Over every process of every user a run sends block after block. Each is a new one over a process
that was free, then its repetitions, and there is no other before it came to its end. -/
theorem block_lives {config : CellConfig} {link : LinkModel} {confirming : Bool}
    {events : List Event} {c : Cell} (h : Run config link confirming events c) (p : ProcessRef) :
    Lives p config.maxTransmissions.toNat events ∨
      ∃ before during first payload n lost, events = before ++ during ∧
        Lives p config.maxTransmissions.toNat before ∧
        Life p config.maxTransmissions.toNat first payload n lost during := by
  have htraced := h.traced p
  cases hheld : c.held? p with
  | none =>
    rw [hheld] at htraced
    exact .inl htraced
  | some x =>
    rw [hheld] at htraced
    obtain ⟨before, during, first, hevents, hbefore, hlife, -⟩ := htraced
    exact .inr ⟨before, during, first, _, _, _, hevents, hbefore, hlife⟩

/-- A block that is lost, sent again and lost for good. -/
theorem block_lives_sample : ∃ (events : List Event) (c : Cell),
    Run sampleConfig (.proportional 10) false events c ∧
    (events.flatMap (·.sent ⟨⟨1⟩, .downlink, 0⟩)).map (fun a => (a.newData, a.redundancy)) =
      [(true, 0), (false, 2)] ∧
    (Lives ⟨⟨1⟩, .downlink, 0⟩ 2 events ∨
      ∃ before during first payload n lost, events = before ++ during ∧
        Lives ⟨⟨1⟩, .downlink, 0⟩ 2 before ∧
        Life ⟨⟨1⟩, .downlink, 0⟩ 2 first payload n lost during) := by
  have hrun : (sampleCell.performAll (sampleOperations ++
      [.slot ⟨0, 0, 1, 0⟩, .feedback ⟨⟨1⟩, 0, .downlink, false⟩])).toOption.any (fun x =>
        (x.1.flatMap (·.sent ⟨⟨1⟩, .downlink, 0⟩)).map (fun a => (a.newData, a.redundancy)) =
          [(true, 0), (false, 2)]) = true := by
    decide +kernel
  obtain ⟨⟨events, c⟩, hops, hsent⟩ := exists_ok_of_any hrun
  have h := run_sample hops
  exact ⟨events, c, h, by simpa using hsent, block_lives h ⟨⟨1⟩, .downlink, 0⟩⟩

end Airtime
