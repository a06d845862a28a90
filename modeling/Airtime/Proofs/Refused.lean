import Airtime.Proofs.Run

/-! A slot is never refused in a consistent cell: blocks are stored without complaint, so that a slot
can only fail by leaving the range of a computation. -/

namespace Airtime

variable {α β κ σ : Type}

/-- A computation that does not end with a refusal. -/
def Unrefused (x : Except Failure α) : Prop := ∀ why, x ≠ .error (.refused why)

theorem unrefused_ok (a : α) : Unrefused (.ok a) := fun why h => by cases h

theorem unrefused_fault (x : Except Fault α) : Unrefused (liftM x : Except Failure α) := by
  intro why h
  cases x with
  | error e => cases h
  | ok a => cases h

theorem Unrefused.bind {x : Except Failure α} {f : α → Except Failure β} (hx : Unrefused x)
    (hf : ∀ a, x = .ok a → Unrefused (f a)) : Unrefused (x >>= f) := by
  cases x with
  | error e =>
    intro why h
    exact hx why (by cases h; rfl)
  | ok a => exact hf a rfl

theorem unrefused_foldlM {f : β → α → Except Failure β} {l : List α}
    (hf : ∀ b, ∀ a ∈ l, Unrefused (f b a)) (b : β) : Unrefused (l.foldlM f b) := by
  induction l generalizing b with
  | nil => exact unrefused_ok b
  | cons a l ih =>
    rw [List.foldlM_cons]
    exact (hf b a (by simp)).bind fun b' _ => ih (fun b a ha => hf b a (by simp [ha])) b'

theorem unrefused_walk [Key κ] {f : σ → κ → α → Except Failure (σ × β)} {t : Table κ α}
    (hf : ∀ s k v, (k, v) ∈ t.entries → Unrefused (f s k v)) (s : σ) : Unrefused (t.walk f s) := by
  have hlist : ∀ (l : List (κ × α)) (s : σ), (∀ s k v, (k, v) ∈ l → Unrefused (f s k v)) →
      Unrefused (Table.walkList f s l) := by
    intro l
    induction l with
    | nil => exact fun s _ => unrefused_ok _
    | cons e l ih =>
      intro s hl
      apply (hl s e.1 e.2 (by simp)).bind
      intro x _
      exact (ih x.1 fun s k v hv => hl s k v (by simp [hv])).bind fun r _ => unrefused_ok _
  exact (hlist t.entries s hf).bind fun r _ => unrefused_ok _

namespace Cell

variable {c : Cell} {d : Direction}

theorem unrefused_commit {s : LinkState} {a : Assignment} (wf : s.groups.WellFormed)
    (hp : s.harq.process? a.process = some ⟨some a.rnti, ∅, []⟩) : Unrefused (commit s a) := by
  cases hfill : s.groups.fill a.blockSize with
  | error e =>
    rw [commit, hfill]
    exact (unrefused_fault (.error e)).bind fun _ h => by cases h
  | ok x =>
    rw [commit_eq wf hp hfill]
    exact unrefused_ok _

theorem unrefused_serve {draft : Draft} {u : User} (wf : (u.link d).groups.WellFormed)
    (hh : (u.link d).harq.WellFormed) : Unrefused (c.serve d draft u) := by
  apply (unrefused_fault _).bind
  intro s hs
  simp only [LinkState.sized, lift_fault_ok_iff, bind_ok_iff, pure_ok_iff] at hs
  obtain ⟨size, -, rfl⟩ := hs
  split
  · exact unrefused_ok _
  · split
    · exact unrefused_ok _
    · next process harq hassign =>
      have hproc := HarqTable.process?_assign hh hassign process
      rw [if_pos rfl] at hproc
      -- Both ways to lay out the block give it the process that was taken.
      have hcommit : ∀ start num, Unrefused (commit { u.link d with blockSize := size, harq }
          (draft.cursor.newBlock (u.setLink d { u.link d with blockSize := size, harq }) d process
            start num)) :=
        fun start num => unrefused_commit wf (by simpa [Cursor.newBlock] using hproc)
      simp only [User.setLink_setLink]
      split
      · apply (unrefused_fault _).bind
        intro x hplace
        simp only [Cursor.placeRange, lift_fault_ok_iff, bind_ok_iff, pure_ok_iff] at hplace
        obtain ⟨groups, -, rbg, -, rfl⟩ := hplace
        exact (hcommit _ _).bind fun s _ => unrefused_ok _
      · apply (unrefused_fault _).bind
        intro x hplace
        simp only [Cursor.placeBand, lift_fault_ok_iff, bind_ok_iff, pure_ok_iff] at hplace
        obtain ⟨sym, -, rfl⟩ := hplace
        exact (hcommit _ _).bind fun s _ => unrefused_ok _

theorem unrefused_serveBeam {split : BeamSymbols} {draft : Draft} {beam : BeamId}
    {ks : List Contender} (hs : ∀ k ∈ ks, (k.user.link d).Ready) :
    Unrefused (c.serveBeam d split draft beam ks) := by
  refine Unrefused.bind (unrefused_foldlM (fun x k hk => ?_) _) fun x _ => ?_
  · exact (unrefused_serve (hs k hk).groups (hs k hk).harq).bind fun y _ => unrefused_ok _
  · simp only
    split
    · exact (unrefused_fault _).bind fun cursor _ => unrefused_ok _
    · exact unrefused_ok _

theorem unrefused_addNewData (hc : c.Cleared d) (draft : Draft) :
    Unrefused (c.addNewData d draft) := by
  apply (unrefused_fault _).bind
  intro active hactive
  rw [lift_fault_ok_iff] at hactive
  split
  · exact unrefused_ok _
  · apply (unrefused_fault _).bind
    intro x hallocate
    obtain ⟨split, active'⟩ := x
    rw [lift_fault_ok_iff] at hallocate
    have hready := ready_of_allocate hc hactive hallocate
    refine (unrefused_walk (fun draft beam ks hks => unrefused_serveBeam fun k hk => ?_) _).bind
      fun x _ => (unrefused_foldlM (fun t e _ => unrefused_fault _) _).bind fun _ _ => unrefused_ok _
    exact hready k (List.mem_flatten.mpr ⟨ks, List.mem_map_of_mem (f := Prod.snd) hks, hk⟩)

theorem unrefused_scheduleDirection (hc : c.Sound) (d : Direction) :
    Unrefused (c.scheduleDirection d) := by
  apply (unrefused_fault _).bind
  intro draft₀ hstart
  apply (unrefused_walk (fun _ _ _ _ => unrefused_fault _) _).bind
  intro x hresend
  obtain ⟨draft₁, users⟩ := x
  rw [lift_fault_ok_iff] at hstart
  simp only
  split
  · exact unrefused_ok _
  · exact unrefused_addNewData (cleared_of_resent hc hstart
      ((Table.walk_ok hresend).imp fun _ _ _ _ => lift_fault_ok_iff.mp)) _

theorem unrefused_scheduleSlot (hc : c.Sound) (time : SlotTime) :
    Unrefused (c.scheduleSlot time) := by
  apply (unrefused_scheduleDirection hc .downlink).bind
  intro x hdown
  exact (unrefused_scheduleDirection (hc.scheduleDirection hdown) .uplink).bind fun y _ =>
    unrefused_ok _

end Cell

/-- Every run can go on with any operation, unless a slot leaves the range of a computation. -/
theorem Run.unrefused {config : CellConfig} {link : LinkModel} {confirming : Bool}
    {events : List Event} {c : Cell} (h : Run config link confirming events c) (op : Operation) :
    Unrefused (c.perform op) := by
  cases op with
  | slot time => exact (Cell.unrefused_scheduleSlot h.sound time).bind fun x _ => unrefused_ok _
  | _ => exact unrefused_ok _

end Airtime
