import Airtime.Proofs.PoolHistory

/-! The free processes of a pool are a queue. What was free at first and what is released since come
out again in this order, whoever asks: a process that is released is taken again only after all
those that were free before it. -/

namespace Airtime.HarqTable

variable {κ π : Type} {t : HarqTable κ π} {n : UInt8}

def Exchange.resizes (e : Exchange κ π) : Bool :=
  match e.request, e.answer with
  | .clear, _ => true
  | .setup _, .ok _ => true
  | _, _ => false

def Exchange.taken? (e : Exchange κ π) : Option ProcessId :=
  match e.request, e.answer with
  | .assign _, .ok o => o
  | .tryAssign _, .ok o => o
  | _, _ => none

def Exchange.released? (e : Exchange κ π) : Option ProcessId :=
  match e.request, e.answer with
  | .release _ id, .ok _ => some id
  | _, _ => none

def taken (log : List (Exchange κ π)) : List ProcessId := log.filterMap Exchange.taken?

def released (log : List (Exchange κ π)) : List ProcessId := log.filterMap Exchange.released?

variable [DecidableEq κ] [Holder κ]

def exchanges (t : HarqTable κ π) : List (Request κ π) → List (Exchange κ π)
  | [] => []
  | q :: qs => ⟨q, (t.perform q).2⟩ :: (t.perform q).1.exchanges qs

def performAll (t : HarqTable κ π) (qs : List (Request κ π)) : HarqTable κ π :=
  qs.foldl (fun t q => (t.perform q).1) t

/-- A pool that was just given `n` processes, when it was made or by a request. -/
inductive Sized (n : UInt8) : HarqTable κ π → Prop
  | ofCapacity : Sized n (.ofCapacity n)
  | setup {t : HarqTable κ π} (h : t.Reached) {o : Option ProcessId}
      (hok : (t.perform (.setup n)).2 = .ok o) : Sized n (t.perform (.setup n)).1

theorem free_of_sized (h : Sized n t) : t.free = (List.range n.toNat).map UInt8.ofNat := by
  cases h with
  | ofCapacity => rfl
  | @setup t ht o hok =>
    rw [perform_ok_iff] at hok
    simp only [attempt, bind_ok_iff, pure_ok_iff, Prod.mk.injEq] at hok
    obtain ⟨_, hsetup, -, hpool⟩ := hok
    rw [← hpool, (ht.wellFormed.setup_ok_iff.mp hsetup).2]
    rfl

theorem free_of_perform (q : Request κ π)
    (h : (⟨q, (t.perform q).2⟩ : Exchange κ π).resizes = false) :
    (Exchange.taken? ⟨q, (t.perform q).2⟩).toList ++ (t.perform q).1.free =
      t.free ++ (Exchange.released? ⟨q, (t.perform q).2⟩).toList := by
  rw [perform_eq] at h ⊢
  cases hattempt : t.attempt q with
  | error e => cases q <;> simp [Exchange.taken?, Exchange.released?]
  | ok x =>
    obtain ⟨o, t'⟩ := x
    rw [hattempt] at h
    cases q with
    | setup n => cases h
    | clear => cases h
    | assign k =>
      simp only [attempt, bind_ok_iff, pure_ok_iff, Prod.mk.injEq] at hattempt
      obtain ⟨⟨id, _⟩, hassign, rfl, rfl⟩ := hattempt
      simp [Exchange.taken?, Exchange.released?, free_of_assign hassign]
    | tryAssign k =>
      simp only [attempt] at hattempt
      split at hattempt
      · cases hattempt
        simp [Exchange.taken?, Exchange.released?]
      · next hassign =>
        cases hattempt
        simp [Exchange.taken?, Exchange.released?, free_of_assign hassign]
    | addPacket k ch id x =>
      simp only [attempt, bind_ok_iff, pure_ok_iff, Prod.mk.injEq] at hattempt
      obtain ⟨_, hadd, -, rfl⟩ := hattempt
      obtain ⟨p, -, -, -, rfl⟩ := addPacket_ok_iff.mp hadd
      simp [Exchange.taken?, Exchange.released?]
    | release k id =>
      simp only [attempt, bind_ok_iff, pure_ok_iff, Prod.mk.injEq] at hattempt
      obtain ⟨_, hrelease, -, rfl⟩ := hattempt
      obtain ⟨-, -, rfl⟩ := release_ok_iff.mp hrelease
      simp [Exchange.taken?, Exchange.released?]

/-- What comes out of the queue, and what is left in it, is what was in it and what came in. -/
theorem free_of_performAll {qs : List (Request κ π)}
    (h : ∀ e ∈ t.exchanges qs, e.resizes = false) :
    taken (t.exchanges qs) ++ (t.performAll qs).free = t.free ++ released (t.exchanges qs) := by
  simp only [taken, released, List.filterMap_eq_flatMap_toList]
  induction qs generalizing t with
  | nil => exact (List.append_nil _).symm
  | cons q qs ih =>
    have hfirst := free_of_perform q (h _ List.mem_cons_self)
    have hrest := ih fun e he => h e (List.mem_cons_of_mem _ he)
    rw [exchanges, List.flatMap_cons, List.flatMap_cons, List.append_assoc, ← List.append_assoc,
      ← List.append_assoc t.free, ← hfirst, List.append_assoc, List.append_assoc]
    exact congrArg _ hrest

theorem exchanges_append (qs qs' : List (Request κ π)) :
    t.exchanges (qs ++ qs') = t.exchanges qs ++ (t.performAll qs).exchanges qs' := by
  induction qs generalizing t with
  | nil => rfl
  | cons q qs ih => exact congrArg _ ih

theorem free_of_taken {q : Request κ π} {id : ProcessId}
    (h : Exchange.taken? ⟨q, (t.perform q).2⟩ = some id) : t.free = id :: (t.perform q).1.free := by
  have hfree := free_of_perform (t := t) q (by cases q <;> first | rfl | cases h)
  rw [h] at hfree
  cases q with
  | assign k => simpa [Exchange.released?] using hfree.symm
  | tryAssign k => simpa [Exchange.released?] using hfree.symm
  | _ => cases h

/-- A process that is taken again after its release finds those taken that were free before it. -/
theorem taken_before {k : κ} {id : ProcessId} {o : Option ProcessId} {mid : List (Request κ π)}
    {q : Request κ π} (hrelease : (t.perform (.release k id)).2 = .ok o)
    (h : ∀ e ∈ t.exchanges (.release k id :: mid), e.resizes = false)
    (htaken : Exchange.taken? ⟨q, ((t.performAll (.release k id :: mid)).perform q).2⟩ = some id) :
    t.free <+: taken (t.exchanges (.release k id :: mid)) := by
  have hbusy : id ∉ t.free := by
    rw [perform_ok_iff] at hrelease
    simp only [attempt, bind_ok_iff, pure_ok_iff, Prod.mk.injEq] at hrelease
    obtain ⟨_, hrelease, -⟩ := hrelease
    exact (release_ok_iff.mp hrelease).1
  have hqueue := free_of_performAll h
  rw [free_of_taken htaken, List.append_eq_append_iff] at hqueue
  rcases hqueue with ⟨left, hfree, hleft⟩ | ⟨more, hmore, -⟩
  · -- What would be left of the queue starts with the process itself.
    cases left with
    | nil => exact ⟨[], by rw [hfree, List.append_nil, List.append_nil]⟩
    | cons id' left =>
      obtain rfl : id = id' := (List.cons.inj hleft).1
      exact absurd (hfree ▸ by simp) hbusy
  · exact ⟨more, hmore.symm⟩

/-- As long as a pool is not sized again, it hands out its processes in a fixed order: first all of
them by number, then in the order in which they were released. So a process that was released is not
taken again before each process that was free at its release. -/
theorem processes_queue_up (hsized : Sized n t) {qs : List (Request κ π)}
    (hqs : ∀ e ∈ t.exchanges qs, e.resizes = false) :
    taken (t.exchanges qs) <+:
      (List.range n.toNat).map UInt8.ofNat ++ released (t.exchanges qs) ∧
    ∀ before k id mid q rest o, qs = before ++ (.release k id :: mid ++ q :: rest) →
      ((t.performAll before).perform (.release k id)).2 = .ok o →
      Exchange.taken? ⟨q, ((t.performAll (before ++ .release k id :: mid)).perform q).2⟩ = some id →
      (t.performAll before).free <+:
        taken ((t.performAll before).exchanges (.release k id :: mid)) := by
  refine ⟨?_, ?_⟩
  · rw [← free_of_sized hsized, ← free_of_performAll hqs]
    exact List.prefix_append _ _
  · rintro before k id mid q rest o rfl hrelease htaken
    have hsplit : (t.performAll before).performAll (.release k id :: mid) =
        t.performAll (before ++ .release k id :: mid) := (List.foldl_append ..).symm
    refine taken_before hrelease (fun e he => hqs e ?_) (hsplit ▸ htaken)
    rw [exchanges_append, exchanges_append, List.mem_append, List.mem_append]
    exact .inr (.inl he)

/-- Three processes, the second of which is released first and taken again last. -/
theorem processes_queue_up_sample :
    let requests : List (Request UInt32 Unit) :=
      [.assign 100, .tryAssign 200, .release 100 1, .release 200 1, .addPacket 100 3 0 (),
        .release 200 1, .assign 100, .release 100 0, .tryAssign 300]
    let pool : HarqTable UInt32 Unit := .ofCapacity 3
    taken (pool.exchanges requests) = [0, 1, 2, 1] ∧
      released (pool.exchanges requests) = [1, 0] ∧
      taken (pool.exchanges requests) <+:
        (List.range 3).map UInt8.ofNat ++ released (pool.exchanges requests) ∧
      (pool.performAll (requests.take 3)).free <+:
        taken ((pool.performAll (requests.take 3)).exchanges ((requests.drop 3).take 5)) := by
  intro requests pool
  have h := @processes_queue_up _ _ pool 3 _ _ .ofCapacity requests (by decide +kernel)
  exact ⟨by decide +kernel, by decide +kernel, h.1,
    h.2 (requests.take 3) 200 1 ((requests.drop 4).take 4) (.tryAssign 300) [] none rfl
      (by decide +kernel) (by decide +kernel)⟩

end Airtime.HarqTable
