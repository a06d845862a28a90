import Airtime.Proofs.CellStep

/-! The blocks of a user as a ledger. Every block that was started is on its way or done with, once,
however often it was sent, and every transmission was answered unless its block still waits for the
answer. The ledger is a matter of lists (`Ledger`); a slot adds to what was sent (`Grows`), and each
answer takes a block off or marks it as lost. -/

namespace Airtime

namespace Table

variable {κ α β : Type} [Key κ] {t : Table κ α} {k : κ}

theorem values_perm {v : α} (h : t.get? k = some v) : t.values.Perm (v :: (t.erase k).values) := by
  have hentries : t.entries.Perm ((k, v) :: (t.erase k).entries) := by
    have hnodup : t.entries.Nodup := List.Nodup.of_map Prod.fst t.keys_nodup
    refine (List.perm_ext_iff_of_nodup hnodup (List.nodup_cons.mpr ⟨?_, ?_⟩)).mpr fun e => ?_
    · simp [erase]
    · exact hnodup.filter _
    · simp only [erase, List.mem_cons, List.mem_filter, ne_eq, decide_eq_true_eq]
      constructor
      · intro he
        by_cases hr : Key.rank e.1 = Key.rank k
        · have hget := mem_entries.mp he
          rw [Key.rank_inj hr, h] at hget
          exact .inl (Prod.ext (Key.rank_inj hr) (Option.some.inj hget).symm)
        · exact .inr ⟨he, hr⟩
      · rintro (rfl | ⟨he, -⟩)
        · exact mem_entries.mpr h
        · exact he
  exact hentries.map Prod.snd

theorem erase_of_get?_none (h : t.get? k = none) : t.erase k = t := by
  apply ext_get?
  intro k'
  rw [get?_erase]
  split
  · next hr => rw [Key.rank_inj hr, h]
  · rfl

theorem values_insert_perm (t : Table κ α) (k : κ) (v : α) :
    (t.insert k v).values.Perm (v :: (t.erase k).values) := by
  have herase : (t.insert k v).erase k = t.erase k := by
    apply ext_get?
    intro k'
    simp only [get?_erase, get?_insert]
    split <;> rfl
  exact herase ▸ values_perm (get?_insert_self t k v)

theorem forall₂_of_get? {Q : κ → α → β → Prop} {t' : Table κ β}
    (h : ∀ k, t.get? k = none ∧ t'.get? k = none ∨
      ∃ v w, t.get? k = some v ∧ t'.get? k = some w ∧ Q k v w) :
    List.Forall₂ (fun e e' => e'.1 = e.1 ∧ Q e.1 e.2 e'.2) t.entries t'.entries := by
  have hkeys : t.entries.map Prod.fst = t'.entries.map Prod.fst := by
    have hunit : t.map (fun _ => ()) = t'.map fun _ => () := by
      apply ext_get?
      intro k
      rw [get?_map, get?_map]
      rcases h k with ⟨hv, hw⟩ | ⟨v, w, hv, hw, -⟩
      · rw [hv, hw]
        rfl
      · rw [hv, hw]
        rfl
    simpa [map, keys, Function.comp_def] using congrArg keys hunit
  have hsame : List.Forall₂ (fun e e' => e.1 = e'.1) t.entries t'.entries := by
    have heq : List.Forall₂ Eq (t.entries.map Prod.fst) (t'.entries.map Prod.fst) := by
      rw [List.forall₂_eq_eq_eq]
      exact hkeys
    exact List.forall₂_map_right_iff.mp (List.forall₂_map_left_iff.mp heq)
  refine List.forall₂_iff_zip.mpr ⟨hsame.length_eq, fun {e e'} hmem => ?_⟩
  have hkey := (List.forall₂_iff_zip.mp hsame).2 hmem
  obtain ⟨he, he'⟩ := List.of_mem_zip hmem
  rcases h e.1 with ⟨hnone, -⟩ | ⟨v, w, hv, hw, hQ⟩
  · rw [mem_entries.mp he] at hnone
    cases hnone
  · obtain rfl := Option.some.inj ((mem_entries.mp he).symm.trans hv)
    obtain rfl := Option.some.inj ((mem_entries.mp he').symm.trans (hkey ▸ hw))
    exact ⟨hkey.symm, hQ⟩

end Table

/-- What all transmissions of a block have in common. -/
def Assignment.common (a : Assignment) : Assignment :=
  { a with beam := ⟨0⟩, startSym := 0, newData := true, redundancy := 0 }

/-- Feedback that was delivered, and the block on its way that it was for. -/
structure Answer where
  feedback : Feedback
  block : Block
  deriving DecidableEq, Repr

/-- An answer is the last one of its block: the block arrived, or was sent `max` times. -/
def Answer.last (max : UInt8) (a : Answer) : Bool :=
  a.feedback.success || max ≤ a.block.transmissions

def Answer.dropped (max : UInt8) (a : Answer) : Bool :=
  !a.feedback.success && max ≤ a.block.transmissions

def totalSends (blocks : List Block) : Nat := (blocks.map (·.transmissions.toNat)).sum

def openBlocks (blocks : List Block) : List Block := blocks.filter (!·.lost)

section Blocks

variable {l l' : List Block}

@[simp] theorem totalSends_nil : totalSends [] = 0 := rfl

theorem totalSends_cons (b : Block) (l : List Block) :
    totalSends (b :: l) = b.transmissions.toNat + totalSends l := List.sum_cons

theorem totalSends_append (l l' : List Block) :
    totalSends (l ++ l') = totalSends l + totalSends l' := by
  rw [totalSends, List.map_append, List.sum_append]
  rfl

theorem totalSends_of_perm (h : l.Perm l') : totalSends l = totalSends l' := (h.map _).sum_eq

theorem openBlocks_cons (b : Block) (l : List Block) :
    openBlocks (b :: l) = if b.lost then openBlocks l else b :: openBlocks l := by
  unfold openBlocks
  rw [List.filter_cons]
  cases b.lost <;> rfl

theorem length_openBlocks_of_perm (h : l.Perm l') :
    (openBlocks l).length = (openBlocks l').length := (h.filter _).length_eq

end Blocks

/-- The blocks of a user before and after some transmissions to it. -/
structure Grows (blocks blocks' : List Block) (sent : List Assignment) : Prop where
  started : (blocks'.map (·.assignment.common)).Perm
    ((sent.filter (·.newData)).map Assignment.common ++ blocks.map (·.assignment.common))
  sends : totalSends blocks' = totalSends blocks + sent.length
  waiting : (openBlocks blocks').length = (openBlocks blocks).length + sent.length

namespace Grows

variable {l l' m m' : List Block} {sent more : List Assignment}

theorem refl (l : List Block) : Grows l l [] := ⟨.refl _, rfl, rfl⟩

theorem of_perm (h : l.Perm l') : Grows l l' [] :=
  ⟨(h.map _).symm, totalSends_of_perm h.symm, length_openBlocks_of_perm h.symm⟩

theorem append (h : Grows l l' sent) (h' : Grows m m' more) :
    Grows (l ++ m) (l' ++ m') (sent ++ more) where
  started := by
    simp only [List.map_append, List.filter_append]
    refine (h.started.append h'.started).trans ?_
    rw [List.append_assoc, List.append_assoc]
    exact (List.perm_append_comm_assoc _ _ _).append_left _
  sends := by
    rw [totalSends_append, totalSends_append, h.sends, h'.sends, List.length_append]
    omega
  waiting := by
    have h₁ := h.waiting
    have h₂ := h'.waiting
    simp only [openBlocks, List.filter_append, List.length_append] at h₁ h₂ ⊢
    omega

theorem trans (h : Grows l m sent) (h' : Grows m l' more) : Grows l l' (sent ++ more) where
  started := by
    simp only [List.map_append, List.filter_append]
    refine (h'.started.trans (h.started.append_left _)).trans ?_
    rw [List.append_assoc]
    exact List.perm_append_comm_assoc _ _ _
  sends := by
    rw [h'.sends, h.sends, List.length_append, Nat.add_assoc]
  waiting := by
    rw [h'.waiting, h.waiting, List.length_append, Nat.add_assoc]

theorem of_again {beam : BeamId} {b b' : Block} (h : Block.Again beam b b' sent) :
    Grows [b] [b'] sent := by
  rcases h with ⟨rfl, rfl⟩ | ⟨hlost, sym, n, hn, rfl, rfl⟩
  · exact .refl _
  · refine ⟨.refl _, ?_, ?_⟩
    · simp [totalSends_cons, hn]
    · simp [openBlocks, hlost]

theorem of_new {a : Assignment} (hnew : a.newData = true) (l : List Block) :
    Grows l (⟨a, 1, false⟩ :: l) [a] := by
  refine ⟨?_, ?_, ?_⟩
  · simp [hnew]
  · simp [totalSends_cons, Nat.add_comm]
  · simp [openBlocks]

end Grows

/-- What was sent to a user, what was answered, and the blocks on their way. -/
structure Ledger (max : UInt8) (blocks : List Block) (sent : List Assignment)
    (answers : List Answer) : Prop where
  /-- The blocks that were started are those that are done with and those on their way. -/
  started : ((sent.filter (·.newData)).map Assignment.common).Perm
    ((answers.filter (·.last max)).map (·.block.assignment.common) ++
      blocks.map (·.assignment.common))
  sends : sent.length =
    totalSends ((answers.filter (·.last max)).map Answer.block) + totalSends blocks
  answered : sent.length = answers.length + (openBlocks blocks).length
  limit : ∀ a ∈ answers, a.block.transmissions.toNat ≤ max.toNat

namespace Ledger

variable {max : UInt8} {blocks blocks' : List Block} {sent more : List Assignment}
  {answers : List Answer}

theorem start (max : UInt8) : Ledger max [] [] [] :=
  ⟨.refl _, rfl, rfl, fun a ha => by cases ha⟩

theorem grow (h : Ledger max blocks sent answers) (hgrows : Grows blocks blocks' more) :
    Ledger max blocks' (sent ++ more) answers where
  started := by
    rw [List.filter_append, List.map_append]
    refine ((h.started.append_right _).trans ?_).trans (hgrows.started.symm.append_left _)
    rw [List.append_assoc]
    exact List.perm_append_comm.append_left _
  sends := by
    rw [List.length_append, hgrows.sends, h.sends]
    omega
  answered := by
    rw [List.length_append, hgrows.waiting, h.answered]
    omega
  limit := h.limit

theorem answer (h : Ledger max blocks sent answers) {x : Answer} {rest : List Block}
    (hblocks : blocks.Perm (x.block :: rest)) (hlost : x.block.lost = false)
    (hlimit : x.block.transmissions.toNat ≤ max.toNat)
    (hafter : blocks'.Perm (if x.last max then rest else { x.block with lost := true } :: rest)) :
    Ledger max blocks' sent (answers ++ [x]) := by
  have hsends := totalSends_of_perm hblocks
  rw [totalSends_cons] at hsends
  have hwaiting := length_openBlocks_of_perm hblocks
  rw [openBlocks_cons, if_neg (by simp [hlost]), List.length_cons] at hwaiting
  have hstarted := h.started.trans ((hblocks.map (·.assignment.common)).append_left _)
  have hlimits : ∀ a ∈ answers ++ [x], a.block.transmissions.toNat ≤ max.toNat := by
    intro a ha
    rcases List.mem_append.mp ha with ha | ha
    · exact h.limit a ha
    · rw [List.mem_singleton.mp ha]
      exact hlimit
  have hlength := h.answered
  have hsent := h.sends
  by_cases hlast : x.last max = true
  · rw [if_pos hlast] at hafter
    have hdone : (answers ++ [x]).filter (·.last max) = answers.filter (·.last max) ++ [x] := by
      simp [List.filter_append, hlast]
    refine ⟨?_, ?_, ?_, hlimits⟩
    · rw [hdone, List.map_append, List.append_assoc]
      exact hstarted.trans (((hafter.map (·.assignment.common)).symm.cons _).append_left _)
    · rw [hdone, List.map_append, totalSends_append, totalSends_of_perm hafter, List.map_singleton,
        totalSends_cons, totalSends_nil]
      omega
    · rw [length_openBlocks_of_perm hafter, List.length_append, List.length_singleton]
      omega
  · rw [if_neg hlast] at hafter
    have hdone : (answers ++ [x]).filter (·.last max) = answers.filter (·.last max) := by
      simp [List.filter_append, hlast]
    refine ⟨?_, ?_, ?_, hlimits⟩
    · rw [hdone]
      exact hstarted.trans ((hafter.map (·.assignment.common)).symm.append_left _)
    · rw [hdone, totalSends_of_perm hafter, totalSends_cons]
      simp only
      omega
    · rw [length_openBlocks_of_perm hafter, openBlocks_cons, if_pos rfl, List.length_append,
        List.length_singleton]
      omega

end Ledger

namespace LinkState

variable {config : CellConfig} {r : Rnti} {d : Direction} {beam : BeamId} {s s' : LinkState}
  {sent : List Assignment}

theorem Resent.grows (h : s.Resent beam s' sent) :
    Grows s.inFlight.values s'.inFlight.values sent := by
  obtain ⟨E, rfl, hE⟩ := h.blocks
  have hall := Table.forall₂_of_get? (Q := fun id b b' => Block.Again beam b b' (E id)) hE
  unfold Table.values Table.keys
  generalize s.inFlight.entries = l at hall
  generalize s'.inFlight.entries = l' at hall
  induction hall with
  | nil => exact .refl []
  | @cons e e' l l' he _ ih => exact (Grows.of_again he.2).append ih

theorem Opened.grows (hs : s.Sound config r d) {a : Assignment} (h : s.Opened r beam d s' a) :
    Grows s.inFlight.values s'.inFlight.values [a] := by
  have hnone : s.inFlight.get? a.process = none := by
    obtain ⟨-, hheld, -⟩ := h.held hs
    by_contra hsome
    obtain ⟨b, hb⟩ := Option.ne_none_iff_exists'.mp hsome
    obtain ⟨pdus, hpdus⟩ := held?_of_block hs hb
    rw [hheld] at hpdus
    cases hpdus
  have hvalues := Table.values_insert_perm s.inFlight a.process ⟨a, 1, false⟩
  rw [Table.erase_of_get?_none hnone] at hvalues
  rw [h.inFlight]
  simpa using (Grows.of_new h.newData s.inFlight.values).trans (.of_perm hvalues.symm)

theorem Turn.grows (hs : s.Sound config r d) (h : s.Turn r beam d s' sent) :
    Grows s.inFlight.values s'.inFlight.values sent := by
  obtain ⟨s₁, again, new, hresent, rfl, ⟨halike, rfl⟩ | ⟨a, hopened, rfl⟩⟩ := h
  · rw [halike.inFlight, List.append_nil]
    exact hresent.grows
  · exact hresent.grows.trans (hopened.grows (hresent.sound hs))

end LinkState

def User.blocks (u : User) : List Block := u.downlink.inFlight.values ++ u.uplink.inFlight.values

theorem User.blocks_perm (u : User) (d : Direction) : ∃ others,
    u.blocks.Perm ((u.link d).inFlight.values ++ others) ∧
      ∀ s, (u.setLink d s).blocks.Perm (s.inFlight.values ++ others) := by
  cases d with
  | downlink => exact ⟨u.uplink.inFlight.values, .refl _, fun s => .refl _⟩
  | uplink =>
    exact ⟨u.downlink.inFlight.values, List.perm_append_comm, fun s => List.perm_append_comm⟩

namespace Cell

variable {c c' : Cell}

def inFlightOf (c : Cell) (r : Rnti) (d : Direction) : Table ProcessId Block :=
  ((c.user? r).map fun u => (u.link d).inFlight).getD ∅

theorem get?_inFlightOf (c : Cell) (r : Rnti) (d : Direction) (id : ProcessId) :
    (c.inFlightOf r d).get? id = c.block? ⟨r, d, id⟩ := by
  rw [inFlightOf, block?]
  cases c.user? r with
  | none => rfl
  | some u => rfl

def blocksOf (c : Cell) (r : Rnti) : List Block :=
  (c.inFlightOf r .downlink).values ++ (c.inFlightOf r .uplink).values

theorem blocksOf_of_user {r : Rnti} {u : User} (h : c.user? r = some u) :
    c.blocksOf r = u.blocks := by
  rw [blocksOf, inFlightOf, inFlightOf, h]
  rfl

theorem blocksOf_of_none {r : Rnti} (h : c.user? r = none) : c.blocksOf r = [] := by
  rw [blocksOf, inFlightOf, inFlightOf, h]
  rfl

theorem blocksOf_congr (h : ∀ p, c'.block? p = c.block? p) (r : Rnti) :
    c'.blocksOf r = c.blocksOf r := by
  have hsame : ∀ d, c'.inFlightOf r d = c.inFlightOf r d := fun d => Table.ext_get? fun id => by
    rw [get?_inFlightOf, get?_inFlightOf, h]
  rw [blocksOf, blocksOf, hsame, hsame]

theorem blocksOf_put (c : Cell) (u : User) (r : Rnti) :
    (c.put u).blocksOf r = if r = u.rnti then u.blocks else c.blocksOf r := by
  rw [blocksOf, inFlightOf, inFlightOf, user?_put]
  split
  · rfl
  · rfl

theorem Sound.grows_of_slot (hc : c.Sound) {time : SlotTime} {slot : SlotAllocation}
    (h : c.scheduleSlot time = .ok (c', slot)) (r : Rnti) :
    Grows (c.blocksOf r) (c'.blocksOf r) ((slot.downlink ++ slot.uplink).filter (·.rnti = r)) := by
  rcases scheduleSlot_user hc h r with ⟨hnone, hnone', hempty⟩ | ⟨u, u', hu, hu', -, hturn⟩
  · have hdown := hempty .downlink
    have hup := hempty .uplink
    simp only [SlotAllocation.assignments] at hdown hup
    rw [blocksOf_of_none hnone, blocksOf_of_none hnone', List.filter_append, hdown, hup]
    exact .refl []
  · have hgrows := fun d => (hturn d).grows ((hc.user r u hu).2 d)
    rw [blocksOf_of_user hu, blocksOf_of_user hu', List.filter_append]
    exact (hgrows .downlink).append (hgrows .uplink)

/-- Feedback is for a block that waits for it, if it is first in the list of what is due. It takes the
block off, or marks it as lost. -/
theorem Sound.answered (hc : c.Sound) {f : Feedback} {due : List ProcessRef}
    (h : c.Matches (f.ref :: due)) : ∃ b rest, c.block? f.ref = some b ∧ b.lost = false ∧
      b.transmissions.toNat ≤ c.config.maxTransmissions.toNat ∧
      (c.blocksOf f.rnti).Perm (b :: rest) ∧
      ((c.feedback f).1.blocksOf f.rnti).Perm
        (if Answer.last c.config.maxTransmissions ⟨f, b⟩ then rest
          else { b with lost := true } :: rest) ∧
      ∀ r, r ≠ f.rnti → (c.feedback f).1.blocksOf r = c.blocksOf r := by
  obtain ⟨b, hb⟩ := Option.isSome_iff_exists.mp (h.named f.ref List.mem_cons_self)
  have hlost : b.lost = false := by
    have hcount := h.block f.ref b hb
    rw [List.count_cons_self] at hcount
    cases hlost : b.lost with
    | false => rfl
    | true =>
      rw [hlost] at hcount
      cases hcount
  obtain ⟨u, hu, hget⟩ := Option.bind_eq_some_iff.mp hb
  have hu : c.user? f.rnti = some u := hu
  have hget : (u.link f.direction).inFlight.get? f.process = some b := hget
  have hlimit := (((hc.user f.rnti u hu).2 f.direction).block f.process b hget).1.limit
  obtain ⟨others, hblocks, hset⟩ := u.blocks_perm f.direction
  rcases feedback_cases c f with ⟨hnone, -⟩ | ⟨u', s, hu', hput, hanswered⟩
  · rw [hu] at hnone
    cases hnone
  obtain rfl : u = u' := Option.some.inj (hu.symm.trans hu')
  have hmine : (c.feedback f).1.blocksOf f.rnti = (u.setLink f.direction s).blocks := by
    rw [hput, blocksOf_put, User.rnti_setLink, hc.user_rnti hu, if_pos rfl]
  refine ⟨b, ((u.link f.direction).inFlight.erase f.process).values ++ others, hb, hlost, hlimit,
    ?_, ?_, fun r hr => ?_⟩
  · rw [blocksOf_of_user hu]
    exact hblocks.trans ((Table.values_perm hget).append_right others)
  · rw [hmine]
    refine (hset s).trans ?_
    rcases hanswered with ⟨b', hb', hfailed, hretry, rfl⟩ | ⟨hdone, harq, rfl, -⟩
    · obtain rfl : b = b' := Option.some.inj (hget.symm.trans hb')
      have hagain : ¬ Answer.last c.config.maxTransmissions ⟨f, b⟩ = true := by
        simpa [Answer.last, hfailed, UInt8.le_iff_toNat_le] using hretry
      rw [if_neg hagain]
      exact (Table.values_insert_perm _ f.process _).append_right others
    · have hlast : Answer.last c.config.maxTransmissions ⟨f, b⟩ = true := by
        simpa [Answer.last, UInt8.le_iff_toNat_le] using hdone b hget
      rw [if_pos hlast]
  · rw [hput, blocksOf_put, User.rnti_setLink, hc.user_rnti hu, if_neg hr]

/-- The answers that feedback gives, delivered one after the other. Feedback for no block on its way
is none. -/
def answers (c : Cell) : List Feedback → List Answer
  | [] => []
  | f :: fs => ((c.block? f.ref).map (⟨f, ·⟩)).toList ++ (c.feedback f).1.answers fs

def Sizes (c : Cell) (due : List (ProcessRef × UInt32)) : Prop :=
  ∀ e ∈ due, ∀ b, c.block? e.1 = some b → b.assignment.blockSize = e.2

theorem Sound.sizes_feedback (hc : c.Sound) {f : Feedback} {size : UInt32}
    {due : List (ProcessRef × UInt32)} (hm : c.Matches (f.ref :: due.map Prod.fst))
    (h : c.Sizes ((f.ref, size) :: due)) : (c.feedback f).1.Sizes due := by
  intro e he b hb
  refine h e (List.mem_cons_of_mem _ he) b ?_
  have hne : f.ref ≠ e.1 := by
    intro heq
    obtain ⟨b₀, hb₀⟩ := Option.isSome_iff_exists.mp (hm.named f.ref List.mem_cons_self)
    have hcount := hm.block f.ref b₀ hb₀
    have hpos := List.count_pos_iff.mpr (heq ▸ List.mem_map_of_mem he : f.ref ∈ due.map Prod.fst)
    rw [List.count_cons_self] at hcount
    split at hcount <;> omega
  rw [(hc.feedback f).block?_eq, hc.held?_feedback, if_neg] at hb
  · rwa [hc.block?_eq]
  · rintro ⟨hr, hd, hid⟩
    exact hne (by rw [Feedback.ref, hr, hd, hid])

/-- What a slot sends over a process is the last transmission of the block on its way there. -/
theorem Sound.sizes_of_slot (hc : c.Sound) {time : SlotTime} {slot : SlotAllocation}
    (h : c.scheduleSlot time = .ok (c', slot)) :
    c'.Sizes ((slot.downlink ++ slot.uplink).map fun a => (a.ref, a.blockSize)) := by
  intro e he b hb
  obtain ⟨a, ha, rfl⟩ := List.mem_map.mp he
  have hslot : ∃ d, a ∈ slot.assignments d := by
    rcases List.mem_append.mp ha with ha | ha
    · exact ⟨.downlink, ha⟩
    · exact ⟨.uplink, ha⟩
  obtain ⟨d, ha⟩ := hslot
  have hd := hc.direction_of_slot h ha
  have hsent : a ∈ Event.sent ⟨c, .slot time, some slot, c'⟩ a.ref := by
    refine List.mem_filter.mpr ⟨?_, by simp [Assignment.ref]⟩
    rw [Assignment.ref, hd]
    exact ha
  rw [(hc.scheduleSlot h).block?_eq] at hb
  have heffect := hc.effect_slot h a.ref
  generalize c.held? a.ref = before at heffect
  generalize c'.held? a.ref = after at heffect hb
  cases heffect with
  | kept silent stays sent | stray sent | removed leaves sent =>
    rw [sent] at hsent
    cases hsent
  | lost report => cases report
  | released report => cases report
  | again silent stays lost count sent | opened free new first sent =>
    rw [sent, List.mem_singleton] at hsent
    cases hb
    rw [hsent]

end Cell

end Airtime
