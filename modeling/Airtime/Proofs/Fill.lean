import Airtime.Proofs.Channel

/-! Filling a transport block. No byte is lost or counted twice on the way (`Filling.Balanced`), the
rounds stop only when the block is full or nothing waits (`loop_of_run`), and in the end each channel
is as one drain of its share would leave it (`drawn_of_balanced`). -/

namespace Airtime.Groups

theorem mem_backlogged {gs : Groups} (hn : gs.Keyed) {active : List (GroupId × ChannelId)}
    (h : gs.backlogged = .ok active) (who : GroupId × ChannelId) :
    who ∈ active ↔ ∃ c, gs.channel? who = some c ∧ c.bytes ≠ 0 := by
  unfold backlogged at h
  obtain ⟨perGroup, hper, h⟩ := bind_ok_iff.mp h
  cases pure_ok_iff.mp h
  rw [List.mem_flatten]
  constructor
  · rintro ⟨l, hl, hwho⟩
    obtain ⟨g, hg, hl⟩ := (mem_mapM_ok hper).mp hl
    simp only [bind_ok_iff, pure_ok_iff] at hl
    obtain ⟨totals, htotals, rfl⟩ := hl
    obtain ⟨⟨ch, n⟩, ht, rfl⟩ := List.mem_map.mp hwho
    obtain ⟨ht, hpos⟩ := List.mem_filter.mp ht
    obtain ⟨c, hc, ht⟩ := (mem_mapM_ok htotals).mp ht
    simp only [bind_ok_iff, pure_ok_iff, Prod.mk.injEq] at ht
    obtain ⟨m, hm, rfl, rfl⟩ := ht
    obtain ⟨k, hk⟩ := Table.mem_values.mp hg
    obtain ⟨ch, hch⟩ := Table.mem_values.mp hc
    have hc' : gs.channel? (k, ch) = some c := by simp [channel?, hk, hch]
    rw [hn.group_id k g hk, hn.channel_id _ c hc']
    refine ⟨c, hc', ?_⟩
    intro h0
    rw [← Channel.total_ok_iff.mp hm] at h0
    simp [UInt32.toNat_inj.mp (h0.trans UInt32.toNat_zero.symm)] at hpos
  · rintro ⟨c, hc, hbytes⟩
    obtain ⟨g, hg, hch⟩ := channel?_some_iff.mp hc
    obtain ⟨l, hl, hgl⟩ := exists_of_mapM_ok hper (Table.mem_values.mpr ⟨_, hg⟩)
    refine ⟨l, hl, ?_⟩
    simp only [bind_ok_iff, pure_ok_iff] at hgl
    obtain ⟨totals, htotals, rfl⟩ := hgl
    obtain ⟨t, ht, hct⟩ := exists_of_mapM_ok htotals (Table.mem_values.mpr ⟨_, hch⟩)
    simp only [bind_ok_iff, pure_ok_iff] at hct
    obtain ⟨n, hct, rfl⟩ := hct
    refine List.mem_map.mpr ⟨_, List.mem_filter.mpr ⟨ht, ?_⟩, ?_⟩
    · rw [Channel.total_ok_iff] at hct
      simp only [ne_eq, decide_not, Bool.not_eq_true', decide_eq_false_iff_not]
      rintro rfl
      exact hbytes (hct.symm.trans UInt32.toNat_zero)
    · rw [hn.group_id _ g hg, hn.channel_id _ c hc]

theorem backlogged_sublist {gs : Groups} (hn : gs.Keyed) {active : List (GroupId × ChannelId)}
    (h : gs.backlogged = .ok active) : active.Sublist gs.places := by
  unfold backlogged at h
  obtain ⟨perGroup, hper, h⟩ := bind_ok_iff.mp h
  cases pure_ok_iff.mp h
  have hparts := mapM_ok_iff.mp hper
  rw [Table.values, List.forall₂_map_left_iff] at hparts
  refine sublist_flatMap (((List.forall₂_and_left _ _).mpr ⟨fun e he => he, hparts⟩).imp ?_)
  rintro ⟨k, g⟩ part ⟨he, hpart⟩
  simp only [bind_ok_iff, pure_ok_iff] at hpart
  obtain ⟨totals, htotals, rfl⟩ := hpart
  have hg := Table.mem_entries.mp he
  have hids : totals.map Prod.fst = g.channels.keys := by
    have hread := mapM_ok_iff.mp htotals
    rw [Table.values, List.forall₂_map_left_iff] at hread
    refine map_eq_of_forall₂ ((List.forall₂_and_left _ _).mpr ⟨fun e he => he, hread⟩) ?_
    rintro ⟨ch, c⟩ t ⟨hc, ht⟩
    simp only [bind_ok_iff, pure_ok_iff] at ht
    obtain ⟨_, -, rfl⟩ := ht
    exact hn.channel_id (k, ch) c (channel?_some_iff.mpr ⟨g, hg, Table.mem_entries.mp hc⟩)
  rw [hn.group_id k g hg, ← hids, List.map_map]
  exact List.filter_sublist.map _

theorem pairwise_backlogged {gs : Groups} (hn : gs.Keyed) {active : List (GroupId × ChannelId)}
    (h : gs.backlogged = .ok active) : active.Pairwise Before :=
  gs.pairwise_places.sublist (backlogged_sublist hn h)

namespace Filling

def share (f : Filling) (who : GroupId × ChannelId) : UInt32 := (f.given.get? who).getD 0

/-- A block of `bytes` bytes on its way to being filled from `gs`. -/
structure Balanced (gs : Groups) (bytes : UInt32) (f : Filling) : Prop where
  drained : ∀ who, f.groups.channel? who = (gs.channel? who).map fun c => (c.drain (f.share who)).1
  named : ∀ k, (f.groups.get? k).map Group.id = (gs.get? k).map Group.id
  covered : ∀ who n, f.given.get? who = some n → ∃ c, gs.channel? who = some c ∧ n.toNat ≤ c.bytes
  full : f.left.toNat + f.given.sumOf UInt32.toNat = bytes.toNat
  conserved : f.groups.bytes + f.given.sumOf UInt32.toNat = gs.bytes

theorem balanced_start (gs : Groups) (bytes : UInt32) : Balanced gs bytes ⟨gs, bytes, ∅⟩ where
  drained who := by
    have hshare : share ⟨gs, bytes, ∅⟩ who = 0 := rfl
    simp only [hshare, Channel.drain_zero, Option.map_id_fun', id_eq]
  named k := rfl
  covered who n h := by cases h
  full := rfl
  conserved := rfl

section Serve

variable {gs : Groups} {bytes share : UInt32} {f f' : Filling} {who : GroupId × ChannelId}

/-- One channel is served: nothing happens, or it is drained of what fits and its share grows by
what was taken. -/
theorem serve_cases (h : f.serve share who = .ok f') :
    f' = f ∧ (f.left = 0 ∨ f.groups.channel? who = none) ∨
    ∃ g c given, f.left ≠ 0 ∧ f.groups.get? who.1 = some g ∧ g.channels.get? who.2 = some c ∧
      given.toNat = (f.share who).toNat + (c.drain (min share f.left)).2.toNat ∧
      f' = ⟨f.groups.insert who.1
          { g with channels := g.channels.insert who.2 (c.drain (min share f.left)).1 },
        f.left - (c.drain (min share f.left)).2, f.given.insert who given⟩ := by
  unfold serve at h
  split at h
  · next h0 => exact .inl ⟨(Except.ok.inj h).symm, .inl h0⟩
  · next h0 =>
    split at h
    · next hg => exact .inl ⟨(Except.ok.inj h).symm, .inr (by simp [channel?, hg])⟩
    · next g hg =>
      split at h
      · next hc => exact .inl ⟨(Except.ok.inj h).symm, .inr (by simp [channel?, hg, hc])⟩
      · next c hc =>
        simp only [Channel.consume_eq, bind_ok_iff, Except.ok.injEq, exists_eq_left',
          Word.sub_ok_iff, Word.add_eq_ok, Word.toNat_uint32, pure_ok_iff] at h
        obtain ⟨left, ⟨-, rfl⟩, given, hgiven, rfl⟩ := h
        exact .inr ⟨g, c, given, h0, hg, hc, hgiven, rfl⟩

theorem toNat_left_sub (c : Channel) (share left : UInt32) :
    (left - (c.drain (min share left)).2).toNat =
      left.toNat - min (min share.toNat left.toNat) c.bytes := by
  have hm := Word.toNat_min share left
  have ht := Channel.toNat_drained c (min share left)
  rw [UInt32.toNat_sub_of_le _ _ (UInt32.le_iff_toNat_le.mpr (by omega)), ht, hm]

theorem share_insert (f : Filling) (groups : Groups) (left given : UInt32)
    (who who' : GroupId × ChannelId) :
    Filling.share ⟨groups, left, f.given.insert who given⟩ who' =
      if who' = who then given else f.share who' := by
  simp only [Filling.share, Table.get?_insert_if]
  split <;> rfl

theorem Balanced.start {c : Channel} (hb : Balanced gs bytes f)
    (hc : f.groups.channel? who = some c) :
    ∃ c₀, gs.channel? who = some c₀ ∧ (c₀.drain (f.share who)).1 = c ∧
      (f.share who).toNat + c.bytes = c₀.bytes := by
  have hd := hb.drained who
  rw [hc] at hd
  obtain ⟨c₀, hc₀, rfl⟩ := Option.map_eq_some_iff.mp hd.symm
  refine ⟨c₀, hc₀, rfl, ?_⟩
  have hle : (f.share who).toNat ≤ c₀.bytes := by
    unfold Filling.share
    cases hn : f.given.get? who with
    | none => simp
    | some n =>
      obtain ⟨c₁, hc₁, hle⟩ := hb.covered who n hn
      rw [hc₀] at hc₁
      cases hc₁
      exact hle
  rw [Channel.bytes_drain]
  omega

theorem sumOf_given_insert (f : Filling) (who : GroupId × ChannelId) (given : UInt32) :
    (f.given.insert who given).sumOf UInt32.toNat + (f.share who).toNat =
      f.given.sumOf UInt32.toNat + given.toNat := by
  have hsum := Table.sumOf_insert UInt32.toNat f.given who given
  unfold Filling.share
  cases hn : f.given.get? who <;> simpa [hn] using hsum

theorem balanced_serve (hb : Balanced gs bytes f) (h : f.serve share who = .ok f') :
    Balanced gs bytes f' := by
  rcases serve_cases h with ⟨rfl, -⟩ | ⟨g, c, given, h0, hg, hc, hgiven, rfl⟩
  · exact hb
  have htaken := Channel.toNat_drained c (min share f.left)
  have hmin := Word.toNat_min share f.left
  have hch : f.groups.channel? who = some c := by simp [channel?, hg, hc]
  obtain ⟨c₀, hc₀, hcc₀, hbytes₀⟩ := hb.start hch
  have hsum := sumOf_given_insert f who given
  refine ⟨fun who' => ?_, fun k => ?_, fun who' n hn => ?_, ?_, ?_⟩
  · rw [share_insert, channel?_insert hg]
    by_cases hw : who' = who
    · subst hw
      simp only [if_true, hc₀, Option.map_some, Option.some.injEq]
      rw [← Channel.drain_drained c, ← Channel.drain_drain c₀ hgiven, hcc₀]
    · simp only [if_neg hw]
      exact hb.drained who'
  · simp only [Table.get?_insert_if]
    split
    · next hk =>
      subst hk
      rw [← hb.named, hg]
      rfl
    · exact hb.named k
  · rw [Table.get?_insert_if] at hn
    split at hn
    · next hw =>
      subst hw
      cases hn
      exact ⟨c₀, hc₀, by omega⟩
    · exact hb.covered who' n hn
  · have := hb.full
    rw [toNat_left_sub]
    simp only
    omega
  · have := hb.conserved
    have hbytes := bytes_insert hg hc (c.drain (min share f.left)).1
    rw [Channel.bytes_drain] at hbytes
    simp only
    omega

theorem left_serve_le (h : f.serve share who = .ok f') : f'.left.toNat ≤ f.left.toNat := by
  rcases serve_cases h with ⟨rfl, -⟩ | ⟨g, c, given, h0, hg, hc, hgiven, rfl⟩
  · exact le_rfl
  · rw [toNat_left_sub]
    omega

theorem left_serve_lt {c : Channel} (h : f.serve share who = .ok f') (h0 : f.left ≠ 0)
    (hshare : share ≠ 0) (hc : f.groups.channel? who = some c) (hbytes : c.bytes ≠ 0) :
    f'.left.toNat < f.left.toNat := by
  rcases serve_cases h with ⟨-, h1 | h1⟩ | ⟨g, c', given, -, hg, hc', -, rfl⟩
  · exact absurd h1 h0
  · rw [hc] at h1
    cases h1
  · have hcc : c = c' := by
      rw [channel?, hg, Option.bind_some, hc'] at hc
      exact (Option.some.inj hc).symm
    have hl := Word.toNat_pos h0
    have hs := Word.toNat_pos hshare
    rw [toNat_left_sub, ← hcc]
    omega

end Serve

section Run

variable {gs : Groups} {bytes : UInt32} {f f' : Filling}

theorem Balanced.isSome_channel? (hb : Balanced gs bytes f) (who : GroupId × ChannelId) :
    (f.groups.channel? who).isSome = (gs.channel? who).isSome := by
  rw [hb.drained, Option.isSome_map]

theorem Balanced.keyed (hb : Balanced gs bytes f) (hn : gs.Keyed) : f.groups.Keyed where
  group_id k g hg := by
    have hnamed := hb.named k
    rw [hg] at hnamed
    obtain ⟨g₀, hg₀, hid⟩ := Option.map_eq_some_iff.mp hnamed.symm
    rw [← hid, hn.group_id k g₀ hg₀]
  channel_id who c hc := by
    obtain ⟨c₀, hc₀, rfl, -⟩ := hb.start hc
    exact hn.channel_id who c₀ hc₀

theorem Balanced.wellFormed (hb : Balanced gs bytes f) (wf : gs.WellFormed) :
    f.groups.WellFormed where
  group_id := (hb.keyed wf.keyed).group_id
  channel_id who c hc := by
    obtain ⟨c₀, hc₀, rfl, -⟩ := hb.start hc
    exact wf.channel_id who c₀ hc₀
  once who who' h h' := by
    rw [hb.isSome_channel?] at h h'
    exact wf.once who who' h h'

theorem max_one_ne_zero (n : UInt32) : max n 1 ≠ 0 := by
  intro h
  have hmax := congrArg UInt32.toNat h
  rw [Word.toNat_max, UInt32.toNat_one, UInt32.toNat_zero] at hmax
  omega

theorem round_cases (h : f.round = .ok f') :
    ∃ active, f.groups.backlogged = .ok active ∧ (active = [] ∧ f' = f ∨ active ≠ [] ∧
      ∃ n, Word.div f.left (UInt32.ofNat active.length) = .ok n ∧
        active.foldlM (serve (max n 1)) f = .ok f') := by
  unfold round at h
  obtain ⟨active, hactive, h⟩ := bind_ok_iff.mp h
  refine ⟨active, hactive, ?_⟩
  split at h
  · next hnone => exact .inl ⟨List.isEmpty_iff.mp hnone, (pure_ok_iff.mp h).symm⟩
  · next hsome =>
    obtain ⟨n, hn, h⟩ := bind_ok_iff.mp h
    exact .inr ⟨fun hnone => hsome (List.isEmpty_iff.mpr hnone), n, hn, h⟩

theorem round_ok (hb : Balanced gs bytes f) (hn : gs.Keyed) (h : f.round = .ok f') :
    Balanced gs bytes f' ∧ f'.left.toNat ≤ f.left.toNat ∧
      (f.left ≠ 0 → f.groups.bytes ≠ 0 → f'.left.toNat < f.left.toNat) := by
  obtain ⟨active, hactive, h⟩ := round_cases h
  have hmem := mem_backlogged (hb.keyed hn) hactive
  rcases h with ⟨rfl, rfl⟩ | ⟨hsome, n, -, h⟩
  · refine ⟨hb, le_rfl, fun _ hne => absurd (bytes_eq_zero_iff.mpr fun who c hc => ?_) hne⟩
    by_contra hbytes
    exact List.not_mem_nil ((hmem who).mpr ⟨c, hc, hbytes⟩)
  · obtain ⟨who, rest, rfl⟩ := List.exists_cons_of_ne_nil hsome
    rw [List.foldlM_cons] at h
    obtain ⟨f₁, h₁, h⟩ := bind_ok_iff.mp h
    have hkeep := foldlM_keeps (I := fun f₂ => Balanced gs bytes f₂ ∧ f₂.left.toNat ≤ f₁.left.toNat)
      h ⟨balanced_serve hb h₁, le_rfl⟩ fun f₂ w f₃ _ hf hs =>
        ⟨balanced_serve hf.1 hs, (left_serve_le hs).trans hf.2⟩
    refine ⟨hkeep.1, hkeep.2.trans (left_serve_le h₁), ?_⟩
    intro h0 _
    obtain ⟨c, hc, hbytes⟩ := (hmem who).mp (by simp)
    exact hkeep.2.trans_lt (left_serve_lt h₁ h0 (max_one_ne_zero _) hc hbytes)

/-- A number of rounds, each while there are bytes left in the block and channels with data, until there
are none of the one or of the other. -/
inductive Loop : Nat → Filling → Filling → Prop
  | full {f : Filling} (h : f.left = 0) : Loop 0 f f
  | idle {f : Filling} (h : f.groups.backlogged = .ok []) : Loop 0 f f
  | more {n : Nat} {f f₁ f' : Filling} {active : List (GroupId × ChannelId)} (hleft : f.left ≠ 0)
      (hactive : f.groups.backlogged = .ok active) (hsome : active ≠ []) (first : f.round = .ok f₁)
      (rest : Loop n f₁ f') : Loop (n + 1) f f'

/-- What a round keeps the loop keeps. It ends when the block is full or nothing waits. -/
theorem Loop.keeps {n : Nat} {I : Filling → Prop} (h : Loop n f f') (hI : I f)
    (step : ∀ f f', I f → f.left ≠ 0 → f.round = .ok f' → I f') :
    I f' ∧ (f'.left = 0 ∨ f'.groups.backlogged = .ok []) := by
  induction h with
  | full h => exact ⟨hI, .inl h⟩
  | idle h => exact ⟨hI, .inr h⟩
  | more hleft _ _ first _ ih => exact ih (step _ _ hI hleft first)

/-- To stop when a round gives nothing is to stop when the block is full or nothing waits, since each
round before that gives a byte at least. -/
theorem loop_of_run (hb : Balanced gs bytes f) (hn : gs.Keyed) (h : f.run = .ok f') :
    ∃ n, Loop n f f' ∧ n + f'.left.toNat ≤ f.left.toNat := by
  induction f using Filling.run.induct with
  | case1 f h0 =>
    rw [run, if_pos h0] at h
    cases h
    exact ⟨0, .full h0, (Nat.zero_add _).le⟩
  | case2 f h0 e he =>
    rw [run, if_neg h0, he] at h
    cases h
  | case3 f h0 f₁ h₁ hlt ih =>
    rw [run, if_neg h0, h₁] at h
    simp only [if_pos hlt] at h
    rw [UInt32.lt_iff_toNat_lt] at hlt
    obtain ⟨active, hactive, ⟨-, rfl⟩ | ⟨hsome, -⟩⟩ := round_cases h₁
    · exact absurd hlt (Nat.lt_irrefl _)
    · obtain ⟨n, hloop, hle⟩ := ih (round_ok hb hn h₁).1 h
      exact ⟨n + 1, .more h0 hactive hsome h₁ hloop, by omega⟩
  | case4 f h0 f₁ h₁ hlt =>
    rw [run, if_neg h0, h₁] at h
    simp only [if_neg hlt, Except.ok.injEq] at h
    subst h
    rw [UInt32.lt_iff_toNat_lt] at hlt
    obtain ⟨active, hactive, ⟨rfl, rfl⟩ | ⟨hsome, -⟩⟩ := round_cases h₁
    · exact ⟨0, .idle hactive, (Nat.zero_add _).le⟩
    · obtain ⟨who, hwho⟩ := List.exists_mem_of_ne_nil active hsome
      obtain ⟨c, hc, hbytes⟩ := (mem_backlogged (hb.keyed hn) hactive who).mp hwho
      refine absurd ((round_ok hb hn h₁).2.2 h0 fun hnone => ?_) hlt
      exact hbytes (bytes_eq_zero_iff.mp hnone who c hc)

theorem run_ends (hb : Balanced gs bytes f) (hn : gs.Keyed) (h : f.run = .ok f') :
    Balanced gs bytes f' ∧ (f'.left = 0 ∨ f'.groups.bytes = 0) := by
  obtain ⟨_, hloop, -⟩ := loop_of_run hb hn h
  obtain ⟨hb', hend⟩ := hloop.keeps (I := Balanced gs bytes) hb fun _ _ hb _ hr => (round_ok hb hn hr).1
  refine ⟨hb', hend.imp_right fun hidle => bytes_eq_zero_iff.mpr fun who c hc => ?_⟩
  by_contra hbytes
  exact List.not_mem_nil ((mem_backlogged (hb'.keyed hn) hidle who).mpr ⟨c, hc, hbytes⟩)

end Run

end Filling

def source (p : Pdu) : GroupId × ChannelId := (p.group, p.channel)

/-- The part of a block for a share, if there is one. -/
def part : (GroupId × ChannelId) × UInt32 → Option Pdu
  | ((group, channel), size) => if size = 0 then none else some { group, channel, size }

theorem part_eq_some_iff {who : GroupId × ChannelId} {n : UInt32} {p : Pdu} :
    part (who, n) = some p ↔ source p = who ∧ p.size = n ∧ n ≠ 0 := by
  obtain ⟨k, ch⟩ := who
  obtain ⟨k', ch', n'⟩ := p
  simp only [part, source]
  split
  · next h => simp [h]
  · next h =>
    simp only [Option.some.injEq, Pdu.mk.injEq, Prod.mk.injEq]
    grind

theorem fill_ok_iff {gs gs' : Groups} {bytes : UInt32} {pdus : List Pdu} :
    gs.fill bytes = .ok (pdus, gs') ↔ ∃ f, Filling.run ⟨gs, bytes, ∅⟩ = .ok f ∧
      f.given.entries.filterMap part = pdus ∧ f.groups = gs' := by
  unfold fill
  simp only [bind_ok_iff, pure_ok_iff, Prod.mk.injEq]
  rfl

theorem sum_parts (l : List ((GroupId × ChannelId) × UInt32)) :
    ((l.filterMap part).map fun p => p.size.toNat).sum = (l.map fun e => e.2.toNat).sum := by
  induction l with
  | nil => rfl
  | cons e l ih =>
    obtain ⟨⟨k, ch⟩, n⟩ := e
    by_cases hn : n = 0
    · simp [part, hn, ih]
    · simp [part, hn, ih]

theorem sources_sublist (l : List ((GroupId × ChannelId) × UInt32)) :
    ((l.filterMap part).map source).Sublist (l.map Prod.fst) := by
  induction l with
  | nil => exact .slnil
  | cons e l ih =>
    obtain ⟨⟨k, ch⟩, n⟩ := e
    by_cases hn : n = 0
    · simpa [part, hn] using ih.cons _
    · simpa [part, hn, source] using ih

/-- A block of `bytes` bytes drawn from `gs`, which leaves `gs'`. -/
structure Drawn (gs : Groups) (bytes : UInt32) (pdus : List Pdu) (gs' : Groups) : Prop where
  sorted : (pdus.map source).Pairwise Before
  size_ne : ∀ p ∈ pdus, p.size ≠ 0
  sum : (pdus.map fun p => p.size.toNat).sum = min bytes.toNat gs.bytes
  /-- A channel ends as if it had been asked once for what it gave. -/
  consumed : ∀ p ∈ pdus, ∃ c c', gs.channel? (source p) = some c ∧
    c.consume p.size = .ok (c', p.size) ∧ gs'.channel? (source p) = some c'
  spared : ∀ who, who ∉ pdus.map source → gs'.channel? who = gs.channel? who
  named : ∀ k, (gs'.get? k).map Group.id = (gs.get? k).map Group.id
  bytes_left : gs'.bytes = gs.bytes - min bytes.toNat gs.bytes

theorem mem_parts {given : Table (GroupId × ChannelId) UInt32} {p : Pdu} :
    p ∈ given.entries.filterMap part ↔ given.get? (source p) = some p.size ∧ p.size ≠ 0 := by
  simp only [List.mem_filterMap, Prod.exists, part_eq_some_iff, ← Table.mem_entries]
  constructor
  · rintro ⟨k, ch, n, hm, hs, rfl, hn⟩
    exact ⟨hs ▸ hm, hn⟩
  · rintro ⟨hm, hn⟩
    exact ⟨_, _, _, hm, rfl, rfl, hn⟩

theorem share_eq_zero {f : Filling} {who : GroupId × ChannelId}
    (hwho : who ∉ (f.given.entries.filterMap part).map source) : f.share who = 0 := by
  unfold Filling.share
  cases hn : f.given.get? who with
  | none => rfl
  | some n =>
    by_contra h0
    refine hwho (List.mem_map.mpr ⟨⟨who.1, who.2, n⟩, mem_parts.mpr ⟨hn, ?_⟩, rfl⟩)
    exact fun hn0 => h0 (by simpa using hn0)

theorem drawn_of_balanced {gs : Groups} {bytes : UInt32} {f : Filling}
    (hb : Filling.Balanced gs bytes f) (hend : f.left = 0 ∨ f.groups.bytes = 0) :
    Drawn gs bytes (f.given.entries.filterMap part) f.groups := by
  have hfull := hb.full
  have hconserved := hb.conserved
  have hgiven : f.given.sumOf UInt32.toNat = min bytes.toNat gs.bytes := by
    rcases hend with h0 | h0
    · rw [h0, UInt32.toNat_zero] at hfull
      omega
    · omega
  refine ⟨(f.given.ascending.sublist (sources_sublist _)).imp before_iff.mpr,
    fun p hp => (mem_parts.mp hp).2, ?_, fun p hp => ?_, fun who hwho => ?_, hb.named, by omega⟩
  · rw [sum_parts, ← hgiven, Table.sumOf, Table.values, List.map_map]
    rfl
  · have hp := (mem_parts.mp hp).1
    obtain ⟨c, hc, hle⟩ := hb.covered _ _ hp
    have htaken : (c.drain p.size).2 = p.size := UInt32.toNat_inj.mp (by
      rw [Channel.toNat_drained, Nat.min_eq_left hle])
    refine ⟨c, (c.drain p.size).1, hc, ?_, ?_⟩
    · rw [Channel.consume_eq]
      exact congrArg Except.ok (Prod.ext rfl htaken)
    · rw [hb.drained, hc, Option.map_some, Filling.share, hp, Option.getD_some]
  · simp only [hb.drained, share_eq_zero hwho, Channel.drain_zero, Option.map_id_fun', id_eq]

/-- A block of `bytes` bytes filled from `gs`, which leaves `gs'`. -/
structure Filled (gs : Groups) (bytes : UInt32) (pdus : List Pdu) (gs' : Groups) : Prop where
  sorted : (pdus.map source).Pairwise (Key.rank · < Key.rank ·)
  size_ne : ∀ p ∈ pdus, p.size ≠ 0
  sum : (pdus.map fun p => p.size.toNat).sum = min bytes.toNat gs.bytes
  taken : ∀ p ∈ pdus, ∃ c, gs.channel? (source p) = some c ∧ p.size.toNat ≤ c.bytes ∧
    gs'.channel? (source p) = some (c.drain p.size).1
  spared : ∀ who, who ∉ pdus.map source → gs'.channel? who = gs.channel? who
  named : ∀ k, (gs'.get? k).map Group.id = (gs.get? k).map Group.id
  bytes_left : gs'.bytes = gs.bytes - min bytes.toNat gs.bytes
  wellFormed : gs'.WellFormed

theorem filled_of_fill {gs gs' : Groups} {bytes : UInt32} {pdus : List Pdu} (wf : gs.WellFormed)
    (h : gs.fill bytes = .ok (pdus, gs')) : Filled gs bytes pdus gs' := by
  obtain ⟨f, hrun, rfl, rfl⟩ := fill_ok_iff.mp h
  obtain ⟨hb, hend⟩ := Filling.run_ends (Filling.balanced_start gs bytes) wf.keyed hrun
  have hdrawn := drawn_of_balanced hb hend
  refine ⟨hdrawn.sorted.imp before_iff.mp, hdrawn.size_ne, hdrawn.sum, fun p hp => ?_,
    hdrawn.spared, hdrawn.named, hdrawn.bytes_left, hb.wellFormed wf⟩
  obtain ⟨c, c', hc, hconsumed, hc'⟩ := hdrawn.consumed p hp
  rw [Channel.consume_eq, Except.ok.injEq, Prod.mk.injEq] at hconsumed
  obtain ⟨rfl, htaken⟩ := hconsumed
  refine ⟨c, hc, ?_, hc'⟩
  have htaken := congrArg UInt32.toNat htaken
  rw [Channel.toNat_drained] at htaken
  omega

namespace Filled

variable {gs gs' : Groups} {bytes : UInt32} {pdus : List Pdu}

theorem exists_channel (h : Filled gs bytes pdus gs') (who : GroupId × ChannelId) :
    (gs'.channel? who).isSome = (gs.channel? who).isSome := by
  by_cases hw : who ∈ pdus.map source
  · obtain ⟨p, hp, rfl⟩ := List.mem_map.mp hw
    obtain ⟨c, hc, -, hc'⟩ := h.taken p hp
    rw [hc, hc']
    rfl
  · rw [h.spared who hw]

theorem channels_nodup (h : Filled gs bytes pdus gs') (wf : gs.WellFormed) :
    (pdus.map Pdu.channel).Nodup := by
  have hs := h.sorted
  rw [List.pairwise_map] at hs
  refine List.pairwise_map.mpr (hs.imp_of_mem fun {p q} hp hq hlt hne => ?_)
  obtain ⟨c, hc, -⟩ := h.taken p hp
  obtain ⟨e, he, -⟩ := h.taken q hq
  have hpq := wf.once (source p) (source q) (by simp [hc]) (by simp [he]) hne
  exact absurd (congrArg Key.rank hpq) (Nat.ne_of_lt hlt)

theorem nonempty (h : Filled gs bytes pdus gs') (hb : bytes ≠ 0) (hgs : gs.bytes ≠ 0) :
    pdus ≠ [] := by
  rintro rfl
  have hsum := h.sum
  have hpos := Word.toNat_pos hb
  rw [List.map_nil, List.sum_nil] at hsum
  omega

end Filled

end Airtime.Groups
