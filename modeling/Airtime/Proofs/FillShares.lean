import Airtime.Proofs.FillRange
import Mathlib

/-! Every block is filled, and its bytes are shared evenly. After every round the channels that still have
data were all given as much, and the others no more; only the last round, which gives a byte to each, can
stop half-way (`Filling.Underway`). So no channel with data left is more than a byte behind another one. -/

namespace Airtime.Groups

/-- A block is filled in a number of rounds, in each of which the channels with data share what is left
of it. No bytes are lost, and each channel ends as if it had been asked once for all that it gave. -/
theorem blocks_are_filled {gs : Groups} (hn : gs.Keyed) (hgs : gs.Counted) (bytes : UInt32) :
    ∃ n f pdus, Filling.Loop n ⟨gs, bytes, ∅⟩ f ∧ n ≤ min bytes.toNat gs.bytes ∧
      gs.fill bytes = .ok (pdus, f.groups) ∧ Drawn gs bytes pdus f.groups := by
  have hstart := Filling.balanced_start gs bytes
  obtain ⟨f, hrun⟩ := Filling.succeeds_run hstart hn hgs
  obtain ⟨n, hloop, hrounds⟩ := Filling.loop_of_run hstart hn hrun
  obtain ⟨hb, hend⟩ := Filling.run_ends hstart hn hrun
  have hfilled : gs.fill bytes = .ok (f.given.entries.filterMap part, f.groups) :=
    fill_ok_iff.mpr ⟨f, hrun, rfl, rfl⟩
  have hfull := hb.full
  have hconserved := hb.conserved
  simp only at hrounds
  exact ⟨n, f, _, hloop, by omega, hfilled, drawn_of_balanced hb hend⟩

def crowdedGroups : Groups :=
  .ofList [
    (0, ⟨0, .ofList [
      (1, { Channel.fresh 1 0 1 with tx := 2, retx := 3, status := 5 }),
      (2, { Channel.fresh 2 0 1 with tx := 400, status := 40 }),
      (7, .fresh 7 0 1)]⟩),
    (1, ⟨1, .ofList [(2, { Channel.fresh 2 1 1 with tx := 4294967295 })]⟩)]

/-- In the first round each channel is offered 33 bytes, in the second one 12 more, and the last byte goes
to the first one with data. -/
theorem blocks_are_filled_sample : ∃ n f pdus,
    Filling.Loop n ⟨crowdedGroups, 101, ∅⟩ f ∧ n ≤ 101 ∧
      crowdedGroups.fill 101 = .ok (pdus, f.groups) ∧ Drawn crowdedGroups 101 pdus f.groups ∧
      pdus = [⟨0, 1, 10⟩, ⟨0, 2, 46⟩, ⟨1, 2, 45⟩] := by
  obtain ⟨n, f, pdus, hloop, hn, hfill, hdrawn⟩ :=
    @blocks_are_filled crowdedGroups (by decide) (by decide) 101
  have hrun : (crowdedGroups.fill 101).toOption.any (fun r =>
      decide (r.1 = [⟨0, 1, 10⟩, ⟨0, 2, 46⟩, ⟨1, 2, 45⟩])) = true := by
    cbv
  rw [hfill] at hrun
  simp only [Except.toOption, Option.any_some, decide_eq_true_eq] at hrun
  exact ⟨n, f, pdus, hloop, hn.trans (Nat.min_le_left _ _), hfill, hdrawn, hrun⟩

namespace Filling

/-- A round underway. The channels in `rest` have data and were given `level` bytes; every other one was
given `step` bytes more, or has no data left and was given less. -/
structure Underway (level step : Nat) (rest : List (GroupId × ChannelId)) (f : Filling) : Prop where
  le : ∀ who, (f.share who).toNat ≤ level + step
  waiting : ∀ who ∈ rest, (f.share who).toNat = level ∧
    ∃ c, f.groups.channel? who = some c ∧ c.bytes ≠ 0
  served : ∀ who c, f.groups.channel? who = some c → c.bytes ≠ 0 → who ∉ rest →
    (f.share who).toNat = level + step
  ahead : ∀ who, level < (f.share who).toNat → ∀ w ∈ rest, Before who w

section Serve

variable {level : Nat} {step : UInt32} {rest : List (GroupId × ChannelId)}
  {who : GroupId × ChannelId} {f f' : Filling}

theorem underway_start (gs : Groups) (bytes : UInt32) : Underway 0 0 [] ⟨gs, bytes, ∅⟩ where
  le _ := le_rfl
  waiting _ h := nomatch h
  served _ _ _ _ _ := rfl
  ahead _ h := absurd h (Nat.lt_irrefl 0)

theorem underway_serve (hw : Underway level step.toNat (who :: rest) f)
    (hsorted : (who :: rest).Pairwise Before) (hfits : step.toNat ≤ f.left.toNat) (h0 : f.left ≠ 0)
    (h : f.serve step who = .ok f') :
    Underway level step.toNat rest f' ∧ f.left.toNat ≤ f'.left.toNat + step.toNat := by
  obtain ⟨hbefore, -⟩ := List.pairwise_cons.mp hsorted
  obtain ⟨hlevel, c, hc, hbytes⟩ := hw.waiting who List.mem_cons_self
  rcases serve_cases h with ⟨-, h1 | h1⟩ | ⟨g, c', given, -, hg, hc', hgiven, rfl⟩
  · exact absurd h1 h0
  · rw [hc] at h1
    cases h1
  have hcc : c' = c := by
    rw [channel?, hg, Option.bind_some, hc'] at hc
    exact Option.some.inj hc
  subst hcc
  have hmin := Word.toNat_min step f.left
  have htaken := Channel.toNat_drained c' (min step f.left)
  have hleft := Channel.bytes_drain c' (min step f.left)
  refine ⟨{ le := fun w => ?le, waiting := fun w hmem => ?waiting,
            served := fun w d hd hdata hout => ?served, ahead := fun w hmore v hv => ?ahead }, ?left⟩
  case le =>
    rw [share_insert]
    split
    · omega
    · exact hw.le w
  case waiting =>
    have hne : w ≠ who := (hbefore w hmem).ne.symm
    rw [share_insert, if_neg hne, channel?_insert hg, if_neg hne]
    exact hw.waiting w (List.mem_cons_of_mem _ hmem)
  case served =>
    rw [channel?_insert hg] at hd
    rw [share_insert]
    split at hd
    · next he =>
      cases hd
      rw [if_pos he]
      omega
    · next hne =>
      rw [if_neg hne]
      exact hw.served w d hd hdata (by simp [hne, hout])
  case ahead =>
    rw [share_insert] at hmore
    split at hmore
    · next he => exact he ▸ hbefore v hv
    · exact hw.ahead w hmore v (List.mem_cons_of_mem _ hv)
  case left =>
    rw [toNat_left_sub]
    omega

theorem serveAll_full (h0 : f.left = 0) : rest.foldlM (serve step) f = .ok f := by
  induction rest with
  | nil => rfl
  | cons who rest ih => rw [List.foldlM_cons, serve, if_pos h0, ok_bind, ih]

/-- Channels are served one after the other until the block is full. With a step of one byte that can
happen at any of them, otherwise there is enough for all. -/
theorem underway_serveAll (hw : Underway level step.toNat rest f) (hsorted : rest.Pairwise Before)
    (hpos : step ≠ 0) (hfits : step = 1 ∨ step.toNat * rest.length ≤ f.left.toNat)
    (h : rest.foldlM (serve step) f = .ok f') :
    ∃ rest', Underway level step.toNat rest' f' ∧ (rest' = [] ∨ step = 1 ∧ f'.left = 0) := by
  induction rest generalizing f with
  | nil =>
    cases h
    exact ⟨[], hw, .inl rfl⟩
  | cons who rest ih =>
    have hstep := Word.toNat_pos hpos
    rw [List.length_cons, Nat.mul_succ] at hfits
    by_cases h0 : f.left = 0
    · rw [serveAll_full h0] at h
      cases h
      refine ⟨who :: rest, hw, .inr ⟨hfits.resolve_right fun hfits => hstep.ne' ?_, h0⟩⟩
      rw [h0, UInt32.toNat_zero] at hfits
      omega
    · have hleft := Word.toNat_pos h0
      have hstepfits : step.toNat ≤ f.left.toNat := by
        rcases hfits with rfl | hfits
        · rw [UInt32.toNat_one]
          omega
        · omega
      rw [List.foldlM_cons] at h
      obtain ⟨f₁, h₁, h⟩ := bind_ok_iff.mp h
      obtain ⟨hw₁, hspent⟩ := underway_serve hw hsorted hstepfits h0 h₁
      exact ih hw₁ (List.pairwise_cons.mp hsorted).2 (hfits.imp_right fun _ => by omega) h

end Serve

section Rounds

variable {gs : Groups} {bytes : UInt32} {f f' : Filling}

theorem share_fits {left count n : UInt32} (h : Word.div left count = .ok n) :
    max n 1 = 1 ∨ (max n 1).toNat * count.toNat ≤ left.toNat := by
  obtain ⟨-, hn⟩ := Word.div_eq_ok.mp h
  simp only [Word.toNat_uint32] at hn
  have hmax := Word.toNat_max n 1
  rw [UInt32.toNat_one] at hmax
  by_cases hzero : n.toNat = 0
  · refine .inl (UInt32.toNat_inj.mp ?_)
    rw [hmax, hzero]
    rfl
  · refine .inr ?_
    rw [hmax, Nat.max_eq_left (Nat.pos_of_ne_zero hzero), hn]
    exact Nat.div_mul_le_self _ _

/-- The channels with data were all given as much, and the others no more. When the block got full in a
round of one byte each, some of them may lack that byte. -/
def Leveled (f : Filling) : Prop :=
  ∃ level step rest, Underway level step rest f ∧ (rest = [] ∨ step = 1 ∧ f.left = 0)

theorem Leveled.restart (hl : Leveled f) (h0 : f.left ≠ 0) (hn : f.groups.Keyed)
    {active : List (GroupId × ChannelId)} (hactive : f.groups.backlogged = .ok active) (step : Nat) :
    ∃ level, Underway level step active f := by
  obtain ⟨level, last, rest, hw, rfl | ⟨-, hz⟩⟩ := hl
  · have hmem := mem_backlogged hn hactive
    refine ⟨level + last, fun who => (hw.le who).trans (Nat.le_add_right _ _), fun who hwho => ?_,
      fun who c hc hbytes hout => ?_, fun who hmore => ?_⟩
    · obtain ⟨c, hc, hbytes⟩ := (hmem who).mp hwho
      exact ⟨hw.served who c hc hbytes List.not_mem_nil, c, hc, hbytes⟩
    · exact absurd ((hmem who).mpr ⟨c, hc, hbytes⟩) hout
    · exact absurd (hw.le who) (Nat.not_le.mpr hmore)
  · exact absurd hz h0

theorem leveled_round (hb : Balanced gs bytes f) (hn : gs.Keyed) (hl : Leveled f) (h0 : f.left ≠ 0)
    (h : f.round = .ok f') : Leveled f' := by
  obtain ⟨active, hactive, ⟨-, rfl⟩ | ⟨hsome, n, hshare, h⟩⟩ := round_cases h
  · exact hl
  have hkeyed := hb.keyed hn
  obtain ⟨level, hw⟩ := hl.restart h0 hkeyed hactive (max n 1).toNat
  have hfits := share_fits hshare
  rw [toNat_length_backlogged hkeyed hactive] at hfits
  obtain ⟨rest, hw', hend⟩ :=
    underway_serveAll hw (pairwise_backlogged hkeyed hactive) (max_one_ne_zero n) hfits h
  refine ⟨level, _, rest, hw', hend.imp_right fun ⟨hstep, hleft⟩ => ⟨?_, hleft⟩⟩
  rw [hstep, UInt32.toNat_one]

theorem leveled_run (hb : Balanced gs bytes f) (hn : gs.Keyed) (hl : Leveled f)
    (h : f.run = .ok f') : Leveled f' := by
  obtain ⟨n, hloop, -⟩ := loop_of_run hb hn h
  obtain ⟨⟨-, hl'⟩, -⟩ := hloop.keeps (I := fun f => Balanced gs bytes f ∧ Leveled f) ⟨hb, hl⟩
    fun f f' ⟨hb, hl⟩ h0 hround => ⟨(round_ok hb hn hround).1, leveled_round hb hn hl h0 hround⟩
  exact hl'

theorem Leveled.fair (hl : Leveled f) {who : GroupId × ChannelId} {c : Channel}
    (hc : f.groups.channel? who = some c) (hbytes : c.bytes ≠ 0) (who' : GroupId × ChannelId) :
    (f.share who').toNat ≤ (f.share who).toNat + 1 ∧
      (Before who who' → (f.share who').toNat ≤ (f.share who).toNat) := by
  obtain ⟨level, step, rest, hw, hend⟩ := hl
  have hle := hw.le who'
  by_cases hwho : who ∈ rest
  · obtain ⟨rfl, -⟩ := hend.resolve_left (List.ne_nil_of_mem hwho)
    obtain ⟨hlevel, -⟩ := hw.waiting who hwho
    refine ⟨by omega, fun hbefore => ?_⟩
    by_contra hmore
    have hahead := before_iff.mp (hw.ahead who' (by omega) who hwho)
    have hbehind := before_iff.mp hbefore
    omega
  · have hlevel := hw.served who c hc hbytes hwho
    exact ⟨by omega, fun _ => by omega⟩

theorem Balanced.exists_left (hb : Balanced gs bytes f) {who : GroupId × ChannelId} {c : Channel}
    (hc : gs.channel? who = some c) :
    ∃ c', f.groups.channel? who = some c' ∧ c'.bytes + (f.share who).toNat = c.bytes := by
  obtain ⟨c', hc'⟩ := Option.isSome_iff_exists.mp
    ((hb.isSome_channel? who).trans (Option.isSome_iff_exists.mpr ⟨c, hc⟩))
  obtain ⟨c₀, hc₀, -, hbytes⟩ := hb.start hc'
  rw [hc] at hc₀
  cases hc₀
  exact ⟨c', hc', by omega⟩

end Rounds

end Filling

def given (pdus : List Pdu) (who : GroupId × ChannelId) : Nat :=
  ((pdus.filter fun p => source p = who).map fun p => p.size.toNat).sum

theorem given_eq_zero {pdus : List Pdu} {who : GroupId × ChannelId} (h : who ∉ pdus.map source) :
    given pdus who = 0 := by
  rw [given, List.filter_eq_nil_iff.mpr, List.map_nil, List.sum_nil]
  intro p hp hwho
  exact h (List.mem_map.mpr ⟨p, hp, of_decide_eq_true hwho⟩)

theorem given_of_mem {pdus : List Pdu} (hs : (pdus.map source).Nodup) {p : Pdu} (hp : p ∈ pdus) :
    given pdus (source p) = p.size.toNat := by
  rw [given, filter_of_nodup hs hp, List.map_singleton, List.sum_singleton]

theorem given_parts (f : Filling) (who : GroupId × ChannelId) :
    given (f.given.entries.filterMap part) who = (f.share who).toNat := by
  by_cases hwho : who ∈ (f.given.entries.filterMap part).map source
  · obtain ⟨p, hp, rfl⟩ := List.mem_map.mp hwho
    have hnodup := (sources_sublist f.given.entries).nodup f.given.keys_nodup
    rw [given_of_mem hnodup hp, Filling.share, (mem_parts.mp hp).1, Option.getD_some]
  · rw [given_eq_zero hwho, share_eq_zero hwho, UInt32.toNat_zero]

/-- The parts of a block are even, up to a byte, but for channels that gave all they had. -/
structure EvenShares (gs : Groups) (pdus : List Pdu) (gs' : Groups) : Prop where
  spent : ∀ who c, gs.channel? who = some c →
    ∃ c', gs'.channel? who = some c' ∧ c'.bytes + given pdus who = c.bytes
  near : ∀ who c, gs'.channel? who = some c → c.bytes ≠ 0 →
    ∀ who', given pdus who' ≤ given pdus who + 1
  inOrder : ∀ who c, gs'.channel? who = some c → c.bytes ≠ 0 →
    ∀ who', Before who who' → given pdus who' ≤ given pdus who
  exhausted : ∀ who c, gs.channel? who = some c →
    ∀ who', given pdus who + 2 ≤ given pdus who' → given pdus who = c.bytes

theorem evenShares_of_leveled {gs : Groups} {bytes : UInt32} {f : Filling}
    (hb : Filling.Balanced gs bytes f) (hl : Filling.Leveled f) :
    EvenShares gs (f.given.entries.filterMap part) f.groups := by
  have hnear : ∀ who c, f.groups.channel? who = some c → c.bytes ≠ 0 → ∀ who',
      (f.share who').toNat ≤ (f.share who).toNat + 1 :=
    fun who c hc hbytes who' => (hl.fair hc hbytes who').1
  refine ⟨fun who c hc => ?_, fun who c hc hbytes who' => ?_, fun who c hc hbytes who' => ?_,
    fun who c hc who' hbehind => ?_⟩
  · rw [given_parts]
    exact hb.exists_left hc
  · rw [given_parts, given_parts]
    exact hnear who c hc hbytes who'
  · rw [given_parts, given_parts]
    exact (hl.fair hc hbytes who').2
  · rw [given_parts, given_parts] at hbehind
    obtain ⟨c', hc', hbytes⟩ := hb.exists_left hc
    rw [given_parts]
    by_contra hless
    have := hnear who c' hc' (by omega) who'
    omega

/-- A block is shared among the channels with data, so that none is more than a byte behind another one
unless it has nothing left; the odd bytes go to the first ones. -/
theorem bytes_are_shared_evenly {gs : Groups} (hn : gs.Keyed) (hgs : gs.Counted) (bytes : UInt32) :
    ∃ pdus gs', gs.fill bytes = .ok (pdus, gs') ∧ Drawn gs bytes pdus gs' ∧
      EvenShares gs pdus gs' := by
  have hstart := Filling.balanced_start gs bytes
  obtain ⟨f, hrun⟩ := Filling.succeeds_run hstart hn hgs
  obtain ⟨hb, hend⟩ := Filling.run_ends hstart hn hrun
  have hl : Filling.Leveled f := Filling.leveled_run hstart hn
    ⟨0, 0, [], Filling.underway_start gs bytes, .inl rfl⟩ hrun
  exact ⟨_, _, fill_ok_iff.mpr ⟨f, hrun, rfl, rfl⟩, drawn_of_balanced hb hend,
    evenShares_of_leveled hb hl⟩

/-- The first channel gave all it had; the last one is a byte behind the one before it. -/
theorem bytes_are_shared_evenly_sample : ∃ pdus gs',
    crowdedGroups.fill 101 = .ok (pdus, gs') ∧ Drawn crowdedGroups 101 pdus gs' ∧
      EvenShares crowdedGroups pdus gs' ∧
      given pdus (0, 1) = 10 ∧ given pdus (0, 2) = 46 ∧ given pdus (1, 2) = 45 := by
  obtain ⟨pdus, gs', hfill, hdrawn, heven⟩ :=
    @bytes_are_shared_evenly crowdedGroups (by decide) (by decide) 101
  have hrun : (crowdedGroups.fill 101).toOption.any (fun r => decide (given r.1 (0, 1) = 10 ∧
      given r.1 (0, 2) = 46 ∧ given r.1 (1, 2) = 45)) = true := by
    cbv
  rw [hfill] at hrun
  simp only [Except.toOption, Option.any_some, decide_eq_true_eq] at hrun
  exact ⟨pdus, gs', hfill, hdrawn, heven, hrun⟩

end Airtime.Groups
