import Airtime.Proofs.Fill
import Airtime.Proofs.Success

/-! Filling a block stays in range as long as the bytes of each channel can be counted: what is given to a
channel never exceeds what it had, and there are no more channels than places for them. -/

namespace Airtime

theorem Channel.succeeds_total_iff {c : Channel} : Succeeds c.total ↔ c.bytes < UInt32.size :=
  Word.succeeds_iff_lt fun _ => total_ok_iff

namespace Groups

theorem succeeds_total_iff {gs : Groups} : Succeeds gs.total ↔ gs.bytes < UInt32.size :=
  Word.succeeds_iff_lt fun _ => total_ok_iff

/-- The bytes of each channel can be counted. -/
def Counted (gs : Groups) : Prop :=
  ∀ who c, gs.channel? who = some c → c.bytes < UInt32.size

instance (gs : Groups) : Decidable gs.Counted := decidable_of_iff _ forall_channel?_iff.symm

theorem counted_of_bytes {gs : Groups} (hgs : gs.bytes < UInt32.size) : gs.Counted :=
  fun _ _ hc => (bytes_le hc).trans_lt hgs

theorem succeeds_backlogged {gs : Groups} (hgs : gs.Counted) : Succeeds gs.backlogged := by
  refine Succeeds.bind (succeeds_mapM fun g hg => ?_) fun perGroup _ => succeeds_ok _
  refine Succeeds.bind (succeeds_mapM fun c hc => ?_) fun totals _ => succeeds_ok _
  obtain ⟨k, hk⟩ := Table.mem_values.mp hg
  obtain ⟨ch, hch⟩ := Table.mem_values.mp hc
  have htotal : Succeeds c.total := Channel.succeeds_total_iff.mpr
    (hgs (k, ch) c (channel?_some_iff.mpr ⟨g, hk, hch⟩))
  exact htotal.bind fun n _ => succeeds_ok _

theorem toNat_length_backlogged {gs : Groups} (hn : gs.Keyed)
    {active : List (GroupId × ChannelId)} (h : gs.backlogged = .ok active) :
    (UInt32.ofNat active.length).toNat = active.length := by
  have hle := (backlogged_sublist hn h).length_le.trans gs.length_places_le
  exact UInt32.toNat_ofNat_of_lt' (hle.trans_lt (by decide))

namespace Filling

variable {gs : Groups} {bytes share : UInt32} {f : Filling} {who : GroupId × ChannelId}

theorem Balanced.counted (hb : Balanced gs bytes f) (hgs : gs.Counted) : f.groups.Counted := by
  intro who c hc
  obtain ⟨c₀, hc₀, -, hbytes⟩ := hb.start hc
  have := hgs who c₀ hc₀
  omega

theorem succeeds_serve (hb : Balanced gs bytes f) (hgs : gs.Counted) :
    Succeeds (f.serve share who) := by
  unfold serve
  split
  · exact succeeds_ok f
  · split
    · exact succeeds_ok f
    · next g hg =>
      split
      · exact succeeds_ok f
      · next c hc =>
        rw [Channel.consume_eq]
        obtain ⟨c₀, hc₀, -, hbytes⟩ := hb.start (channel?_some_iff.mpr ⟨g, hg, hc⟩)
        have hlt := hgs _ c₀ hc₀
        have htaken := Channel.toNat_drained c (min share f.left)
        have hmin := Word.toNat_min share f.left
        have hleft : Succeeds (Word.sub f.left (c.drain (min share f.left)).2) :=
          Word.succeeds_sub_iff.mpr (by simp only [Word.toNat_uint32]; omega)
        have hgiven : Succeeds (Word.add (f.share who) (c.drain (min share f.left)).2) :=
          Word.succeeds_add_iff.mpr (by
            change (f.share who).toNat + (c.drain (min share f.left)).2.toNat < UInt32.size
            omega)
        exact hleft.bind fun left _ => hgiven.bind fun given _ => succeeds_ok _

theorem succeeds_round (hb : Balanced gs bytes f) (hn : gs.Keyed) (hgs : gs.Counted) :
    Succeeds f.round := by
  refine (succeeds_backlogged (hb.counted hgs)).bind fun active hactive => ?_
  split
  · exact succeeds_ok f
  · next hsome =>
    have hpos : active.length ≠ 0 := fun h0 => hsome (List.isEmpty_iff_length_eq_zero.mpr h0)
    have hdiv : Succeeds (Word.div f.left (UInt32.ofNat active.length)) := by
      rw [Word.succeeds_div_iff, Word.toNat_uint32,
        toNat_length_backlogged (hb.keyed hn) hactive]
      exact hpos
    exact hdiv.bind fun share _ => succeeds_foldlM (I := fun _ f => Balanced gs bytes f) hb
      (fun who _ _ f hf => succeeds_serve hf hgs) fun who _ _ f f' hf h => balanced_serve hf h

theorem succeeds_run (hb : Balanced gs bytes f) (hn : gs.Keyed) (hgs : gs.Counted) :
    Succeeds f.run := by
  induction f using Filling.run.induct with
  | case1 f h0 =>
    rw [run, if_pos h0]
    exact succeeds_ok f
  | case2 f h0 e he =>
    obtain ⟨f', hf'⟩ := succeeds_round hb hn hgs
    rw [he] at hf'
    cases hf'
  | case3 f h0 f₁ h₁ hlt ih =>
    rw [run, if_neg h0, h₁]
    simp only [if_pos hlt]
    exact ih (round_ok hb hn h₁).1
  | case4 f h0 f₁ h₁ hlt =>
    rw [run, if_neg h0, h₁]
    simp only [if_neg hlt]
    exact succeeds_ok f₁

end Filling

theorem succeeds_fill {gs : Groups} (hn : gs.Keyed) (hgs : gs.Counted) (bytes : UInt32) :
    Succeeds (gs.fill bytes) :=
  (Filling.succeeds_run (Filling.balanced_start gs bytes) hn hgs).bind fun _ _ => succeeds_ok _

end Groups

end Airtime
