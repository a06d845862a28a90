import Airtime.Proofs.Channel

/-! The order in which a channel is drained. What is taken says what becomes of the three queues, so
taking twice is taking the sum. -/

namespace Airtime

namespace Channel

variable {c c' c'' : Channel} {m n : Nat}

/-- `n` bytes have left the queues: retransmissions only once no status was left, new data only once no
retransmissions were left either. -/
structure Drained (c : Channel) (n : Nat) (c' : Channel) : Prop where
  frame : c' = { c with status := c'.status, retx := c'.retx, tx := c'.tx }
  status_le : c'.status ≤ c.status
  retx_le : c'.retx ≤ c.retx
  tx_le : c'.tx ≤ c.tx
  taken : (c.status.toNat - c'.status.toNat) + (c.retx.toNat - c'.retx.toNat) +
    (c.tx.toNat - c'.tx.toNat) = n
  status_first : c'.retx < c.retx → c'.status = 0
  retx_next : c'.tx < c.tx → c'.status = 0 ∧ c'.retx = 0

theorem drained_iff : c.Drained n c' ↔
    c' = { c with status := c'.status, retx := c'.retx, tx := c'.tx } ∧
    c'.status.toNat ≤ c.status.toNat ∧ c'.retx.toNat ≤ c.retx.toNat ∧ c'.tx.toNat ≤ c.tx.toNat ∧
    (c.status.toNat - c'.status.toNat) + (c.retx.toNat - c'.retx.toNat) +
      (c.tx.toNat - c'.tx.toNat) = n ∧
    (c'.retx.toNat < c.retx.toNat → c'.status.toNat = 0) ∧
    (c'.tx.toNat < c.tx.toNat → c'.status.toNat = 0 ∧ c'.retx.toNat = 0) := by
  have hzero (w : UInt32) : w.toNat = 0 ↔ w = 0 := UInt32.toNat_inj (b := 0)
  simp only [← UInt32.le_iff_toNat_le, ← UInt32.lt_iff_toNat_lt, hzero]
  constructor
  · rintro ⟨hframe, hs, hr, ht, htaken, hfirst, hnext⟩
    exact ⟨hframe, hs, hr, ht, htaken, hfirst, hnext⟩
  · rintro ⟨hframe, hs, hr, ht, htaken, hfirst, hnext⟩
    exact ⟨hframe, hs, hr, ht, htaken, hfirst, hnext⟩

theorem Drained.unique (h : c.Drained n c') (h' : c.Drained n c'') : c' = c'' := by
  obtain ⟨hframe, hs, hr, ht, htaken, hfirst, hnext⟩ := drained_iff.mp h
  obtain ⟨hframe', hs', hr', ht', htaken', hfirst', hnext'⟩ := drained_iff.mp h'
  have es : c'.status = c''.status := UInt32.toNat_inj.mp (by omega)
  have er : c'.retx = c''.retx := UInt32.toNat_inj.mp (by omega)
  have et : c'.tx = c''.tx := UInt32.toNat_inj.mp (by omega)
  rw [hframe, hframe', es, er, et]

theorem Drained.trans (h : c.Drained m c') (h' : c'.Drained n c'') : c.Drained (m + n) c'' := by
  obtain ⟨hframe, hs, hr, ht, htaken, hfirst, hnext⟩ := drained_iff.mp h
  obtain ⟨hframe', hs', hr', ht', htaken', hfirst', hnext'⟩ := drained_iff.mp h'
  refine drained_iff.mpr ⟨?_, by omega, by omega, by omega, by omega, by omega, by omega⟩
  rw [hframe', hframe]

theorem drained_drain (c : Channel) (n : UInt32) : c.Drained (c.drain n).2.toNat (c.drain n).1 := by
  obtain ⟨hs, hr, ht, htaken⟩ := toNat_drain c n
  rw [bytes] at htaken
  exact drained_iff.mpr ⟨drain_frame c n, by omega, by omega, by omega, by omega, by omega, by omega⟩

theorem toNat_drained_twice (c : Channel) {a b m : UInt32} (h : m.toNat = a.toNat + b.toNat) :
    (c.drain m).2.toNat = (c.drain a).2.toNat + ((c.drain a).1.drain b).2.toNat := by
  rw [toNat_drained, toNat_drained, toNat_drained, bytes_drain]
  omega

end Channel

/-- Draining a channel never leaves the range, takes what is asked for as far as it is there, in order,
and is additive. -/
theorem draining_is_ordered (c : Channel) :
    (∀ a, ∃ c' taken, c.consume a = .ok (c', taken) ∧ taken.toNat = min a.toNat c.bytes ∧
      c.Drained taken.toNat c') ∧
    ∀ a b : UInt32, a.toNat + b.toNat < UInt32.size →
      (do
        let (c₁, first) ← c.consume a
        let (c₂, second) ← c₁.consume b
        return (c₂, ← Word.add first second)) = c.consume (a + b) := by
  refine ⟨fun a => ⟨_, _, c.consume_eq a, c.toNat_drained a, c.drained_drain a⟩, fun a b hab => ?_⟩
  have hsum : (a + b).toNat = a.toNat + b.toNat := by
    rw [UInt32.toNat_add]
    exact Nat.mod_eq_of_lt hab
  have htaken := Channel.toNat_drained_twice c hsum
  have hleft : ((c.drain a).1.drain b).1 = (c.drain (a + b)).1 :=
    ((c.drained_drain a).trans (Channel.drained_drain _ b)).unique (htaken ▸ c.drained_drain (a + b))
  simp only [Channel.consume_eq, bind_ok_iff, Except.ok.injEq, exists_eq_left']
  exact ⟨_, Word.add_eq_ok.mpr htaken, by rw [hleft]; rfl⟩

/-- The queues of this channel sum beyond the range of a word. -/
theorem long_queues_drained :
    let c := { Channel.fresh 4 1 1 with tx := 4294967295, retx := 5, status := 3 }
    (4 : UInt32).toNat + (10 : UInt32).toNat < UInt32.size ∧
      (do
        let (c₁, first) ← c.consume 4
        let (c₂, second) ← c₁.consume 10
        return (c₂, ← Word.add first second)) =
      .ok ({ c with tx := 4294967289, retx := 0, status := 0 }, 14) :=
  ⟨by decide, ((draining_is_ordered _).2 4 10 (by decide)).trans (by decide)⟩

end Airtime
