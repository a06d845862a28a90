import Airtime.Channel
import Airtime.Proofs.Table
import Airtime.Proofs.Word

/-! The bytes waiting on channels, counted exactly, and channel maps in which every group and every
channel is stored under its own number. -/

namespace Airtime

namespace Channel

/-- All bytes waiting, however many. -/
def bytes (c : Channel) : Nat := c.tx.toNat + c.retx.toNat + c.status.toNat

theorem total_ok_iff {c : Channel} {n : UInt32} : c.total = .ok n ↔ n.toNat = c.bytes := by
  simp only [total, bind_ok_iff, Word.add_eq_ok, Word.toNat_uint32, bytes]
  constructor
  · rintro ⟨m, hm, hn⟩
    omega
  · intro hn
    obtain ⟨m, hm⟩ := Word.exists_toNat (n := c.tx.toNat + c.retx.toNat) (w := n) (by simp; omega)
    exact ⟨m, hm, by simp at hm; omega⟩

theorem toNat_sub_min (queue left : UInt32) :
    (queue - min left queue).toNat = queue.toNat - left.toNat ∧
      (left - min left queue).toNat = left.toNat - queue.toNat := by
  have hmin := Word.toNat_min left queue
  rw [UInt32.toNat_sub_of_le _ _ (UInt32.le_iff_toNat_le.mpr (by omega)),
    UInt32.toNat_sub_of_le _ _ (UInt32.le_iff_toNat_le.mpr (by omega))]
  omega

theorem takeFrom_eq (queue left : UInt32) :
    takeFrom queue left = .ok (queue - min left queue, left - min left queue) := by
  have hmin := Word.toNat_min left queue
  simp only [takeFrom, bind_ok_iff, pure_ok_iff, Word.sub_ok_iff, Prod.mk.injEq]
  exact ⟨_, ⟨UInt32.le_iff_toNat_le.mpr (by omega), rfl⟩, _,
    ⟨UInt32.le_iff_toNat_le.mpr (by omega), rfl⟩, rfl, rfl⟩

section Drain

variable (c : Channel) (n : UInt32)

theorem toNat_drain :
    (c.drain n).1.status.toNat = c.status.toNat - n.toNat ∧
    (c.drain n).1.retx.toNat = c.retx.toNat - (n.toNat - c.status.toNat) ∧
    (c.drain n).1.tx.toNat = c.tx.toNat - (n.toNat - c.status.toNat - c.retx.toNat) ∧
    (c.drain n).2.toNat = min n.toNat c.bytes := by
  simp only [drain]
  obtain ⟨hs, hs'⟩ := toNat_sub_min c.status n
  generalize hleft : n - min n c.status = left at *
  obtain ⟨hr, hr'⟩ := toNat_sub_min c.retx left
  generalize hleft' : left - min left c.retx = left' at *
  refine ⟨hs, by rw [hr, hs'], by rw [(toNat_sub_min c.tx left').1, hr', hs'], ?_⟩
  have hmin := Word.toNat_min n c.status
  have hmin' := Word.toNat_min left c.retx
  have hmin'' := Word.toNat_min left' c.tx
  have hn := n.toNat_lt
  rw [UInt32.toNat_add, UInt32.toNat_add, bytes]
  omega

/-- Taking the queues one after the other stays in range. -/
theorem consume_eq : c.consume n = .ok (c.drain n) := by
  simp only [consume, takeFrom_eq, bind_ok_iff, Except.ok.injEq, exists_eq_left', pure_ok_iff,
    Word.sub_ok_iff]
  refine ⟨_, ⟨?_, rfl⟩, ?_⟩
  · rw [UInt32.le_iff_toNat_le, (toNat_sub_min _ _).2, (toNat_sub_min _ _).2, (toNat_sub_min _ _).2]
    omega
  · rw [drain, Prod.mk.injEq]
    exact ⟨rfl, by grind⟩

theorem drain_frame :
    (c.drain n).1 = { c with
      status := (c.drain n).1.status, retx := (c.drain n).1.retx, tx := (c.drain n).1.tx } := rfl

theorem toNat_drained : (c.drain n).2.toNat = min n.toNat c.bytes := (toNat_drain c n).2.2.2

theorem bytes_drain : (c.drain n).1.bytes = c.bytes - n.toNat := by
  obtain ⟨hs, hr, ht, -⟩ := toNat_drain c n
  simp only [bytes, hs, hr, ht]
  omega

theorem drain_eq_of_toNat {m k : UInt32} {c' : Channel}
    (hc : c' = { c with status := c'.status, retx := c'.retx, tx := c'.tx })
    (hs : c'.status.toNat - m.toNat = c.status.toNat - k.toNat)
    (hr : c'.retx.toNat - (m.toNat - c'.status.toNat) =
      c.retx.toNat - (k.toNat - c.status.toNat))
    (ht : c'.tx.toNat - (m.toNat - c'.status.toNat - c'.retx.toNat) =
      c.tx.toNat - (k.toNat - c.status.toNat - c.retx.toNat)) :
    (c'.drain m).1 = (c.drain k).1 := by
  obtain ⟨hs₁, hr₁, ht₁, -⟩ := toNat_drain c' m
  obtain ⟨hs₂, hr₂, ht₂, -⟩ := toNat_drain c k
  have es := UInt32.toNat_inj.mp (hs₁.trans (hs.trans hs₂.symm))
  have er := UInt32.toNat_inj.mp (hr₁.trans (hr.trans hr₂.symm))
  have et := UInt32.toNat_inj.mp (ht₁.trans (ht.trans ht₂.symm))
  rw [drain_frame c' m, drain_frame c k, es, er, et, hc]

theorem drain_drain {a b m : UInt32} (h : m.toNat = a.toNat + b.toNat) :
    ((c.drain a).1.drain b).1 = (c.drain m).1 := by
  obtain ⟨hs, hr, ht, -⟩ := toNat_drain c a
  exact drain_eq_of_toNat c (drain_frame c a) (by omega) (by omega) (by omega)

theorem drain_drained : (c.drain (c.drain n).2).1 = (c.drain n).1 := by
  have h := toNat_drained c n
  rw [bytes] at h
  exact drain_eq_of_toNat c rfl (by omega) (by omega) (by omega)

theorem drain_zero : (c.drain 0).1 = c := by
  obtain ⟨hs, hr, ht, -⟩ := toNat_drain c 0
  have es : (c.drain 0).1.status = c.status := UInt32.toNat_inj.mp (by simpa using hs)
  have er : (c.drain 0).1.retx = c.retx := UInt32.toNat_inj.mp (by simpa using hr)
  have et : (c.drain 0).1.tx = c.tx := UInt32.toNat_inj.mp (by simpa using ht)
  rw [drain_frame c 0, es, er, et]

end Drain

end Channel

namespace Group

def bytes (g : Group) : Nat := g.channels.sumOf Channel.bytes

theorem total_ok_iff {g : Group} {n : UInt32} : g.total = .ok n ↔ n.toNat = g.bytes :=
  (Word.sum_mapM_ok_iff fun _ _ => Channel.total_ok_iff).trans
    (by rw [bytes, Table.sumOf, Word.toNat_uint32])

end Group

namespace Groups

def bytes (gs : Groups) : Nat := gs.sumOf Group.bytes

theorem total_ok_iff {gs : Groups} {n : UInt32} : gs.total = .ok n ↔ n.toNat = gs.bytes :=
  (Word.sum_mapM_ok_iff fun _ _ => Group.total_ok_iff).trans
    (by rw [bytes, Table.sumOf, Word.toNat_uint32])

/-- The channel that is stored under the numbers of a group and of a channel. -/
def channel? (gs : Groups) (who : GroupId × ChannelId) : Option Channel :=
  (gs.get? who.1).bind fun g => g.channels.get? who.2

/-- Every group is stored under its own number, every channel under its own number in its own group,
and no channel is in two groups. -/
structure WellFormed (gs : Groups) : Prop where
  group_id : ∀ k g, gs.get? k = some g → g.id = k
  channel_id : ∀ who c, gs.channel? who = some c → c.id = who.2 ∧ c.group = who.1
  once : ∀ who who', (gs.channel? who).isSome → (gs.channel? who').isSome →
    who.2 = who'.2 → who = who'

theorem wellFormed_empty : WellFormed ∅ where
  group_id k g h := by cases h
  channel_id who c h := by cases h
  once who who' h := by cases h

/-- Every group and every channel is stored under its own number. -/
structure Keyed (gs : Groups) : Prop where
  group_id : ∀ k g, gs.get? k = some g → g.id = k
  channel_id : ∀ who c, gs.channel? who = some c → c.id = who.2

theorem WellFormed.keyed {gs : Groups} (wf : gs.WellFormed) : gs.Keyed where
  group_id := wf.group_id
  channel_id who c hc := (wf.channel_id who c hc).1

theorem channel?_of_get? {gs : Groups} {k : GroupId} {g : Group} (h : gs.get? k = some g)
    (ch : ChannelId) : gs.channel? (k, ch) = g.channels.get? ch := by
  simp [channel?, h]

theorem channel?_some_iff {gs : Groups} {who : GroupId × ChannelId} {c : Channel} :
    gs.channel? who = some c ↔ ∃ g, gs.get? who.1 = some g ∧ g.channels.get? who.2 = some c := by
  simp [channel?, Option.bind_eq_some_iff]

theorem forall_channel?_iff {gs : Groups} {p : GroupId × ChannelId → Channel → Prop} :
    (∀ who c, gs.channel? who = some c → p who c) ↔
      ∀ e ∈ gs.entries, ∀ e' ∈ e.2.channels.entries, p (e.1, e'.1) e'.2 := by
  constructor
  · rintro h ⟨k, g⟩ he ⟨ch, c⟩ he'
    exact h _ c (channel?_some_iff.mpr ⟨g, Table.mem_entries.mp he, Table.mem_entries.mp he'⟩)
  · rintro h ⟨k, ch⟩ c hc
    obtain ⟨g, hg, hc⟩ := channel?_some_iff.mp hc
    exact h (k, g) (Table.mem_entries.mpr hg) (ch, c) (Table.mem_entries.mpr hc)

theorem keyed_iff {gs : Groups} : gs.Keyed ↔ ∀ e ∈ gs.entries, e.2.id = e.1 ∧
    ∀ e' ∈ e.2.channels.entries, e'.2.id = e'.1 := by
  constructor
  · intro hk e he
    exact ⟨hk.group_id e.1 e.2 (Table.mem_entries.mp he),
      forall_channel?_iff.mp hk.channel_id e he⟩
  · intro h
    exact ⟨fun k g hg => (h (k, g) (Table.mem_entries.mpr hg)).1,
      forall_channel?_iff.mpr fun e he => (h e he).2⟩

instance (gs : Groups) : Decidable gs.Keyed := decidable_of_iff _ keyed_iff.symm

def places (gs : Groups) : List (GroupId × ChannelId) :=
  gs.entries.flatMap fun e => e.2.channels.keys.map (e.1, ·)

/-- Order of group, then of channel. -/
def Before (who who' : GroupId × ChannelId) : Prop :=
  who.1 < who'.1 ∨ who.1 = who'.1 ∧ who.2 < who'.2

theorem before_iff {who who' : GroupId × ChannelId} :
    Before who who' ↔ Key.rank who < Key.rank who' := by
  have h := who.2.toNat_lt
  have h' := who'.2.toNat_lt
  change _ ↔ who.1.toNat * 256 + who.2.toNat < who'.1.toNat * 256 + who'.2.toNat
  rw [Before, UInt8.lt_iff_toNat_lt, UInt8.lt_iff_toNat_lt, ← UInt8.toNat_inj]
  omega

theorem Before.ne {who who' : GroupId × ChannelId} (h : Before who who') : who ≠ who' :=
  fun he => absurd (congrArg Key.rank he) (Nat.ne_of_lt (before_iff.mp h))

theorem pairwise_places (gs : Groups) : gs.places.Pairwise Before := by
  refine List.pairwise_flatMap.mpr ⟨fun e _ => ?_, ?_⟩
  · refine List.pairwise_map.mpr (e.2.channels.ascending.imp fun hlt => ?_)
    exact .inr ⟨rfl, UInt8.lt_iff_toNat_lt.mpr hlt⟩
  · refine (List.pairwise_map.mp gs.ascending).imp fun {e e'} hlt who hwho who' hwho' => ?_
    obtain ⟨_, -, rfl⟩ := List.mem_map.mp hwho
    obtain ⟨_, -, rfl⟩ := List.mem_map.mp hwho'
    exact .inl (UInt8.lt_iff_toNat_lt.mpr hlt)

theorem length_places_le (gs : Groups) : gs.places.length ≤ 2 ^ 16 := by
  refine Table.length_le_of_numbered ?_ Key.rank (fun _ _ => Key.rank_inj) fun who => ?_
  · exact gs.pairwise_places.imp Before.ne
  · have h := who.1.toNat_lt
    have h' := who.2.toNat_lt
    change who.1.toNat * 256 + who.2.toNat < 2 ^ 16
    omega

theorem channel?_insert {gs : Groups} {k : GroupId} {g : Group} (hg : gs.get? k = some g)
    (ch : ChannelId) (c : Channel) (who : GroupId × ChannelId) :
    channel? (gs.insert k { g with channels := g.channels.insert ch c }) who =
      if who = (k, ch) then some c else gs.channel? who := by
  obtain ⟨k', ch'⟩ := who
  simp only [channel?, Table.get?_insert_if, Prod.mk.injEq]
  by_cases hk : k' = k
  · subst hk
    by_cases hc : ch' = ch <;> simp [hc, hg, Table.get?_insert_if]
  · simp [hk]

/-- Putting a channel in place of another one moves the count by the difference of the two. -/
theorem bytes_insert {gs : Groups} {k : GroupId} {g : Group} {ch : ChannelId} {c : Channel}
    (hg : gs.get? k = some g) (hc : g.channels.get? ch = some c) (c' : Channel) :
    bytes (gs.insert k { g with channels := g.channels.insert ch c' }) + c.bytes =
      gs.bytes + c'.bytes := by
  have h₁ := Table.sumOf_insert Group.bytes gs k { g with channels := g.channels.insert ch c' }
  have h₂ := Table.sumOf_insert Channel.bytes g.channels ch c'
  simp only [hg, hc, Option.map_some, Option.getD_some] at h₁ h₂
  simp only [bytes, Group.bytes] at h₁ ⊢
  omega

theorem bytes_eq_zero_iff {gs : Groups} :
    gs.bytes = 0 ↔ ∀ who c, gs.channel? who = some c → c.bytes = 0 := by
  simp only [bytes, Group.bytes, Table.sumOf_eq_zero_iff, channel?_some_iff, Prod.forall]
  constructor
  · rintro h k ch c ⟨g, hg, hc⟩
    exact h k g hg ch c hc
  · intro h k g hg ch c hc
    exact h k ch c ⟨g, hg, hc⟩

theorem bytes_le {gs : Groups} {who : GroupId × ChannelId} {c : Channel}
    (h : gs.channel? who = some c) : c.bytes ≤ gs.bytes := by
  obtain ⟨g, hg, hc⟩ := channel?_some_iff.mp h
  exact (Table.le_sumOf Channel.bytes hc).trans (Table.le_sumOf Group.bytes hg)

theorem channel?_insert_empty {gs : Groups} {k : GroupId} (hk : gs.get? k = none)
    (who : GroupId × ChannelId) :
    channel? (gs.insert k (.empty k)) who = gs.channel? who := by
  simp only [channel?, Table.get?_insert_if]
  split
  · next h =>
    rw [h, hk]
    rfl
  · rfl

theorem WellFormed.insert_empty {gs : Groups} (wf : gs.WellFormed) {k : GroupId}
    (hk : gs.get? k = none) : WellFormed (gs.insert k (.empty k)) where
  group_id k' g hg := by
    rw [Table.get?_insert_if] at hg
    split at hg
    · next h =>
      cases hg
      exact h.symm
    · exact wf.group_id k' g hg
  channel_id who c hc := wf.channel_id who c (channel?_insert_empty hk who ▸ hc)
  once who who' h h' := by
    rw [channel?_insert_empty hk] at h h'
    exact wf.once who who' h h'

theorem WellFormed.insert_channel {gs : Groups} (wf : gs.WellFormed) {k : GroupId} {g : Group}
    (hg : gs.get? k = some g) {ch : ChannelId} {c : Channel} (hid : c.id = ch) (hgroup : c.group = k)
    (hnew : ∀ who, (gs.channel? who).isSome → who.2 = ch → who.1 = k) :
    WellFormed (gs.insert k { g with channels := g.channels.insert ch c }) where
  group_id k' g' hg' := by
    rw [Table.get?_insert_if] at hg'
    split at hg'
    · next h =>
      cases hg'
      rw [h]
      exact wf.group_id k g hg
    · exact wf.group_id k' g' hg'
  channel_id who c' hc' := by
    rw [channel?_insert hg] at hc'
    split at hc'
    · next h =>
      cases hc'
      rw [h]
      exact ⟨hid, hgroup⟩
    · exact wf.channel_id who c' hc'
  once who who' h h' heq := by
    rw [channel?_insert hg] at h h'
    split at h <;> split at h'
    · next hw hw' => rw [hw, hw']
    · next hw hw' => exact absurd (Prod.ext (hnew who' h' (heq ▸ hw ▸ rfl)) (heq ▸ hw ▸ rfl)) hw'
    · next hw hw' => exact absurd (Prod.ext (hnew who h (heq ▸ hw' ▸ rfl)) (heq ▸ hw' ▸ rfl)) hw
    · exact wf.once who who' h h' heq

theorem holding?_some {gs : Groups} {ch : ChannelId} {k : GroupId} {g : Group}
    (h : gs.holding? ch = some (k, g)) : gs.get? k = some g :=
  Table.mem_entries.mp (List.mem_of_find?_eq_some h)

theorem holding?_none {gs : Groups} {ch : ChannelId} (h : gs.holding? ch = none)
    (who : GroupId × ChannelId) (hwho : (gs.channel? who).isSome) : who.2 ≠ ch := by
  rintro rfl
  obtain ⟨c, hc⟩ := Option.isSome_iff_exists.mp hwho
  obtain ⟨g, hg, hc⟩ := channel?_some_iff.mp hc
  have := List.find?_eq_none.mp h (who.1, g) (Table.mem_entries.mpr hg)
  simp [Group.contains, Table.contains, hc] at this

theorem update_ok {κ : Type} {g g' : Group} {r : BufferReport κ} (h : g.update r = .ok g') :
    ∃ c, g.channels.get? r.channel = some c ∧
      g' = { g with channels := g.channels.insert r.channel (c.update r) } := by
  unfold Group.update at h
  split at h
  · cases h
  · next c hc =>
    cases h
    exact ⟨c, hc, rfl⟩

theorem WellFormed.update {κ : Type} {gs : Groups} (wf : gs.WellFormed) {k : GroupId}
    {g g' : Group} {r : BufferReport κ} (hg : gs.get? k = some g) (h : g.update r = .ok g') :
    WellFormed (gs.insert k g') := by
  obtain ⟨c, hc, rfl⟩ := update_ok h
  have hwho : gs.channel? (k, r.channel) = some c := by rw [channel?_of_get? hg, hc]
  obtain ⟨hid, hgroup⟩ := wf.channel_id _ c hwho
  refine wf.insert_channel hg hid hgroup ?_
  intro who hsome heq
  exact congrArg Prod.fst (wf.once who (k, r.channel) hsome (by simp [hwho]) heq)

/-- A report goes to the group that holds its channel. -/
theorem updates_ok {κ : Type} {gs gs' : Groups} {k : GroupId} {r : BufferReport κ}
    (h : gs.update r = .ok (k, gs')) :
    ∃ g g', gs.get? k = some g ∧ g.update r = .ok g' ∧ gs' = gs.insert k g' := by
  unfold Groups.update at h
  split at h
  · cases h
  · next key g hheld =>
    simp only [bind_ok_iff, pure_ok_iff, Prod.mk.injEq] at h
    obtain ⟨g', hg', rfl, rfl⟩ := h
    exact ⟨g, g', holding?_some hheld, hg', rfl⟩

theorem WellFormed.updates {κ : Type} {gs gs' : Groups} (wf : gs.WellFormed) {k : GroupId}
    {r : BufferReport κ} (h : gs.update r = .ok (k, gs')) : gs'.WellFormed := by
  obtain ⟨g, g', hg, hupdate, rfl⟩ := updates_ok h
  exact wf.update hg hupdate

theorem isSome_channel?_update {κ : Type} {gs : Groups} {k : GroupId} {g g' : Group}
    {r : BufferReport κ} (hg : gs.get? k = some g) (h : g.update r = .ok g')
    (who : GroupId × ChannelId) :
    (channel? (gs.insert k g') who).isSome = (gs.channel? who).isSome := by
  obtain ⟨c, hc, rfl⟩ := update_ok h
  rw [channel?_insert hg]
  split
  · next hw => simp [hw, channel?_of_get? hg, hc]
  · rfl

end Groups

end Airtime
