import Airtime.Message
import Airtime.Refusal

/-!
Logical channels, their groups, and the bytes waiting on them. `Groups.fill` shares a transport
block out: every channel with data gets the same share, what a channel cannot use is shared again,
until the block is full or nothing waits.
-/

namespace Airtime

structure Channel where
  id : ChannelId
  group : GroupId
  priority : UInt8
  tx : UInt32
  txDelay : UInt16
  retx : UInt32
  retxDelay : UInt16
  status : UInt32
  deriving DecidableEq, Repr

namespace Channel

def fresh (id : ChannelId) (group : GroupId) (priority : UInt8) : Channel :=
  { id, group, priority, tx := 0, txDelay := 0, retx := 0, retxDelay := 0, status := 0 }

def total (c : Channel) : Except Fault UInt32 := do
  Word.add (← Word.add c.tx c.retx) c.status

def update {κ : Type} (c : Channel) (r : BufferReport κ) : Channel :=
  { c with
    tx := r.tx, txDelay := r.txDelay, retx := r.retx, retxDelay := r.retxDelay,
    status := r.status.toUInt32 }

def takeFrom (queue left : UInt32) : Except Fault (UInt32 × UInt32) := do
  let taken := min left queue
  return (← Word.sub queue taken, ← Word.sub left taken)

/-- Takes up to `bytes` from the three queues in turn. Also gives the number of bytes taken. It never
leaves the range (`consume_eq`). -/
def consume (c : Channel) (bytes : UInt32) : Except Fault (Channel × UInt32) := do
  let (status, left) ← takeFrom c.status bytes
  let (retx, left) ← takeFrom c.retx left
  let (tx, left) ← takeFrom c.tx left
  return ({ c with status, retx, tx }, ← Word.sub bytes left)

/-- Takes up to `bytes`: status first, then retransmissions, then new data. Also gives the number of
bytes taken. -/
def drain (c : Channel) (bytes : UInt32) : Channel × UInt32 :=
  let fromStatus := min bytes c.status
  let fromRetx := min (bytes - fromStatus) c.retx
  let fromTx := min (bytes - fromStatus - fromRetx) c.tx
  ({ c with status := c.status - fromStatus, retx := c.retx - fromRetx, tx := c.tx - fromTx },
    fromStatus + fromRetx + fromTx)

end Channel

structure Group where
  id : GroupId
  channels : Table ChannelId Channel

namespace Group

def empty (id : GroupId) : Group := ⟨id, ∅⟩

def insert (g : Group) (c : Channel) : Except Refusal Group :=
  if c.group ≠ g.id then .error (.groupMismatch c.id c.group g.id)
  else if g.channels.contains c.id then .error (.duplicateChannel g.id c.id)
  else .ok { g with channels := g.channels.insert c.id c }

def contains (g : Group) (c : ChannelId) : Bool := g.channels.contains c

def update {κ : Type} (g : Group) (r : BufferReport κ) : Except Refusal Group :=
  match g.channels.get? r.channel with
  | none => .error (.unknownChannel r.channel)
  | some c => .ok { g with channels := g.channels.insert r.channel (c.update r) }

def total (g : Group) : Except Fault UInt32 := do
  Word.sum (← g.channels.values.mapM Channel.total)

end Group

abbrev Groups := Table GroupId Group

namespace Groups

def total (gs : Groups) : Except Fault UInt32 := do
  Word.sum (← gs.values.mapM Group.total)

/-- The first group that holds a channel, with the key it is stored under. -/
def holding? (gs : Groups) (c : ChannelId) : Option (GroupId × Group) :=
  gs.entries.find? fun e => e.2.contains c

def update {κ : Type} (gs : Groups) (r : BufferReport κ) : Except Refusal (GroupId × Groups) :=
  match gs.holding? r.channel with
  | none => .error (.unknownChannel r.channel)
  | some (key, g) => do return (key, gs.insert key (← g.update r))

def backlogged (gs : Groups) : Except Fault (List (GroupId × ChannelId)) := do
  let perGroup ← gs.values.mapM fun g => do
    let totals ← g.channels.values.mapM fun c => do return (c.id, ← c.total)
    return (totals.filter fun t => t.2 ≠ 0).map fun t => (g.id, t.1)
  return perGroup.flatten

/-- A block being filled: what is left of it, and what was given to each channel. -/
structure Filling where
  groups : Groups
  left : UInt32
  given : Table (GroupId × ChannelId) UInt32

def Filling.serve (share : UInt32) (f : Filling) (who : GroupId × ChannelId) :
    Except Fault Filling :=
  if f.left = 0 then .ok f
  else
    match f.groups.get? who.1 with
    | none => .ok f
    | some g =>
      match g.channels.get? who.2 with
      | none => .ok f
      | some c => do
        let (c, taken) ← c.consume (min share f.left)
        let g := { g with channels := g.channels.insert who.2 c }
        let left ← Word.sub f.left taken
        let given ← Word.add ((f.given.get? who).getD 0) taken
        return ⟨f.groups.insert who.1 g, left, f.given.insert who given⟩

/-- One round: an equal share for each channel with data, at least one byte. -/
def Filling.round (f : Filling) : Except Fault Filling := do
  let active ← f.groups.backlogged
  if active.isEmpty then return f
  else
    let share := max (← Word.div f.left (UInt32.ofNat active.length)) 1
    active.foldlM (Filling.serve share) f

/-- Rounds until the block is full or a round gives nothing. -/
def Filling.run (f : Filling) : Except Fault Filling :=
  if f.left = 0 then .ok f
  else
    match f.round with
    | .error e => .error e
    | .ok f' => if f'.left < f.left then f'.run else .ok f'
termination_by f.left.toNat
decreasing_by simpa [UInt32.lt_iff_toNat_lt] using ‹f'.left < f.left›

def fill (gs : Groups) (bytes : UInt32) : Except Fault (List Pdu × Groups) := do
  let f ← Filling.run ⟨gs, bytes, ∅⟩
  let pdus := f.given.entries.filterMap fun ((group, channel), size) =>
    if size = 0 then none else some { group, channel, size }
  return (pdus, f.groups)

end Groups

end Airtime
