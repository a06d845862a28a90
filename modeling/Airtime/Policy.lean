import Airtime.User

/-!
Who goes first. An allocation ranks the contenders before every unit it grants; policies differ in
the ranking and in what they note down when a unit is granted or missed.
-/

namespace Airtime

structure Resources where
  /-- Units of one resource block group for one symbol. -/
  rbg : UInt32
  sym : UInt32
  deriving DecidableEq, Repr

def LinkState.resources (s : LinkState) : Resources := ⟨s.rbg, s.sym⟩

structure Contender where
  user : User
  backlog : UInt32

def Contender.modify (c : Contender) (d : Direction) (f : LinkState → LinkState) : Contender :=
  { c with user := c.user.modify d f }

structure Contest where
  direction : Direction
  link : LinkModel
  blocksPerGroup : UInt32

def Contest.achievable (k : Contest) (c : Contender) : Except Fault UInt32 :=
  (c.user.link k.direction).achievable k.link k.blocksPerGroup

inductive Policy where
  | roundRobin
  | maxRate
  /-- The best ratio of potential to average throughput goes first. The average runs over `window`
  slots; `fairness` is the exponent of the potential. -/
  | proportionalFair (window fairness : Float)

namespace Policy

def fairDefault : Policy := proportionalFair 99 1

def name : Policy → String
  | roundRobin => "rr"
  | maxRate => "mr"
  | proportionalFair .. => "pf"

def larger (x y : Float) : Float := if x.isNaN then y else if y.isNaN || y < x then x else y

/-- Potential over average throughput; an average below `1e-9` counts as that. -/
def metric (fairness : Float) (t : Throughput) : Float :=
  t.potential.pow fairness / larger t.average 1e-9

/-- Larger numbers come first; numbers that cannot be compared are level. -/
def descending (x y : Float) : Ordering :=
  if y < x then .lt else if x < y then .gt else .eq

/-- `lt` when the first contender goes first. -/
def compare (p : Policy) (d : Direction) (a b : Contender) : Ordering :=
  let s := a.user.link d
  let t := b.user.link d
  match p with
  | roundRobin => Ord.compare s.rbg t.rbg
  | maxRate => Ord.compare t.mcs s.mcs
  | proportionalFair _ fairness =>
    descending (metric fairness s.throughput) (metric fairness t.throughput)

def updateAverage (window : Float) (t : Throughput) : Throughput :=
  let weight := 1 / window
  { t with average := (1 - weight) * t.lastAverage + weight * t.current }

def prepare (p : Policy) (k : Contest) (assignable : Resources) (c : Contender) :
    Except Fault Contender :=
  match p with
  | proportionalFair .. => do
    let units ← Word.mul assignable.rbg k.blocksPerGroup
    let bytes := k.link.blockSize (c.user.link k.direction).mcs units
    return c.modify k.direction fun s =>
      { s with throughput.potential := bytes.toFloat / (max assignable.sym 1).toFloat }
  | _ => .ok c

/-- The contender won a round; its resources already hold the unit. -/
def recordGrant (p : Policy) (k : Contest) (c : Contender) : Except Fault Contender :=
  match p with
  | proportionalFair window _ => do
    let bytes ← k.achievable c
    return c.modify k.direction fun s =>
      let t := { s.throughput with current := bytes.toFloat / (max s.sym 1).toFloat }
      { s with throughput := updateAverage window t }
  | _ => .ok c

def recordMiss (p : Policy) (k : Contest) (c : Contender) : Contender :=
  match p with
  | proportionalFair window _ =>
    c.modify k.direction fun s => { s with throughput := updateAverage window s.throughput }
  | _ => c

end Policy

end Airtime
