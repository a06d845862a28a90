import Airtime.Policy
import Airtime.Allocation.Apportion

/-!
Resources are granted in rounds of one unit each. A round ranks the contenders and grants the unit
to the first one that its resources do not satisfy yet.
-/

namespace Airtime

def minBlock : UInt32 := 7

abbrev Contenders := Table BeamId (List Contender)

namespace Contenders

def ofList (cs : List Contender) : Contenders :=
  cs.foldl (fun t c => t.insert c.user.beam ((t.get? c.user.beam).getD [] ++ [c])) ∅

def flat (t : Contenders) : List Contender := t.values.flatten

def refill (t : Contenders) (cs : List Contender) : Contenders :=
  (t.walk (m := Id) (fun rest _ old => (rest.drop old.length, rest.take old.length)) cs).2

end Contenders

def Contest.wants (k : Contest) (c : Contender) : Except Fault Bool := do
  return (← k.achievable c) < max c.backlog minBlock

abbrev Seat := Contender × Nat

/-- Adds one unit to an amount of resources. -/
abbrev Grantor := Resources → Except Fault Resources

def Grantor.toState (grant : Grantor) (s : LinkState) : Except Fault LinkState := do
  let r ← grant s.resources
  return { s with rbg := r.rbg, sym := r.sym }

namespace Contest

variable (k : Contest) (p : Policy) (grant : Grantor)

def rank (cs : List Seat) : List Seat :=
  cs.mergeSort fun a b => p.compare k.direction a.1 b.1 != .gt

/-- One round, with `total` handed out before it. Gives the beam of the winner, what is handed out
after it and the ranked contenders, or `none` when all are satisfied. -/
def round (total : Resources) (cs : List Seat) :
    Except Fault (Option (BeamId × Resources × List Seat)) := do
  let marked ← (k.rank p cs).mapM fun s => do return (s, ← k.wants s.1)
  let content := marked.takeWhile fun m => !m.2
  match marked.drop content.length with
  | [] => return none
  | ((winner, place), _) :: others =>
    let state ← grant.toState (winner.user.link k.direction)
    let total ← grant total
    let winner ← p.recordGrant k { winner with user := winner.user.setLink k.direction state }
    let others := others.map fun ((c, place), wants) =>
      (if wants then p.recordMiss k c else c, place)
    return some (winner.user.beam, total, content.map Prod.fst ++ (winner, place) :: others)

/-- Up to `n` rounds, with what is handed out and the rounds each beam won so far. -/
def rounds : Nat → Resources → List Seat → BeamSymbols → Except Fault (List Seat × BeamSymbols)
  | 0, _, cs, won => .ok (cs, won)
  | n + 1, total, cs, won => do
    match ← k.round p grant total cs with
    | none => return (cs, won)
    | some (beam, total, cs) => rounds n total cs (← won.give beam 1)

/-- Prepares the contenders for what is assignable, runs up to `n` rounds, and gives the contenders
back in the order in which they started. -/
def run (assignable : Resources) (n : UInt32) (cs : List Contender) :
    Except Fault (List Contender × BeamSymbols) := do
  let ready ← cs.mapM (p.prepare k assignable)
  let (seats, won) ← k.rounds p grant n.toNat ⟨0, 0⟩ ready.zipIdx ∅
  return ((seats.mergeSort fun a b => a.2 ≤ b.2).map Prod.fst, won)

end Contest

end Airtime
