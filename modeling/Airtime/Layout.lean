import Airtime.User

/-!
Assignments are laid out on the grid of a slot by a cursor that starts at the first data symbol:
over the whole band it moves on in time, inside a beam in frequency.
-/

namespace Airtime

structure Cursor where
  rbg : UInt32
  sym : UInt32
  deriving DecidableEq, Repr

namespace Cursor

/-- The assignment of a new block, over the given groups from the given one on. -/
def newBlock (c : Cursor) (u : User) (d : Direction) (process : ProcessId)
    (startRbg numRbg : UInt32) : Assignment :=
  let s := u.link d
  { rnti := u.rnti, beam := u.beam, direction := d, process, startRbg, numRbg, startSym := c.sym,
    numSym := s.sym, mcs := s.mcs, blockSize := s.blockSize, newData := true, redundancy := 0 }

def placeBand (c : Cursor) (u : User) (d : Direction) (groups : UInt32) (process : ProcessId) :
    Except Fault (Assignment × Cursor) := do
  return (c.newBlock u d process 0 groups, { c with sym := ← Word.add c.sym (u.link d).sym })

def placeRange (c : Cursor) (u : User) (d : Direction) (process : ProcessId) :
    Except Fault (Assignment × Cursor) := do
  let s := u.link d
  let groups ← Word.div s.rbg (max s.sym 1)
  return (c.newBlock u d process c.rbg groups, { c with rbg := ← Word.add c.rbg groups })

def nextBeam (c : Cursor) (symbols : UInt32) : Except Fault Cursor := do
  return ⟨0, ← Word.add c.sym symbols⟩

/-- Repeats an assignment at the cursor's symbol, after the given number of transmissions. -/
def placeAgain (c : Cursor) (a : Assignment) (beam : BeamId) (transmissions : UInt8) :
    Except Fault (Assignment × Cursor) := do
  let again := { a with
    beam, startSym := c.sym, newData := false, redundancy := redundancyVersion transmissions }
  return (again, { c with sym := ← Word.add c.sym a.numSym })

end Cursor

end Airtime
