import Airtime.Arithmetic

/-!
The carrier of a cell: its bandwidth, its subcarrier spacing, and the resource blocks they leave.
-/

namespace Airtime

inductive Bandwidth where
  | mhz5 | mhz10 | mhz15 | mhz20 | mhz25 | mhz30 | mhz40 | mhz50 | mhz60 | mhz80 | mhz100
  | mhz200 | mhz400
  deriving DecidableEq, Repr

namespace Bandwidth

def all : List Bandwidth :=
  [mhz5, mhz10, mhz15, mhz20, mhz25, mhz30, mhz40, mhz50, mhz60, mhz80, mhz100, mhz200, mhz400]

def mhz : Bandwidth → UInt32
  | mhz5 => 5
  | mhz10 => 10
  | mhz15 => 15
  | mhz20 => 20
  | mhz25 => 25
  | mhz30 => 30
  | mhz40 => 40
  | mhz50 => 50
  | mhz60 => 60
  | mhz80 => 80
  | mhz100 => 100
  | mhz200 => 200
  | mhz400 => 400

def hz (b : Bandwidth) : UInt32 := b.mhz * 1000000

def ofMhz? (mhz : UInt32) : Option Bandwidth := all.find? fun b => b.mhz == mhz

end Bandwidth

inductive SubcarrierSpacing where
  | khz15 | khz30 | khz60 | khz120 | khz240
  deriving DecidableEq, Repr

namespace SubcarrierSpacing

def all : List SubcarrierSpacing := [khz15, khz30, khz60, khz120, khz240]

def khz : SubcarrierSpacing → UInt16
  | khz15 => 15
  | khz30 => 30
  | khz60 => 60
  | khz120 => 120
  | khz240 => 240

def ofKhz? (khz : UInt16) : Option SubcarrierSpacing := all.find? fun s => s.khz == khz

def numerology : SubcarrierSpacing → UInt8
  | khz15 => 0
  | khz30 => 1
  | khz60 => 2
  | khz120 => 3
  | khz240 => 4

/-- Length of a slot in whole microseconds; at 240 kHz the half microsecond is dropped. -/
def slotMicros : SubcarrierSpacing → UInt32
  | khz15 => 1000
  | khz30 => 500
  | khz60 => 250
  | khz120 => 125
  | khz240 => 62

def slotsPerFrame (s : SubcarrierSpacing) : UInt16 := 10 <<< s.numerology.toUInt16

def name : SubcarrierSpacing → String
  | khz15 => "Scs15"
  | khz30 => "Scs30"
  | khz60 => "Scs60"
  | khz120 => "Scs120"
  | khz240 => "Scs240"

end SubcarrierSpacing

def subcarriersPerBlock : UInt32 := 12

/-- Whole resource blocks in a band; the count is kept in 16 bits. -/
def resourceBlocks (hz : UInt32) (khz : UInt16) : Except Fault UInt16 :=
  let spacing := khz.toUInt32 * 1000
  if spacing = 0 then .error .divide
  else .ok (hz / spacing / subcarriersPerBlock).toUInt16

/-- Whole groups of `blocksPerGroup` resource blocks in a carrier; none for empty groups. -/
def resourceBlockGroups (b : Bandwidth) (s : SubcarrierSpacing) (blocksPerGroup : UInt32) :
    Except Fault UInt32 :=
  if blocksPerGroup = 0 then .ok 0
  else do
    let blocks ← resourceBlocks b.hz s.khz
    return blocks.toUInt32 / blocksPerGroup

end Airtime
