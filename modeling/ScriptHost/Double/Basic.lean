-- Double-precision numbers as bit patterns. A pattern is a sign bit, eleven exponent bits and
-- fifty-two fraction bits. Two patterns that differ are two values here, so the two zeros and
-- all the NaNs stay apart.
import ScriptHost.Power

namespace ScriptHost

structure Double where
  bits : UInt64
  deriving DecidableEq

namespace Double

def infinityBits : UInt64 := 0x7FF0000000000000

/-- The pattern with its sign bit cleared. -/
def magnitude (d : Double) : UInt64 := d.bits &&& 0x7FFFFFFFFFFFFFFF

def isNegative (d : Double) : Bool := 0x8000000000000000 ≤ d.bits

def isNaN (d : Double) : Bool := infinityBits < d.magnitude

def isFinite (d : Double) : Bool := d.magnitude < infinityBits

def zero : Double := ⟨0⟩

def infinity : Double := ⟨infinityBits⟩

def negInfinity : Double := ⟨0xFFF0000000000000⟩

/-- The one pattern that stands for every NaN. -/
def canonicalNaN : Double := ⟨0x7FF8000000000000⟩

/-- The same number, with one pattern for all NaNs. -/
def canonical (d : Double) : Double := if d.isNaN then canonicalNaN else d

/-- A double with a given sign and a given pattern below the sign. -/
def ofMagnitude (negative : Bool) (m : UInt64) : Double :=
  ⟨if negative then m ||| 0x8000000000000000 else m⟩

/-- Equality of numbers: the two zeros are equal, and a NaN equals nothing. -/
def equals (a b : Double) : Bool :=
  !a.isNaN && !b.isNaN && (a.bits == b.bits || (a.magnitude == 0 && b.magnitude == 0))

/-! ## The number behind a pattern -/

/-- The weight of the bit before the fraction, which has fifty-two bits. -/
def leadingBit : Nat := 0x10000000000000

def exponentField (d : Double) : Nat := d.magnitude.toNat / leadingBit

def fraction (d : Double) : Nat := d.magnitude.toNat % leadingBit

/-- The fraction with its leading bit, which patterns with a zero exponent lack. -/
def significand (d : Double) : Nat :=
  if d.exponentField = 0 then d.fraction else leadingBit + d.fraction

/-- The power of two that one unit of the significand stands for. -/
def scale (d : Double) : Int := (max d.exponentField 1 : Nat) - 1075

/-- The size of a finite number is `num / den`. An infinity counts as 2 ^ 1024. -/
def num (d : Double) : Nat := d.significand * powTwo d.scale.toNat

def den (d : Double) : Nat := powTwo (-d.scale).toNat

theorem den_pos (d : Double) : 0 < d.den := powTwo_pos _

end Double

end ScriptHost
