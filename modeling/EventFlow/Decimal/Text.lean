import EventFlow.Decimal.Shortest

/-!
Doubles as text and text as doubles.
-/

namespace EventFlow.Decimal

def isNaN (f : Float) : Bool := f != f

def isNegative (f : Float) : Bool := decide (Nat.pow 2 63 ≤ f.toBits.toNat)

def isInfinite (f : Float) : Bool :=
  !isNaN f && decide (f.toBits.toNat % Nat.pow 2 63 = 0x7FF0000000000000)

def isZero (f : Float) : Bool := decide (f.toBits.toNat % Nat.pow 2 63 = 0)

def isWhole (f : Float) : Bool := f == f.floor && !isInfinite f

/-- The shortest digits of a finite double that is not zero, and the power of ten of a point put
in front of them. -/
def parts (f : Float) (tie : Tie) : String × Int :=
  let s := shortest (Binary.ofBits (f.toBits.toNat % Nat.pow 2 63)) tie
  let ds := toString s.coefficient
  (ds, s.exponent + ds.length)

def positional (ds : String) (point : Int) : String :=
  let cs := ds.toList
  if point ≤ 0 then "0." ++ "".pushn '0' (-point).toNat ++ ds
  else if (cs.length : Int) ≤ point then ds ++ "".pushn '0' (point - cs.length).toNat
  else String.ofList (cs.take point.toNat) ++ "." ++ String.ofList (cs.drop point.toNat)

def scientific (ds : String) (point : Int) : String :=
  let cs := ds.toList
  let fraction := if cs.length ≤ 1 then "" else "." ++ String.ofList (cs.drop 1)
  String.ofList (cs.take 1) ++ fraction ++ "e" ++ toString (point - 1)

def signed (f : Float) (magnitude : String) : String :=
  if isNegative f then "-" ++ magnitude else magnitude

/-- Always positional, whole numbers without a point: `1`, `0.1`, `-0`, `inf`, `NaN`. -/
def plain (f : Float) : String :=
  if isNaN f then "NaN"
  else if isInfinite f then signed f "inf"
  else if isZero f then signed f "0"
  else
    let (ds, point) := parts f .up
    signed f (positional ds point)

def bitText (f : Float) : String :=
  if isNaN f then "nan"
  else
    let ds := Nat.toDigits 16 f.toBits.toNat
    String.ofList (List.replicate (16 - ds.length) '0' ++ ds)

def infinity : Float := Float.ofBits 0x7FF0000000000000

def toDouble (coefficient : Nat) (exponent : Int) : Float :=
  let size := exponent + digitCount coefficient
  if coefficient = 0 ∨ size < -330 then 0
  else if 310 < size then infinity
  else if 0 ≤ exponent then Float.ofScientific coefficient false exponent.toNat
  else Float.ofScientific coefficient true (-exponent).toNat

def ofInt (n : Int) : Float :=
  if n < 0 then -(toDouble n.natAbs 0) else toDouble n.natAbs 0

end EventFlow.Decimal
