/-!
The fewest decimal digits that read back as a given double. `digits m q` works on the value
`m * 2 ^ q` in exact arithmetic: for one digit, two, three and so on it tries the two decimals next
to the value, and takes the first that lies among the reals that round to it.
-/

namespace EventFlow.Decimal

structure Scaled where
  coefficient : Nat
  exponent : Int
deriving DecidableEq, Inhabited

inductive Tie where
  | up
  | toEven
deriving DecidableEq

/-- A positive double as `mantissa * 2 ^ exponent`. `narrowBelow` holds when the next smaller double
is only half as far away as the next larger one. -/
structure Binary where
  mantissa : Nat
  exponent : Int
  narrowBelow : Bool
deriving DecidableEq, Inhabited

def Binary.ofBits (bits : Nat) : Binary :=
  let fraction : Nat := bits % Nat.pow 2 52
  let biased : Nat := bits / Nat.pow 2 52 % Nat.pow 2 11
  if biased = 0 then ⟨fraction, -1074, false⟩
  else ⟨Nat.pow 2 52 + fraction, (biased : Int) - 1075, decide (fraction = 0 ∧ 1 < biased)⟩

structure Ratio where
  num : Nat
  den : Nat

def Ratio.scaled (n : Nat) (e : Int) : Ratio :=
  if 0 ≤ e then ⟨n * Nat.pow 2 e.toNat, 1⟩ else ⟨n, Nat.pow 2 (-e).toNat⟩

def Ratio.shift (r : Ratio) (e : Int) : Ratio :=
  if 0 ≤ e then ⟨r.num, r.den * Nat.pow 10 e.toNat⟩
  else ⟨r.num * Nat.pow 10 (-e).toNat, r.den⟩

def Ratio.above (r : Ratio) (n : Nat) (closed : Bool) : Bool :=
  if closed then decide (n * r.den ≤ r.num) else decide (n * r.den < r.num)

def Ratio.below (r : Ratio) (n : Nat) (closed : Bool) : Bool :=
  if closed then decide (r.num ≤ n * r.den) else decide (r.num < n * r.den)

def digitCount (n : Nat) : Nat := (Nat.toDigits 10 n).length

def lift (r : Ratio) (limit : Nat) : Nat :=
  ((List.range limit).find? fun j => r.den ≤ r.num * Nat.pow 10 j).getD limit

def leading (r : Ratio) : Int :=
  if r.den ≤ r.num then (digitCount (r.num / r.den) : Int) - 1 else -(lift r 400 : Int)

/-- The whole number nearest to a fraction, of the two next to it that satisfy `ok`. -/
def nearest (r : Ratio) (tie : Tie) (ok : Nat → Bool) : Option Nat :=
  let lower := r.num / r.den
  let rest := r.num % r.den
  let upper := if rest = 0 then lower else lower + 1
  match ok lower, ok upper with
  | false, false => none
  | true, false => some lower
  | false, true => some upper
  | true, true =>
    if 2 * rest < r.den then some lower
    else if r.den < 2 * rest then some upper
    else match tie with
      | .up => some upper
      | .toEven => some (if lower % 2 = 0 then lower else upper)

def withDigits (b : Binary) (tie : Tie) (n : Nat) : Option Scaled :=
  let value := Ratio.scaled (4 * b.mantissa) (b.exponent - 2)
  let low := Ratio.scaled (4 * b.mantissa - (if b.narrowBelow then 1 else 2)) (b.exponent - 2)
  let high := Ratio.scaled (4 * b.mantissa + 2) (b.exponent - 2)
  let unit := leading value - (n - 1 : Nat)
  let closed := b.mantissa % 2 = 0
  let ok (c : Nat) : Bool := (low.shift unit).below c closed && (high.shift unit).above c closed
  (nearest (value.shift unit) tie ok).map fun c => ⟨c, unit⟩

def Scaled.strip (s : Scaled) : Nat → Scaled
  | 0 => s
  | n + 1 =>
    if s.coefficient % 10 = 0 ∧ s.coefficient ≠ 0 then
      Scaled.strip ⟨s.coefficient / 10, s.exponent + 1⟩ n
    else s

/-- The shortest decimal of a positive double; seventeen digits always suffice. -/
def shortest (b : Binary) (tie : Tie) : Scaled :=
  let found := (List.range 17).findSome? fun n => withDigits b tie (n + 1)
  (found.getD ⟨b.mantissa, 0⟩).strip 20

end EventFlow.Decimal
