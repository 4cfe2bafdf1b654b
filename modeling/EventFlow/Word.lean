/-!
Numbers of 64 bits.
-/

namespace EventFlow.Word

def limit : Nat := Nat.pow 2 64

def checkedMul (a b : Nat) : Option Nat := if a * b < limit then some (a * b) else none

def saturatingMul (a b : Nat) : Nat := min (a * b) (limit - 1)

abbrev Signed (z : Int) : Prop := -9223372036854775808 ≤ z ∧ z ≤ 9223372036854775807

end EventFlow.Word
