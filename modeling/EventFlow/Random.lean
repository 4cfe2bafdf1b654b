/-!
A generator of pseudo-random numbers: a 64-bit state moves by a constant, and the two halves of a
128-bit product of the state make the next word.
-/

namespace EventFlow

structure Random where
  state : Nat
deriving DecidableEq, Inhabited

namespace Random

def wordSize : Nat := Nat.pow 2 64

def halfSize : Nat := Nat.pow 2 32

def stride : Nat := 0x2d358dccaa6c78a5

def ofSeed (seed : Int) : Random := ⟨(seed % wordSize).toNat⟩

def next (r : Random) : Nat × Random :=
  let state := (r.state + stride) % wordSize
  let product := state * (state ^^^ 0x8bb84b93962eacc9)
  (product % wordSize ^^^ product / wordSize, ⟨state⟩)

def half (r : Random) : Nat × Random :=
  let (word, r) := r.next
  (word % halfSize, r)

/-- Some numbers below `n` come from one word more than others; a word is drawn again if the lower
half of its product with `n` is below the threshold. -/
def Favours (n word : Nat) : Prop := word * n % halfSize < (halfSize - n) % n

instance (n word : Nat) : Decidable (Favours n word) := inferInstanceAs (Decidable (_ < _))

/-! The stride is odd, so the states move in one circle. On it lies a state whose word no bound of 16
bits draws again, which ends the drawing. -/

def fair : Nat := 1104597884

/-- How many steps lie between a state and the fair one; the factor is the inverse of the stride. -/
def distance (state : Nat) : Nat := (fair + wordSize - state) * 3666594518771085101 % wordSize

theorem wordSize_eq : wordSize = 18446744073709551616 := rfl

theorem distance_ne_zero {s : Nat} (word : s < wordSize) (away : s ≠ fair) : distance s ≠ 0 := by
  intro zero
  have coprime : Nat.Coprime wordSize 3666594518771085101 := by decide
  obtain ⟨k, eq⟩ := coprime.dvd_of_dvd_mul_right (Nat.dvd_of_mod_eq_zero zero)
  simp only [wordSize_eq, fair] at *
  omega

theorem distance_succ {s : Nat} (word : s < wordSize) :
    (distance ((s + stride) % wordSize) + 1) % wordSize = distance s := by
  have inverse : stride * 3666594518771085101 = 1 + wordSize * 647514790463945455 := by decide
  have moved : ∃ k, fair + wordSize - s + wordSize * k =
      fair + wordSize - (s + stride) % wordSize + stride := by
    simp only [wordSize_eq, fair, stride] at *
    by_cases wraps : s + 3257665815644502181 < 18446744073709551616
    · exact ⟨0, by omega⟩
    · exact ⟨1, by omega⟩
  obtain ⟨k, moved⟩ := moved
  have scaled := congrArg (fun n => n * 3666594518771085101 % wordSize) moved
  simp only [Nat.add_mul, inverse, Nat.mul_assoc, Nat.add_mul_mod_self_left, ← Nat.add_assoc]
    at scaled
  rw [distance, distance, scaled, Nat.mod_add_mod]

theorem distance_lt {s : Nat} (word : s < wordSize) (away : s ≠ fair) :
    distance ((s + stride) % wordSize) < distance s := by
  have positive := distance_ne_zero word away
  have next := distance_succ word
  have bound : distance ((s + stride) % wordSize) < wordSize := Nat.mod_lt _ (by decide)
  simp only [wordSize_eq] at *
  omega

theorem half_fair {r : Random} (next : r.half.2.state = fair) : r.half.1 = 65536 := by
  have state : (r.state + stride) % wordSize = fair := next
  simp only [half, Random.next, state]
  decide +kernel

theorem not_favours {n : Nat} (positive : 0 < n) (bound : n < 65536) : ¬ Favours n 65536 := by
  have size : halfSize = 4294967296 := rfl
  have threshold := Nat.mod_lt (halfSize - n) positive
  simp only [Favours, size] at threshold ⊢
  omega

/-- A number below `n`: the upper half of a product with `n`, drawn again where that favours some.
Bounds have 16 bits. -/
def below (r : Random) (n : Nat) : Nat × Random :=
  if (0 < n ∧ n < 65536) ∧ Favours n r.half.1 then below r.half.2 n
  else (r.half.1 * n / halfSize, r.half.2)
termination_by distance r.half.2.state
decreasing_by
  rename_i again
  obtain ⟨⟨positive, bound⟩, favours⟩ := again
  have word : r.half.2.state < wordSize := Nat.mod_lt _ (by decide)
  exact distance_lt word fun fair => not_favours positive bound (half_fair fair ▸ favours)

def bool (r : Random) : Bool × Random :=
  let (word, r) := r.half
  (decide (word % 2 = 0), r)

end Random
end EventFlow
