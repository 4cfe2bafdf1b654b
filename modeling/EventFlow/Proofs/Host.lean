import EventFlow.Host

/-!
What holds of any host. Where numbers have 64 bits all hosts agree; where they do not, a host that
checks them breaks off and nothing else can go wrong.
-/

namespace EventFlow

def Fault.IsOverflow (f : Fault) : Prop := ∃ o, f = .overflow o

namespace Word

variable {o : Operation} {n m : Nat} {z a b : Int} {fault : Fault}

theorem quotient_error (divisor : b ≠ 0) (h : quotient a b = .error fault) : fault.IsOverflow := by
  unfold quotient at h
  rw [if_neg divisor] at h
  split at h
  · cases h
  · cases h
    exact ⟨.divide, rfl⟩

theorem quotient_of_fits (divisor : b ≠ 0) (fits : Signed (a.tdiv b)) :
    quotient a b = .ok (a.tdiv b) := by
  rw [quotient, if_neg divisor, if_pos fits]

variable [Host]

theorem unsigned_of_lt (fits : n < limit) : unsigned o n = .ok n := if_pos fits

theorem signed_of_fits (fits : Signed z) : signed o z = .ok z := if_pos fits

theorem unsigned_error (h : unsigned o n = .error fault) : fault.IsOverflow := by
  unfold unsigned at h
  split at h
  · cases h
  · split at h
    · cases h
      exact ⟨o, rfl⟩
    · cases h

theorem signed_error (h : signed o z = .error fault) : fault.IsOverflow := by
  unfold signed at h
  split at h
  · cases h
  · split at h
    · cases h
      exact ⟨o, rfl⟩
    · cases h

/-- A number that has 64 bits if it is taken for what it is: a host that wraps takes the others for
smaller ones. -/
def Countable (n : Nat) : Prop := Host.overflow = .breaksOff ∨ n < limit

theorem Countable.unsigned (countable : Countable n) (h : unsigned o n = .ok m) :
    n < limit ∧ m = n := by
  unfold Word.unsigned at h
  split at h
  · rename_i fits
    cases h
    exact ⟨fits, rfl⟩
  · rename_i large
    obtain breaks | small := countable
    · rw [breaks] at h
      cases h
    · exact absurd small large

end Word
end EventFlow
