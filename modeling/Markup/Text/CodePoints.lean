/-!
# Sets of code points

A Unicode property is kept as the closed ranges of code points that have it, in ascending order.
Membership walks the ranges and stops at the first one that begins past the code point.
-/

namespace Markup.Text

/-- Whether a code point lies in one of the ascending closed ranges. -/
def covers : List (Nat × Nat) → Nat → Bool
  | [], _ => false
  | (lo, hi) :: rest, n =>
    if n < lo then false
    else if n ≤ hi then true
    else covers rest n

/-- Whatever the ranges cover lies in one of them. -/
theorem exists_mem_of_covers {ranges : List (Nat × Nat)} {n : Nat} (h : covers ranges n = true) :
    ∃ r ∈ ranges, r.1 ≤ n ∧ n ≤ r.2 := by
  induction ranges with
  | nil => simp [covers] at h
  | cons r rest ih =>
    obtain ⟨lo, hi⟩ := r
    simp only [covers] at h
    split at h
    · cases h
    · split at h
      · exact ⟨(lo, hi), by simp, by omega, by omega⟩
      · obtain ⟨r, hr, hn⟩ := ih h
        exact ⟨r, by simp [hr], hn⟩

end Markup.Text
