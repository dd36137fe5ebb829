/-!
# Sets of characters as ranges

A set of characters is given as the increasing list of the ranges of its code points. The property
tables of this folder are such lists.
-/

namespace CalcShell.Text

/-- A set of code points: inclusive ranges, in increasing order and disjoint. -/
abbrev Ranges := List (Nat × Nat)

/-- Whether code point `n` lies in one of the ranges. The search ends at the first range that starts
above `n`. -/
def Ranges.mem : Ranges → Nat → Bool
  | [], _ => false
  | (lo, hi) :: rest, n => if n < lo then false else if n ≤ hi then true else Ranges.mem rest n

/-- Whether character `c` lies in one of the ranges. -/
def Ranges.contains (rs : Ranges) (c : Char) : Bool := rs.mem c.toNat

/-- A code point that is found lies in one of the ranges. -/
theorem Ranges.exists_of_mem {rs : Ranges} {n : Nat} (h : rs.mem n = true) :
    ∃ r ∈ rs, r.1 ≤ n ∧ n ≤ r.2 := by
  induction rs with
  | nil => simp [Ranges.mem] at h
  | cons r rest ih =>
    obtain ⟨lo, hi⟩ := r
    simp only [Ranges.mem] at h
    split at h
    · simp at h
    · split at h
      · exact ⟨(lo, hi), by simp, by omega, by assumption⟩
      · obtain ⟨r, hr, hb⟩ := ih h
        exact ⟨r, by simp [hr], hb⟩

end CalcShell.Text
