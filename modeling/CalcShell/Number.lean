import CalcShell.Text.Natural

/-!
# Numbers

The integers of the language: those that fit in 64 bits with sign. An operation gives its exact
result or none at all, never one that wraps around.
-/

namespace CalcShell

/-- The least number, the negated 63rd power of two. -/
def minNumber : Int := -9223372036854775808

/-- The greatest number, one below the 63rd power of two. -/
def maxNumber : Int := 9223372036854775807

/-- An integer between `minNumber` and `maxNumber`. -/
structure Number where
  /-- The integer itself. -/
  toInt : Int
  /-- It is not too small. -/
  min_le : minNumber ≤ toInt
  /-- It is not too large. -/
  le_max : toInt ≤ maxNumber
deriving DecidableEq

namespace Number

/-- Two numbers with the same integer are the same. -/
@[ext]
theorem ext {a b : Number} (h : a.toInt = b.toInt) : a = b := by
  cases a; cases b; simp_all

/-- The number for `n`, if it is in range. -/
def ofInt? (n : Int) : Option Number :=
  if h : minNumber ≤ n ∧ n ≤ maxNumber then some ⟨n, h.1, h.2⟩ else none

/-- A number exists exactly for the integers in range. -/
theorem ofInt?_eq_some {n : Int} {a : Number} : ofInt? n = some a ↔ a.toInt = n := by
  unfold ofInt?
  split
  · constructor
    · intro h; cases h; rfl
    · intro h; congr 1; exact ext h.symm
  · rename_i hn
    constructor
    · simp
    · intro h; exact absurd ⟨h ▸ a.min_le, h ▸ a.le_max⟩ hn

/-- There is no number for an integer out of range. -/
theorem ofInt?_eq_none {n : Int} : ofInt? n = none ↔ n < minNumber ∨ maxNumber < n := by
  unfold ofInt?
  split
  · rename_i h
    constructor
    · intro hnone
      cases hnone
    · intro hout
      omega
  · rename_i h
    constructor
    · intro _
      omega
    · intro _
      rfl

instance : OfNat Number 0 := ⟨⟨0, by decide, by decide⟩⟩

/-- The exact negation, if it is in range. -/
def neg? (a : Number) : Option Number := ofInt? (-a.toInt)

/-- A number above the least one has a negation. -/
theorem neg?_of_minNumber_lt {n : Number} (h : minNumber < n.toInt) :
    ∃ m, n.neg? = some m ∧ m.toInt = -n.toInt := by
  have hmax := n.le_max
  unfold minNumber at h
  unfold maxNumber at hmax
  have hrange : minNumber ≤ -n.toInt ∧ -n.toInt ≤ maxNumber := by
    unfold minNumber maxNumber
    omega
  exact ⟨⟨-n.toInt, hrange.1, hrange.2⟩, ofInt?_eq_some.2 rfl, rfl⟩

/-- The exact sum, if it is in range. -/
def add? (a b : Number) : Option Number := ofInt? (a.toInt + b.toInt)

/-- The exact difference, if it is in range. -/
def sub? (a b : Number) : Option Number := ofInt? (a.toInt - b.toInt)

/-- The exact product, if it is in range. -/
def mul? (a b : Number) : Option Number := ofInt? (a.toInt * b.toInt)

/-- The quotient, cut off toward zero, if it is in range. The divisor is not zero. -/
def div? (a b : Number) : Option Number := ofInt? (a.toInt.tdiv b.toInt)

/-- The remainder that goes with `div?`: it has the sign of `a`, and there is none where there is no
quotient. The divisor is not zero. -/
def rem? (a b : Number) : Option Number :=
  (div? a b).bind fun _ => ofInt? (a.toInt.tmod b.toInt)

/-- The number for a length, which no store can make too large. -/
def ofLength (n : Nat) : Number :=
  ⟨min n maxNumber, by unfold minNumber maxNumber; omega, by unfold maxNumber; omega⟩

/-- The number in decimal. -/
def render (a : Number) : String := toString a.toInt

/-- The number of a run of ASCII digits, if it is in range. -/
def ofDigits? (ds : List Char) : Option Number :=
  ofInt? (Int.ofNat (Text.ofDigits ds))

end Number

end CalcShell
