/-! Floating-point numbers of 64 bits. The finite magnitudes, counted upward from zero, have ranks:
below `2 ^ 53` the steps between them are all alike, and from each further multiple of `2 ^ 52` on
they are twice as wide. Every magnitude is a whole multiple of the smallest step, `1 / 2 ^ 1074`,
so that all comparisons are between natural numbers. -/

namespace WidgetJsx

abbrev Binary64.ranks : Nat := 0x7FF0000000000000

inductive Binary64 where
  | nan
  | infinite (negative : Bool)
  | finite (negative : Bool) (rank : Fin Binary64.ranks)
deriving DecidableEq, Repr

namespace Binary64

def one : Nat := 1 <<< 1074

/-- The number of magnitudes before the steps between them are twice as wide. -/
def period : Nat := 1 <<< 52

/-- The magnitude with a given rank, in smallest steps. -/
def steps (rank : Nat) : Nat :=
  if rank < 2 * period then rank
  else (period + rank % period) <<< (rank / period - 1)

/-- The quotient of two numbers, rounded to the nearest, where a half goes to the even
neighbour. -/
def roundHalfEven (num den : Nat) : Nat :=
  let quotient := num / den
  let twice := 2 * (num % den)
  if den < twice ∨ (den = twice ∧ quotient % 2 = 1) then quotient + 1 else quotient

/-- The rank of the magnitude nearest to `num / den`. A rank that no finite magnitude has says that
the quotient is too large. -/
def nearestRank (num den : Nat) : Nat :=
  let scaled := num * one
  let doublings := Nat.log2 (scaled / den) - 52
  doublings * period + roundHalfEven scaled (den <<< doublings)

def ofRatio (negative : Bool) (num den : Nat) : Binary64 :=
  if h : nearestRank num den < ranks then .finite negative ⟨nearestRank num den, h⟩
  else .infinite negative

def ofInt (n : Int) : Binary64 :=
  ofRatio (n < 0) n.natAbs 1

def signedZero (negative : Bool) : Binary64 := .finite negative ⟨0, by decide⟩

def zero : Binary64 := signedZero false

def isFinite : Binary64 → Bool
  | finite _ _ => true
  | _ => false

def isZero : Binary64 → Bool
  | finite _ rank => rank.val == 0
  | _ => false

/-- Equality of values: zero has two signs, and what is not a number equals nothing. -/
def same (x y : Binary64) : Bool :=
  x ≠ .nan && (x == y || (x.isZero && y.isZero))

def toNat? : Binary64 → Option Nat
  | finite negative rank =>
    if (negative && rank.val ≠ 0) || steps rank % one ≠ 0 then none
    else some (steps rank / one)
  | _ => none

/-- The nearest whole number from 0 to 255, where halves go up. -/
def toByte : Binary64 → Nat
  | nan => 0
  | infinite negative => if negative then 0 else 255
  | finite negative rank => if negative then 0 else min 255 ((2 * steps rank + one) / (2 * one))

end Binary64

end WidgetJsx
