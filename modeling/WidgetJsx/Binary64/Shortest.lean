import WidgetJsx.Binary64.Decimal

/-! The shortest decimal that reads back as a given number, and of several that short the one
nearest to it. -/

namespace WidgetJsx.Binary64

/-- Which of two decimals to take when a number lies midway between them. -/
inductive Tie where
  | up
  | even
deriving DecidableEq, Repr

def readsBack (rank : Nat) (d : Decimal) : Bool :=
  nearestRank d.ratio.1 d.ratio.2 == rank

/-- Whether a number lies above the middle between a decimal and the next one, or in the middle
where a tie goes up. -/
def goesUp (tie : Tie) (rank : Nat) (down : Decimal) : Bool :=
  let middle := Decimal.ratio ⟨2 * down.digits + 1, down.exponent⟩
  let number := 2 * steps rank * middle.2
  let bound := middle.1 * one
  bound < number || (bound == number && (tie == .up || down.digits % 2 == 1))

/-- The first digits of a magnitude, as many as have weight `10 ^ -400` or more. -/
def expansion (rank : Nat) : Nat :=
  steps rank * Decimal.pow10 400 / one

/-- A decimal of `n` digits that reads back, if there is one next to the number. -/
def candidate? (tie : Tie) (rank length n : Nat) : Option Decimal :=
  let exponent : Int := (length : Int) - n - 400
  let down : Decimal := ⟨expansion rank / Decimal.pow10 (length - n), exponent⟩
  let up : Decimal := ⟨down.digits + 1, exponent⟩
  if readsBack rank down then
    some (if readsBack rank up && goesUp tie rank down then up else down)
  else if readsBack rank up then some up
  else none

/-- Ten of one place are written as one of the next. -/
def carry (d : Decimal) : Decimal :=
  if d.digits = 10 then ⟨1, d.exponent + 1⟩ else d

/-- The shortest decimal for a magnitude other than zero. Seventeen digits are always enough. -/
def shortest (tie : Tie) (rank : Nat) : Decimal :=
  let length := (Nat.toDigits 10 (expansion rank)).length
  let found := (List.range' 1 17).findSome? (candidate? tie rank length)
  (found.map carry).getD ⟨expansion rank, -400⟩

end WidgetJsx.Binary64
