import WidgetJsx.Json.Basic
import WidgetJsx.Json.Fault
import WidgetJsx.Binary64.Decimal

/-! Reading JSON numbers. A whole number that 64 bits hold is kept as it is. Any other number is
worked out in two steps that round: its leading digits, as many as 64 bits hold, become a number,
and that is multiplied or divided by a power of ten. -/

namespace WidgetJsx.Json

/-- Why a word or number is not read, and how many bytes of it were looked at. -/
structure Flaw where
  cause : Cause
  bytes : Nat
deriving DecidableEq, Repr

namespace Number

/-- The largest significand and the largest exponent that are kept. -/
def significandBound : Nat := 0xFFFFFFFFFFFFFFFF
def exponentBound : Nat := 0x7FFFFFFF

/-- Appends digits to a number for as long as it stays within a bound; gives it and the number of
digits that were appended. -/
def appendDigits (bound : Nat) (n taken : Nat) : List Char → Nat × Nat
  | [] => (n, taken)
  | c :: cs =>
    let next := 10 * n + (c.toNat - '0'.toNat)
    if next ≤ bound then appendDigits bound next (taken + 1) cs else (n, taken)

/-- The largest power of ten that is a finite number, as an exponent. -/
def powerBound : Nat := 308

def powerRank (exponent : Nat) : Nat :=
  Binary64.nearestRank (Decimal.pow10 exponent) 1

/-- Divides a magnitude by a power of ten, in as many steps as that takes; two are enough to bring
any significand to zero. -/
def divided : Nat → Nat → Nat → Nat
  | 0, _, _ => 0
  | steps + 1, rank, exponent =>
    if exponent ≤ powerBound then
      Binary64.nearestRank (Binary64.steps rank) (Binary64.steps (powerRank exponent))
    else
      divided steps
        (Binary64.nearestRank (Binary64.steps rank) (Binary64.steps (powerRank powerBound)))
        (exponent - powerBound)

/-- The number `significand * 10 ^ exponent`; none if it is too large. -/
def scaled? (negative : Bool) (significand : Nat) (exponent : Int) : Option Number :=
  let rank := Binary64.nearestRank significand 1
  let result : Option Nat :=
    if exponent < 0 then some (divided 4 rank exponent.natAbs)
    else if exponent ≤ powerBound then
      some (Binary64.nearestRank
        (Binary64.steps rank * Binary64.steps (powerRank exponent.toNat))
        (Binary64.one * Binary64.one))
    else if rank = 0 then some 0
    else none
  result.bind fun rank =>
    if h : rank < Binary64.ranks then some (.float (.finite negative ⟨rank, h⟩)) else none

/-- A number without a fraction or an exponent. Zero with a minus sign is no whole number. -/
def ofSignificand (negative : Bool) (n : Nat) : Number :=
  if !negative then .integer n
  else if 0 < n ∧ n ≤ 0x8000000000000000 then .integer (-n)
  else .float (.ofRatio true n 1)

/-- Reads from an exponent on, if there is one. `length` characters stand before. -/
def readExponent (negative : Bool) (significand : Nat) (exponent : Int) (length : Nat)
    (cs : List Char) : Except Flaw (Number × Nat) :=
  let finish (exponent : Int) (length : Nat) : Except Flaw (Number × Nat) :=
    match scaled? negative significand exponent with
    | some n => .ok (n, length)
    | none => .error ⟨.numberOutOfRange, length⟩
  match cs with
  | [] => finish exponent length
  | e :: cs =>
    if e ≠ 'e' ∧ e ≠ 'E' then finish exponent length
    else
      let (below, length, cs) := match cs with
        | '-' :: cs => (true, length + 2, cs)
        | '+' :: cs => (false, length + 2, cs)
        | cs => (false, length + 1, cs)
      let digits := cs.takeWhile Char.isDigit
      if cs.isEmpty then .error ⟨.endInValue, length⟩
      else if digits.isEmpty then .error ⟨.invalidNumber, length + 1⟩
      else
        let (power, taken) := appendDigits exponentBound 0 0 digits
        if taken < digits.length then
          if significand ≠ 0 ∧ !below then .error ⟨.numberOutOfRange, length + taken + 1⟩
          else .ok (.float (.signedZero negative), length + digits.length)
        else finish (if below then exponent - power else exponent + power) (length + taken)

/-- Reads behind the sign. -/
def readUnsigned (negative : Bool) (length : Nat) (cs : List Char) : Except Flaw (Number × Nat) :=
  let whole := cs.takeWhile Char.isDigit
  match whole with
  | [] => .error (if cs.isEmpty then ⟨.endInValue, length⟩ else ⟨.invalidNumber, length + 1⟩)
  | '0' :: _ :: _ => .error ⟨.invalidNumber, length + 2⟩
  | _ =>
    let (significand, taken) := appendDigits significandBound 0 0 whole
    let dropped := whole.length - taken
    let length := length + whole.length
    match cs.drop whole.length with
    | '.' :: cs =>
      let fraction := cs.takeWhile Char.isDigit
      let behind := cs.drop fraction.length
      if fraction.isEmpty then
        .error (if cs.isEmpty then ⟨.endInValue, length + 1⟩ else ⟨.invalidNumber, length + 2⟩)
      else
        let (significand, taken) := appendDigits significandBound significand 0 fraction
        readExponent negative significand ((dropped : Int) - taken) (length + 1 + fraction.length)
          behind
    | behind =>
      if dropped = 0 ∧ behind.head? ≠ some 'e' ∧ behind.head? ≠ some 'E' then
        .ok (ofSignificand negative significand, length)
      else readExponent negative significand dropped length behind

def read (cs : List Char) : Except Flaw (Number × Nat) :=
  match cs with
  | '-' :: cs => readUnsigned true 1 cs
  | cs => readUnsigned false 0 cs

end Number

end WidgetJsx.Json
