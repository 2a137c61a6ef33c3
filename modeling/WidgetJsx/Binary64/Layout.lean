import WidgetJsx.Binary64.Shortest

/-! How the digits of a number are laid out as text. -/

namespace WidgetJsx.Binary64

structure Layout where
  tie : Tie
  /-- For which places of the point, counted from the first digit, no exponent is written. -/
  positional : Int → Bool
  /-- Whether a whole number without an exponent ends in `.0`. -/
  pointed : Bool

/-- Never an exponent, and no point in whole numbers. -/
def Layout.plain : Layout := ⟨.up, fun _ => true, false⟩

/-- An exponent from `10 ^ 16` on and below `10 ^ -5`, and a point in whole numbers. -/
def Layout.exponential : Layout := ⟨.even, fun place => -5 < place && place ≤ 16, true⟩

def zeros (n : Nat) : List Char := List.replicate n '0'

/-- Digits with the point in a given place, which may lie outside them. -/
def placePoint (pointed : Bool) (digits : List Char) (place : Int) : List Char :=
  if place ≤ 0 then ['0', '.'] ++ zeros (-place).toNat ++ digits
  else if place < digits.length then
    digits.take place.toNat ++ '.' :: digits.drop place.toNat
  else digits ++ zeros (place.toNat - digits.length) ++ if pointed then ['.', '0'] else []

/-- Digits with an exponent for the first of them. -/
def scientific (digits : List Char) (place : Int) : List Char :=
  digits.take 1 ++ (if digits.length ≤ 1 then [] else '.' :: digits.drop 1) ++
    'e' :: (toString (place - 1)).toList

def Layout.digits (layout : Layout) (d : Decimal) : List Char :=
  let digits := Nat.toDigits 10 d.digits
  let place := (digits.length : Int) + d.exponent
  if layout.positional place then placePoint layout.pointed digits place
  else scientific digits place

def Layout.magnitude (layout : Layout) (rank : Nat) : List Char :=
  if rank = 0 then if layout.pointed then ['0', '.', '0'] else ['0']
  else layout.digits (shortest layout.tie rank)

def sign (negative : Bool) : String := if negative then "-" else ""

def write (layout : Layout) : Binary64 → String
  | nan => "NaN"
  | infinite negative => sign negative ++ "Infinity"
  | finite negative rank => sign negative ++ String.ofList (layout.magnitude rank)

end WidgetJsx.Binary64
