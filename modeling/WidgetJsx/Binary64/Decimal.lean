import WidgetJsx.Binary64.Basic

/-! Decimals as numbers are written, and the floating-point number nearest to one. -/

namespace WidgetJsx

/-- The decimal `digits * 10 ^ exponent`. -/
structure Decimal where
  digits : Nat
  exponent : Int
deriving DecidableEq, Repr

namespace Decimal

def pow10 (n : Nat) : Nat := Nat.pow 10 n

def ratio (d : Decimal) : Nat × Nat :=
  (d.digits * pow10 d.exponent.toNat, pow10 (-d.exponent).toNat)

/-- The number nearest to a decimal. Where the exponent alone decides that it is too large or too
small for any magnitude but zero, the powers are not worked out. -/
def nearest (negative : Bool) (d : Decimal) : Binary64 :=
  if d.digits = 0 ∨ d.exponent + (Nat.log2 d.digits + 1) < -400 then .signedZero negative
  else if 400 < d.exponent then .infinite negative
  else .ofRatio negative d.ratio.1 d.ratio.2

/-- The number that digits in base ten stand for, digit after digit. -/
def foldDigits (n : Nat) (cs : List Char) : Nat :=
  cs.foldl (fun n c => 10 * n + (c.toNat - '0'.toNat)) n

/-- The number that the first digits of a text stand for. Many digits are halved, so that a long
text is not gone through with a long number in hand. -/
def ofFirstDigits (count : Nat) (cs : List Char) : Nat :=
  if count ≤ 64 then foldDigits 0 (cs.take count)
  else
    ofFirstDigits (count / 2) cs * pow10 (count - count / 2) +
      ofFirstDigits (count - count / 2) (cs.drop (count / 2))
termination_by count

def ofDigits (cs : List Char) : Nat := ofFirstDigits cs.length cs

theorem foldDigits_eq (n : Nat) (cs : List Char) :
    foldDigits n cs = n * pow10 cs.length + foldDigits 0 cs := by
  induction cs generalizing n with
  | nil => simp [foldDigits, pow10]
  | cons c cs ih =>
    have step (m : Nat) :
        foldDigits m (c :: cs) = foldDigits (10 * m + (c.toNat - '0'.toNat)) cs := rfl
    have power : pow10 (c :: cs).length = pow10 cs.length * 10 := rfl
    rw [step, step, ih, ih (10 * 0 + _), power]
    grind

theorem foldDigits_append (n : Nat) (cs ds : List Char) :
    foldDigits n (cs ++ ds) = foldDigits (foldDigits n cs) ds := by
  simp [foldDigits]

theorem ofFirstDigits_eq {count : Nat} {cs : List Char} (h : count ≤ cs.length) :
    ofFirstDigits count cs = foldDigits 0 (cs.take count) := by
  induction count using Nat.strongRecOn generalizing cs with
  | _ count ih =>
    rw [ofFirstDigits]
    split
    · rfl
    · have low := ih (count / 2) (by omega) (show count / 2 ≤ cs.length by omega)
      have high := ih (count - count / 2) (by omega)
        (show count - count / 2 ≤ (cs.drop (count / 2)).length by rw [List.length_drop]; omega)
      have split : cs.take count =
          cs.take (count / 2) ++ (cs.drop (count / 2)).take (count - count / 2) := by
        rw [← List.take_add]
        congr 1
        omega
      have length : ((cs.drop (count / 2)).take (count - count / 2)).length =
          count - count / 2 := by
        rw [List.length_take, List.length_drop]
        omega
      rw [low, high, split, foldDigits_append, foldDigits_eq (foldDigits 0 _), length]

theorem ofDigits_eq (cs : List Char) : ofDigits cs = foldDigits 0 cs := by
  rw [ofDigits, ofFirstDigits_eq (Nat.le_refl _), List.take_length]

def ofParts (whole fraction : List Char) : Decimal :=
  ⟨ofDigits (whole ++ fraction), -fraction.length⟩

/-- Reads digits that may have a point among them. -/
def ofList (cs : List Char) : Decimal :=
  ofParts (cs.takeWhile Char.isDigit) ((cs.dropWhile Char.isDigit).drop 1)

end Decimal

namespace Binary64

/-- Reads the exponent that may follow a decimal. -/
def readExponent? : List Char → Option Int
  | [] => some 0
  | e :: cs =>
    if e ≠ 'e' ∧ e ≠ 'E' then none
    else
      let (negative, cs) := match cs with
        | '-' :: cs => (true, cs)
        | '+' :: cs => (false, cs)
        | cs => (false, cs)
      if cs.isEmpty || !cs.all Char.isDigit then none
      else
        let n := Decimal.ofDigits cs
        some (if negative then -n else n)

def readMagnitude? (negative : Bool) (cs : List Char) : Option Binary64 :=
  let lower := String.ofList (cs.map Char.toLower)
  if lower = "nan" then some .nan
  else if lower = "inf" ∨ lower = "infinity" then some (.infinite negative)
  else
    let whole := cs.takeWhile Char.isDigit
    let behind := cs.dropWhile Char.isDigit
    let (fraction, behind) := match behind with
      | '.' :: cs => (cs.takeWhile Char.isDigit, cs.dropWhile Char.isDigit)
      | cs => ([], cs)
    if whole.isEmpty && fraction.isEmpty then none
    else
      let d := Decimal.ofParts whole fraction
      (readExponent? behind).map fun e => ({ d with exponent := d.exponent + e }).nearest negative

/-- Reads a number: a sign, then a decimal with an exponent, `inf`, `infinity` or `nan`. -/
def read? (s : String) : Option Binary64 :=
  match s.toList with
  | '-' :: cs => readMagnitude? true cs
  | '+' :: cs => readMagnitude? false cs
  | cs => readMagnitude? false cs

end Binary64

end WidgetJsx
