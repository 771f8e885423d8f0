namespace Treewalk.Decimal

def digitValue (c : Char) : Nat := c.toNat - '0'.toNat

def ofDigits (digits : List Char) : Nat :=
  digits.foldl (fun n c => 10 * n + digitValue c) 0

def read (whole fraction : List Char) : Float :=
  Float.ofScientific (ofDigits (whole ++ fraction)) true fraction.length

/-- A finite double without its sign: `mantissa * 2 ^ exponent`. -/
structure Magnitude where
  mantissa : Nat
  exponent : Int
deriving DecidableEq, Repr, Inhabited

/-- `digits * 10 ^ exponent`. -/
structure Expansion where
  digits : Nat
  exponent : Int
deriving DecidableEq, Repr, Inhabited

def log10 (n : Nat) : Nat := if n < 10 then 0 else log10 (n / 10) + 1

namespace Magnitude

def ofBits (bits : UInt64) : Magnitude :=
  let fraction : Nat := bits.toNat % Nat.pow 2 52
  let field : Nat := bits.toNat / Nat.pow 2 52 % Nat.pow 2 11
  if field = 0 then ⟨fraction, -1074⟩ else ⟨Nat.pow 2 52 + fraction, (field : Int) - 1075⟩

/-- The place of the leading digit: the value lies from `10 ^ (place - 1)` up to `10 ^ place`. -/
def place (x : Magnitude) : Int :=
  let num := x.mantissa * Nat.pow 2 x.exponent.toNat
  let den := Nat.pow 2 (-x.exponent).toNat
  if den ≤ num then log10 (num / den) + 1 else -(log10 ((den - 1) / num) : Int)

/-- A quarter of the distance to the next double, and a decimal step of `10 ^ p`, on one scale. -/
def quarter (x : Magnitude) (p : Int) : Nat :=
  Nat.pow 2 (x.exponent - 2).toNat * Nat.pow 10 (-p).toNat

@[inherit_doc quarter]
def step (x : Magnitude) (p : Int) : Nat :=
  Nat.pow 2 (2 - x.exponent).toNat * Nat.pow 10 p.toNat

/-- The lower half gap, in quarters: it is narrower where the doubles below lie closer. -/
def gapBelow (x : Magnitude) : Nat :=
  if x.mantissa = Nat.pow 2 52 ∧ -1074 < x.exponent then 1 else 2

/-- Whether `d * 10 ^ p` lies among the numbers that the double is nearest to. The ends of that
stretch belong to it when the mantissa is even. -/
def readsBack (x : Magnitude) (p : Int) (d : Nat) : Bool :=
  let here := d * x.step p
  let low := (4 * x.mantissa - x.gapBelow) * x.quarter p
  let high := (4 * x.mantissa + 2) * x.quarter p
  if x.mantissa % 2 = 0 then low ≤ here && here ≤ high else low < here && here < high

/-- The closest multiple of `10 ^ p` that reads back. Of two equally close the larger is taken. -/
def onGrid? (x : Magnitude) (p : Int) : Option Expansion :=
  let value := 4 * x.mantissa * x.quarter p
  let below := value / x.step p
  let above := below + 1
  match x.readsBack p below, x.readsBack p above with
  | true, true =>
    if value - below * x.step p < above * x.step p - value then some ⟨below, p⟩
    else some ⟨above, p⟩
  | true, false => some ⟨below, p⟩
  | false, true => some ⟨above, p⟩
  | false, false => none

def exact (x : Magnitude) : Expansion :=
  if 0 ≤ x.exponent then ⟨x.mantissa * Nat.pow 2 x.exponent.toNat, 0⟩
  else ⟨x.mantissa * Nat.pow 5 (-x.exponent).toNat, x.exponent⟩

def shortest (x : Magnitude) : Expansion :=
  ((List.range 17).findSome? fun (n : Nat) => x.onGrid? (x.place - 1 - n)).getD x.exact

end Magnitude

namespace Expansion

def trim (d : Expansion) : Expansion :=
  if d.digits % 10 = 0 ∧ 0 < d.digits then trim ⟨d.digits / 10, d.exponent + 1⟩ else d
termination_by d.digits

def text (d : Expansion) : List Char :=
  let digits := Nat.toDigits 10 d.digits
  let places := (-d.exponent).toNat
  if 0 ≤ d.exponent then digits ++ List.replicate d.exponent.toNat '0'
  else if places < digits.length then
    digits.take (digits.length - places) ++ '.' :: digits.drop (digits.length - places)
  else '0' :: '.' :: List.replicate (places - digits.length) '0' ++ digits

end Expansion

/-- Zero keeps its sign; what is not a number has none. -/
def text (x : Float) : String :=
  if x.isNaN then "NaN"
  else
    let sign := if x.toBits.toNat < Nat.pow 2 63 then [] else ['-']
    if x.isInf then String.ofList (sign ++ ['i', 'n', 'f'])
    else
      let size := Magnitude.ofBits x.toBits
      let digits := if size.mantissa = 0 then ['0'] else size.shortest.trim.text
      String.ofList (sign ++ digits)

end Treewalk.Decimal
