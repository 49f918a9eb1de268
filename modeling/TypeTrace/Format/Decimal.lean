/-!
# Decimal texts of binary numbers

A number that is written in decimals is kept as the nearest binary number of 53 bits,
and shown with the fewest decimal digits that lead back to it.  It is written out in
full, without an exponent, and always with a point.
-/

namespace TypeTrace.Decimal

/-- A number as it is kept. -/
inductive Number where
  /-- The number `mantissa * 2 ^ exponent`, or its negative. -/
  | finite (negative : Bool) (mantissa : Nat) (exponent : Int)
  | infinite (negative : Bool)
  | undefined
  deriving Repr, DecidableEq, Inhabited

/-- Powers of ten beyond this one are too large or too small to be kept. -/
def maxPower : Int := 400

/-- The mantissas from here on are normal, `2 ^ 52`. -/
def leastNormal : Nat := 0x10000000000000

/-- The number that 64 bits stand for, without their sign. -/
def ofBits (negative : Bool) (bits : Nat) : Number :=
  let fraction : Nat := bits % leastNormal
  let field : Nat := bits / leastNormal % 2048
  if field = 2047 then .infinite negative
  else if field = 0 then .finite negative fraction (-1074)
  else .finite negative (leastNormal + fraction) ((field : Int) - 1075)

/-- The number nearest to `digits * 10 ^ power`. -/
def nearest (negative : Bool) (digits : Nat) (power : Int) : Number :=
  let size : Int := power + (Nat.toDigits 10 digits).length
  if digits = 0 ∨ size < -maxPower then
    .finite negative 0 (-1074)
  else if maxPower < size then
    .infinite negative
  else
    ofBits negative (Float.ofScientific digits (power < 0) power.natAbs).toBits.toNat

/-- A power with an exponent below zero taken as one. -/
def powerOf (base : Nat) (exponent : Int) : Nat := base.pow exponent.toNat

/-- Decimal digits and a power of ten: the number `digits * 10 ^ power`. -/
structure Digits where
  digits : Nat
  power : Int
  deriving Repr, DecidableEq, Inhabited

/-- The decimals with a given power of ten that are nearest to a number, if they lead
back to it.  A decimal leads back if it is closer to the number than to its neighbours;
half way counts for an even mantissa. -/
def atPower? (mantissa : Nat) (exponent power : Int) : Option Digits :=
  let narrow := mantissa = leastNormal ∧ -1074 < exponent
  let low := 4 * mantissa - (if narrow then 1 else 2)
  let high := 4 * mantissa + 2
  let scale := powerOf 10 power * powerOf 2 (2 - exponent)
  let unit := powerOf 10 (-power) * powerOf 2 (exponent - 2)
  let below := 4 * mantissa * unit / scale
  let leadsBack := fun candidate =>
    if mantissa % 2 = 0 then
      low * unit ≤ candidate * scale ∧ candidate * scale ≤ high * unit
    else
      low * unit < candidate * scale ∧ candidate * scale < high * unit
  let nearer :=
    if 8 * mantissa * unit < (2 * below + 1) * scale then below else below + 1
  let other := if nearer = below then below + 1 else below
  if leadsBack nearer then some ⟨nearer, power⟩
  else if leadsBack other then some ⟨other, power⟩
  else none

/-- The least power of ten above a number. -/
def ceilingPower (mantissa : Nat) (exponent : Int) : Int :=
  let candidates := (List.range 640).map fun (index : Nat) => (index : Int) - 330
  (candidates.find? fun power =>
    mantissa * powerOf 2 exponent * powerOf 10 (-power) <
      powerOf 10 power * powerOf 2 (-exponent)).getD 310

/-- The fewest digits that lead back to a number. -/
def shortest (mantissa : Nat) (exponent : Int) : Digits :=
  let top := ceilingPower mantissa exponent
  let powers := (List.range 18).map fun (index : Nat) => top - (index : Int)
  (powers.findSome? (atPower? mantissa exponent)).getD ⟨0, 0⟩

/-- Digits and a power of ten, written out with a point. -/
def Digits.text (number : Digits) : String :=
  let digits := Nat.toDigits 10 number.digits
  let zeros := fun count => List.replicate count '0'
  if 0 ≤ number.power then
    String.ofList (digits ++ zeros number.power.toNat ++ ['.', '0'])
  else
    let places := (-number.power).toNat
    let padded := zeros (places + 1 - digits.length) ++ digits
    let whole := padded.length - places
    String.ofList (padded.take whole ++ ['.'] ++ padded.drop whole)

/-- The text of a number. -/
def Number.text : Number → String
  | .finite negative mantissa exponent =>
      (if negative then "-" else "") ++
        (if mantissa = 0 then "0.0" else (shortest mantissa exponent).text)
  | .infinite negative => if negative then "-inf" else "inf"
  | .undefined => "NaN"

end TypeTrace.Decimal
