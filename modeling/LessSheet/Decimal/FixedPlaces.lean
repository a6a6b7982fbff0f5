/-! # Decimal text with a fixed number of places

A finite double is a whole number of units of 2⁻¹⁰⁷⁴ and a sign, so its decimal text needs integer
arithmetic only: scale by a power of ten, divide by 2¹⁰⁷⁴, round once. `roundDiv` is that one
rounding, to the nearest natural number and at a half to the even one.

`fixedPlaces` writes at most the given number of places, without zeros at the end and without a
sign before a zero. `ofDigits` reads the digits before and after a point.
-/

namespace LessSheet.Decimal

/-- The quotient rounded to the nearest natural number, a half going to the even neighbour. -/
def roundDiv (num den : Nat) : Nat :=
  let q := num / den
  let r := num % den
  if 2 * r < den then q else if den < 2 * r then q + 1 else q + q % 2

/-- The rounded quotient is at most half a unit too large. -/
theorem roundDiv_mul_le (num den : Nat) : 2 * (roundDiv num den * den) ≤ 2 * num + den := by
  have h := Nat.div_add_mod' num den
  simp only [roundDiv]
  split
  · omega
  · split
    · rw [Nat.add_mul]; omega
    · rw [Nat.add_mul]
      have h2 : num / den % 2 * den ≤ den := by
        have := Nat.mod_lt (num / den) (by decide : 0 < 2)
        exact Nat.le_trans (Nat.mul_le_mul_right den (by omega : num / den % 2 ≤ 1)) (by omega)
      omega

/-- The rounded quotient is at most half a unit too small. -/
theorem le_roundDiv_mul {num den : Nat} (hd : 0 < den) :
    2 * num ≤ 2 * (roundDiv num den * den) + den := by
  have h := Nat.div_add_mod' num den
  have hr := Nat.mod_lt num hd
  simp only [roundDiv]
  split
  · omega
  · split
    · rw [Nat.add_mul]; omega
    · rw [Nat.add_mul]; omega

/-- The sign bit of a double. -/
def isNegative (x : Float) : Bool := decide (Nat.pow 2 63 ≤ x.toBits.toNat)

/-- The magnitude of a finite double in units of 2⁻¹⁰⁷⁴. -/
def magnitude (x : Float) : Nat :=
  let fraction := x.toBits.toNat % Nat.pow 2 52
  let exponent := x.toBits.toNat / Nat.pow 2 52 % Nat.pow 2 11
  if exponent = 0 then fraction else (Nat.pow 2 52 + fraction) * Nat.pow 2 (exponent - 1)

/-- The digit of a number below ten. -/
def digit (n : Nat) : Char := Char.ofNat (48 + n % 10)

/-- The digits of `f` as `places` places after the point, up to the last that is not zero. -/
def fractionDigits : (places : Nat) → (f : Nat) → List Char
  | 0, _ => []
  | places + 1, f =>
    if f = 0 then []
    else digit (f / Nat.pow 10 places) :: fractionDigits places (f % Nat.pow 10 places)

/-- A natural number of units of 10⁻ᵖ, with `p` the number of places, as decimal text. -/
def scaledText (places n : Nat) : String :=
  let whole := toString (n / Nat.pow 10 places)
  match fractionDigits places (n % Nat.pow 10 places) with
  | [] => whole
  | ds => whole ++ "." ++ String.ofList ds

/-- A double rounded to at most `places` places after the point. -/
def fixedPlaces (places : Nat) (x : Float) : String :=
  if x.isNaN then "NaN"
  else if x.isInf then (if isNegative x then "-inf" else "inf")
  else
    let n := roundDiv (magnitude x * Nat.pow 10 places) (Nat.pow 2 1074)
    (if isNegative x && n != 0 then "-" else "") ++ scaledText places n

/-- The number that a run of ASCII digits writes. -/
def natOfDigits (ds : List Char) : Nat := ds.foldl (fun n d => 10 * n + (d.toNat - 48)) 0

/-- The double nearest to the decimal with these digits before and after the point. -/
def ofDigits (negative : Bool) (whole fraction : List Char) : Float :=
  let x := Float.ofScientific (natOfDigits (whole ++ fraction)) true fraction.length
  if negative then -x else x

end LessSheet.Decimal
