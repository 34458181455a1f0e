import TalkDeck.Number.Power

/-
Binary floating-point numbers of 64 bits as exact values: a sign, a mantissa and a power of two.
Every operation computes the exact rational result and rounds once, to the nearest number and to
the even mantissa on a tie.
-/

namespace TalkDeck

/-- A number is `mantissa * 2 ^ exponent`.  The mantissa has 53 bits, or fewer at the least
exponent. -/
inductive Binary64 where
  | nan
  | infinite (negative : Bool)
  | finite (negative : Bool) (mantissa : Nat) (exponent : Int)
deriving DecidableEq, Repr, Inhabited

namespace Binary64

def minExponent : Int := -1074
def maxExponent : Int := 971

/-- The quotient rounded to nearest, ties to even. -/
def roundDiv (num den : Nat) : Nat :=
  let q := num / den
  let r := num % den
  if 2 * r < den then q
  else if den < 2 * r then q + 1
  else if q % 2 = 0 then q else q + 1

/-- `num / den` scaled by `2 ^ (-e)`, as a numerator and a denominator. -/
def scaled (num den : Nat) (e : Int) : Nat × Nat :=
  if 0 ≤ e then (num, den * twoTo e.toNat) else (num * twoTo (-e).toNat, den)

/-- The number nearest to the quotient of two naturals, the second not zero. -/
def ofQuotient (negative : Bool) (num den : Nat) : Binary64 :=
  if num = 0 then .finite negative 0 minExponent
  else
    let e := max minExponent ((num.log2 : Int) - (den.log2 : Int) - 52)
    let (n, d) := scaled num den e
    let e := if minExponent < e ∧ n / d < twoTo 52 then e - 1 else e
    let (n, d) := scaled num den e
    let m := roundDiv n d
    let (m, e) := if m = twoTo 53 then (twoTo 52, e + 1) else (m, e)
    if maxExponent < e then .infinite negative else .finite negative m e

def ofNat (n : Nat) : Binary64 := ofQuotient false n 1

def ofInt (i : Int) : Binary64 := ofQuotient (decide (i < 0)) i.natAbs 1

def digitCount (n : Nat) : Nat := (Nat.toDigits 10 n).length

/-- The number nearest to `digits * 10 ^ power`. -/
def ofDecimal (negative : Bool) (digits : Nat) (power : Int) : Binary64 :=
  if digits = 0 then .finite negative 0 minExponent
  else
    let size := (digitCount digits : Int) + power
    if 400 < size then .infinite negative
    else if size < -400 then .finite negative 0 minExponent
    else if 0 ≤ power then ofQuotient negative (digits * tenTo power.toNat) 1
    else ofQuotient negative digits (tenTo (-power).toNat)

def neg : Binary64 → Binary64
  | .nan => .nan
  | .infinite s => .infinite (!s)
  | .finite s m e => .finite (!s) m e

/-- The signed integer `m` of a finite number written over `2 ^ e`, for an `e` at or below its own
exponent. -/
def overPower (negative : Bool) (m : Nat) (from_ e : Int) : Int :=
  let n : Int := m * twoTo (from_ - e).toNat
  if negative then -n else n

def add : Binary64 → Binary64 → Binary64
  | .nan, _ => .nan
  | _, .nan => .nan
  | .infinite s, .infinite t => if s = t then .infinite s else .nan
  | .infinite s, _ => .infinite s
  | _, .infinite t => .infinite t
  | .finite s m e, .finite t n f =>
    let g := min e f
    let sum := overPower s m e g + overPower t n f g
    if sum = 0 then .finite (s && t) 0 minExponent
    else
      let (num, den) := scaled sum.natAbs 1 (-g)
      ofQuotient (decide (sum < 0)) num den

/-- Product with a natural that is first rounded to a number itself. -/
def mulNat (x : Binary64) (k : Nat) : Binary64 :=
  match x, ofNat k with
  | .nan, _ => .nan
  | _, .nan => .nan
  | .infinite s, .finite _ n _ => if n = 0 then .nan else .infinite s
  | .infinite s, .infinite _ => .infinite s
  | .finite s m _, .infinite _ => if m = 0 then .nan else .infinite s
  | .finite s m e, .finite _ n f =>
    let (num, den) := scaled (m * n) 1 (-(e + f))
    ofQuotient s num den

/-- Whether the number is exactly the integer `i`. -/
def isInt (x : Binary64) (i : Int) : Bool :=
  match x with
  | .finite s m e =>
    if 0 ≤ e then overPower s m e 0 == i
    else (if s then -(m : Int) else (m : Int)) == i * twoTo (-e).toNat
  | _ => false

/-- The integer that the number is, if it is one. -/
def toInt? (x : Binary64) : Option Int :=
  match x with
  | .finite s m e =>
    if 0 ≤ e then some (overPower s m e 0)
    else
      let d := twoTo (-e).toNat
      if m % d = 0 then some (if s then -((m / d : Nat) : Int) else ((m / d : Nat) : Int)) else none
  | _ => none

end Binary64
end TalkDeck
