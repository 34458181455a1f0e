import TalkDeck.Number.Binary64

/-
The decimal text of a floating-point number: the fewest digits that read back as the same number,
and of those the nearest ones.
-/

namespace TalkDeck
namespace Binary64

/-- Digits `d` and a power `p` of a decimal `d * 10 ^ p`. -/
structure Digits where
  digits : Nat
  power : Int
deriving DecidableEq, Repr

/-- The reals that round to `mantissa * 2 ^ exponent`, over the denominator `den`: the lower end,
the number itself, the upper end, and whether the ends belong. -/
structure Interval where
  low : Nat
  value : Nat
  high : Nat
  den : Nat
  closed : Bool

def interval (mantissa : Nat) (exponent : Int) : Interval :=
  let narrow := mantissa == twoTo 52 && decide (minExponent < exponent)
  let lift (n : Nat) : Nat := if 2 ≤ exponent then n * twoTo (exponent - 2).toNat else n
  let den := if 2 ≤ exponent then 1 else twoTo (2 - exponent).toNat
  ⟨lift (4 * mantissa - if narrow then 1 else 2), lift (4 * mantissa), lift (4 * mantissa + 2), den,
    mantissa % 2 == 0⟩

/-- Whether `d * 10 ^ p` lies in the interval. -/
def Interval.has (i : Interval) (d : Nat) (p : Int) : Bool :=
  let (x, den) := if 0 ≤ p then (d * tenTo p.toNat * i.den, 1) else (d * i.den, tenTo (-p).toNat)
  if i.closed then decide (i.low * den ≤ x ∧ x ≤ i.high * den)
  else decide (i.low * den < x ∧ x < i.high * den)

/-- The neighbours of the number on the grid of multiples of `10 ^ p`: the one at or below it, and
twice the distance to it compared with the grid's step. -/
def Interval.floor (i : Interval) (p : Int) : Nat × Ordering :=
  let (num, den) := if 0 ≤ p then (i.value, i.den * tenTo p.toNat) else (i.value * tenTo (-p).toNat, i.den)
  (num / den, compare (2 * (num % den)) den)

/-- The decimal of the interval on the grid of multiples of `10 ^ p` that is nearest to the number,
if there is one. -/
def Interval.onGrid (i : Interval) (p : Int) : Option Digits :=
  let (d, nearer) := i.floor p
  let below := i.has d p
  let above := i.has (d + 1) p
  if below && above then
    match nearer with
    | .lt => some ⟨d, p⟩
    | .gt => some ⟨d + 1, p⟩
    | .eq => some ⟨if d % 2 = 0 then d else d + 1, p⟩
  else if below then some ⟨d, p⟩
  else if above then some ⟨d + 1, p⟩
  else none

/-- The coarsest of `count` grids, from `10 ^ p` down, that has a decimal of the interval. -/
def Interval.search (i : Interval) : Nat → Int → Digits
  | 0, p => ⟨(i.floor p).1, p⟩
  | count + 1, p =>
    match i.onGrid p with
    | some d => d
    | none => i.search count (p - 1)

/-- How many digits stand before the point of `num / den`; zero or less for a number below one. -/
def magnitude (num den : Nat) : Int :=
  if den ≤ num then (digitCount (num / den) : Int)
  else
    let g := digitCount ((den - 1) / num)
    -- the least power of ten that lifts the quotient to one or more is `g` or one less
    if den ≤ num * tenTo (g - 1) then 2 - (g : Int) else 1 - (g : Int)

def shortest (mantissa : Nat) (exponent : Int) : Digits :=
  let i := interval mantissa exponent
  let d := i.search 18 (magnitude i.value i.den)
  d

/-- Drops the zeros at the end. -/
def Digits.normal (fuel : Nat) (d : Digits) : Digits :=
  match fuel with
  | 0 => d
  | fuel + 1 =>
    if d.digits ≠ 0 ∧ d.digits % 10 = 0 then Digits.normal fuel ⟨d.digits / 10, d.power + 1⟩ else d

/-- How a number's digits are laid out: with a point while the first digit's power of ten is in
`[least, beyond)`, and otherwise with an exponent of at least two digits and a sign. -/
structure Layout where
  least : Int
  beyond : Int

def Layout.plain : Layout := ⟨-4, 16⟩

def Layout.render (l : Layout) (d : Digits) : List Char :=
  let ds := Nat.toDigits 10 d.digits
  let lead := (ds.length : Int) + d.power - 1
  if l.least ≤ lead ∧ lead < l.beyond then
    if 0 ≤ d.power then ds ++ List.replicate d.power.toNat '0' ++ ['.', '0']
    else if 0 ≤ lead then
      let whole := (lead + 1).toNat
      ds.take whole ++ ['.'] ++ ds.drop whole
    else ['0', '.'] ++ List.replicate (-lead - 1).toNat '0' ++ ds
  else
    let e := Nat.toDigits 10 lead.natAbs
    let e := if e.length < 2 then '0' :: e else e
    (match ds with
      | [] => []
      | [c] => [c]
      | c :: cs => c :: '.' :: cs) ++
      ['e', if lead < 0 then '-' else '+'] ++ e

/-- The text of a number. -/
def text : Binary64 → List Char
  | .nan => ['n', 'a', 'n']
  | .infinite s => (if s then ['-'] else []) ++ ['i', 'n', 'f']
  | .finite s m e =>
    (if s then ['-'] else []) ++
      if m = 0 then ['0', '.', '0'] else Layout.plain.render ((shortest m e).normal 400)

end Binary64
end TalkDeck
