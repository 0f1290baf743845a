import StyleGrammar.Number.Binary64

/-!
**Writing a binary64 number.**

A number is written as the decimal with the fewest digits that reads back as it, and that decimal
is written positionally, never with an exponent.
-/

/-! ### The shortest decimal of a binary64 number

Every positive binary64 number `v = m · 2^q` owns the interval of reals that read back as it:
half a gap to each neighbour, the ends included when `m` is even. The gap below is half as wide
at the bottom of a binade. On the decimal grids `10^g`, from coarse to fine, the first grid that
has a point inside the interval fixes the digit count; one of the two grid points next to `v` is
then inside, and of two the nearer is taken, an exact tie going to the larger.

* `Binary64.roundingInterval`: the interval in units of `2^(q-2)`;
* `Binary64.digitsAt?`: the chosen grid point on one grid, if any is inside;
* `Binary64.shortest`: the decimal with the fewest digits that reads back, as a `Decimal`.
-/

namespace StyleGrammar

/-- Compare `c · 10^g` with `n · 2^p`, exactly. -/
def compareScaled (c : Nat) (g : Int) (n : Nat) (p : Int) : Ordering :=
  compare (c * Nat.pow 10 g.toNat * Nat.pow 2 (-p).toNat) (n * Nat.pow 2 p.toNat * Nat.pow 10 (-g).toNat)

/-- The same decimal with the trailing zeros of its digits moved into the exponent. -/
def Decimal.normalize (d : Decimal) : Decimal :=
  if h : d.digits ≠ 0 ∧ d.digits % 10 = 0 then
    have : d.digits / 10 < d.digits := Nat.div_lt_self (Nat.pos_of_ne_zero h.1) (by decide)
    Decimal.normalize { d with digits := d.digits / 10, exponent := d.exponent + 1 }
  else d
termination_by d.digits

namespace Binary64

/-- The rounding interval `(low, high)` of a positive number, in units of `2^(scale-2)`; the
number itself is `4 · significand` in these units. -/
def roundingInterval (x : Binary64) : Nat × Nat :=
  let m := x.significand
  let low := if x.fraction = 0 ∧ 1 < x.biased then 4 * m - 1 else 4 * m - 2
  (low, 4 * m + 2)

/-- The interval ends belong to it when the significand is even. -/
def intervalClosed (x : Binary64) : Bool :=
  x.significand % 2 == 0

/-- The grid point `c · 10^g` reads back as `x`. -/
def readsBack (x : Binary64) (c : Nat) (g : Int) : Bool :=
  let (low, high) := x.roundingInterval
  let p := x.scale - 2
  let above := compareScaled c g low p
  let below := compareScaled c g high p
  if x.intervalClosed then above != .lt && below != .gt
  else above == .gt && below == .lt

/-- The largest `c` with `c · 10^g ≤ |x|`. -/
def floorAt (x : Binary64) (g : Int) : Nat :=
  let q := x.scale
  (x.significand * Nat.pow 2 q.toNat * Nat.pow 10 (-g).toNat) / (Nat.pow 2 (-q).toNat * Nat.pow 10 g.toNat)

/-- On the grid `10^g`, the grid point next to `|x|` that reads back as `x`; of two, the
nearer, a tie going to the larger. -/
def digitsAt? (x : Binary64) (g : Int) : Option Nat :=
  let below := x.floorAt g
  let above := below + 1
  match x.readsBack below g, x.readsBack above g with
  | true, true =>
    -- the midpoint of the two grid points against |x|
    if compareScaled (2 * below + 1) g x.significand (x.scale + 1) == .gt then some below
    else some above
  | true, false => some below
  | false, true => some above
  | false, false => none

/-- The exact decimal of `|x|`: its grid is `10^min(q, 0)`. -/
def exactDigits (x : Binary64) : Nat × Int :=
  let q := x.scale
  if 0 ≤ q then (x.significand * Nat.pow 2 q.toNat, 0) else (x.significand * Nat.pow 5 (-q).toNat, q)

/-- The coarsest grid above the whole interval: `10^top` exceeds `2 · |x|`. -/
def topGrid (x : Binary64) : Int :=
  Decimal.digitCount (x.significand * Nat.pow 2 (x.scale + 1).toNat)

/-- The grids to try, from coarse to fine, down to the one on which `|x|` itself lies. -/
def grids (x : Binary64) : List Int :=
  let top := x.topGrid
  let bottom := min x.scale 0
  (List.range ((top - bottom).toNat + 1)).map fun (i : Nat) => top - (i : Int)

/-- The decimal with the fewest significant digits that reads back as `x`, the nearest such
on its grid; zero is `0` with its sign. -/
def shortest (x : Binary64) : Decimal :=
  if x.isZero then { negative := x.negative, digits := 0, exponent := 0 }
  else
    let (digits, exponent) :=
      (x.grids.findSome? fun g => (x.digitsAt? g).map fun c => (c, g)).getD x.exactDigits
    Decimal.normalize { negative := x.negative, digits, exponent }

end Binary64

/-! ### Positional text of numbers

Numbers are written positionally, never with an exponent: the digits, trailing zeros for a
positive exponent, or a point placed inside or before them (after `0.` and leading zeros) for a
negative one. A negative number, zero included, carries a leading `-`.

* `Decimal.positional`: the text of a decimal;
* `Binary64.render`: the text of the shortest decimal of a number.
-/

/-- The text of `n` zeros. -/
def zeros (n : Nat) : String :=
  String.ofList (List.replicate n '0')

/-- The positional text of a decimal. -/
def Decimal.positional (d : Decimal) : String :=
  let digits := toString d.digits
  let body :=
    if 0 ≤ d.exponent then digits ++ zeros d.exponent.toNat
    else
      let places := (-d.exponent).toNat
      if places < digits.length then
        String.ofList (digits.toList.take (digits.length - places)) ++ "." ++
          String.ofList (digits.toList.drop (digits.length - places))
      else "0." ++ zeros (places - digits.length) ++ digits
  if d.negative then "-" ++ body else body

/-- The text of a number: its shortest decimal, written positionally. -/
def Binary64.render (x : Binary64) : String :=
  x.shortest.positional

end StyleGrammar
