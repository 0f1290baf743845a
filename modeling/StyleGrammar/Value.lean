import StyleGrammar.Token.Basic
import StyleGrammar.Number.Binary64
import StyleGrammar.Number.Shortest

/-!
**Property values and their text.**

A value is what a grammar reads: a number, an integer, a length with its unit, a percentage, an
identifier or a keyword's constant, or a composite of values. Every value that holds no optional
part has a text.
-/

/-! ### Length units

The fifteen units a length may carry, in their fixed order: font-relative, viewport-relative,
then absolute.

* `LengthUnit.name`: the unit's lowercase name;
* `LengthUnit.ordered`: every unit, in order;
* `LengthUnit.named?`: the unit named by a text, ignoring ASCII case.
-/

namespace StyleGrammar

/-- A unit of length. -/
inductive LengthUnit where
  | px
  | em
  | rem
  | ex
  | ch
  | vw
  | vh
  | vmin
  | vmax
  | cm
  | mm
  | q
  | inch
  | pt
  | pc
  deriving DecidableEq, Repr

namespace LengthUnit

/-- The unit's lowercase name. -/
def name : LengthUnit → String
  | px => "px"
  | em => "em"
  | rem => "rem"
  | ex => "ex"
  | ch => "ch"
  | vw => "vw"
  | vh => "vh"
  | vmin => "vmin"
  | vmax => "vmax"
  | cm => "cm"
  | mm => "mm"
  | q => "q"
  | inch => "in"
  | pt => "pt"
  | pc => "pc"

/-- Every unit, in order. -/
def ordered : List LengthUnit :=
  [px, em, rem, ex, ch, vw, vh, vmin, vmax, cm, mm, q, inch, pt, pc]

/-- The unit whose name equals the text, ignoring ASCII case. -/
def named? (text : String) : Option LengthUnit :=
  ordered.find? fun unit => CasePolicy.asciiInsensitive.equal unit.name text

end LengthUnit

/-! ### Property values

A value is what a grammar reads: a leaf (number, integer, length, percentage, identifier, or a
keyword's constant) or a composite of values (a tuple from repetition, the slots of a periodic
value, a separated list, an optional value).

* `Value.same`: equality of values, with numbers compared numerically, so that `0` and `-0`
  are the same;
* `StyleValue`: a value for a property, either `inherit` or a written value.
-/

/-- A value read from property-value text. -/
inductive Value where
  /-- A plain number. -/
  | number (x : Binary64)
  /-- A 32-bit integer. -/
  | integer (n : Int32)
  /-- A number with a unit of length. -/
  | length (x : Binary64) (unit : LengthUnit)
  /-- A number followed by `%`, kept as written. -/
  | percentage (x : Binary64)
  /-- An identifier, as written. -/
  | ident (name : String)
  /-- A keyword's constant. -/
  | symbol (name : String)
  /-- The values of a repetition. -/
  | tuple (items : List Value)
  /-- All slots of a periodic value. -/
  | periodic (slots : List Value)
  /-- The items of a list, with the byte that separates them. -/
  | list (items : List Value) (separator : UInt8)
  /-- A value that may be missing. -/
  | optional (value : Option Value)

namespace Value

mutual

/-- Equality of values: numbers compare numerically, all else structurally. -/
def same : Value → Value → Bool
  | number x, number y => x.sameValue y
  | integer a, integer b => a == b
  | length x u, length y v => x.sameValue y && u == v
  | percentage x, percentage y => x.sameValue y
  | ident a, ident b => a == b
  | symbol a, symbol b => a == b
  | tuple xs, tuple ys => sameList xs ys
  | periodic xs, periodic ys => sameList xs ys
  | list xs s, list ys t => sameList xs ys && s == t
  | optional a, optional b => sameOption a b
  | _, _ => false

/-- Equality of lists of values, item by item. -/
def sameList : List Value → List Value → Bool
  | [], [] => true
  | x :: xs, y :: ys => same x y && sameList xs ys
  | _, _ => false

/-- Equality of optional values. -/
def sameOption : Option Value → Option Value → Bool
  | none, none => true
  | some x, some y => same x y
  | _, _ => false

end

instance : BEq Value := ⟨same⟩

end Value

/-- A property's value: `inherit`, or a value that was written. -/
inductive StyleValue where
  | inherit
  | written (value : Value)

namespace StyleValue

/-- The written value, if any. -/
def written? : StyleValue → Option Value
  | inherit => none
  | written value => some value

end StyleValue

/-! ### The text of a value

Numbers are written with the fewest digits that read back, positionally. A length is its number
then its unit, a percentage its number then `%`. Tuples and periodic values join their items
with a space, and a periodic value writes all its slots. A list joins with `, ` when commas
separate it, otherwise with its separator between spaces, the byte taken as a Latin-1
character. An optional value has no text, and neither has a value that holds one.

* `Value.render?`: the text of a value, `none` when it holds an optional;
* `Value.separatorText`: what stands between two list items.
-/

namespace Value

/-- What stands between two items of a list with the given separator byte. -/
def separatorText (separator : UInt8) : String :=
  if separator == 0x2C then ", " else " " ++ String.singleton (Char.ofNat separator.toNat) ++ " "

/-- Texts joined by a separator, all of them present. -/
def joinAll (sep : String) (texts : List (Option String)) : Option String :=
  (texts.mapM id).map fun parts => sep.intercalate parts

mutual

/-- The text of a value; `none` when the value holds an optional anywhere. -/
def render? : Value → Option String
  | number x => some x.render
  | integer n => some (toString n.toInt)
  | length x unit => some (x.render ++ unit.name)
  | percentage x => some (x.render ++ "%")
  | ident name => some name
  | symbol name => some name
  | tuple items => joinAll " " (renderList items)
  | periodic slots => joinAll " " (renderList slots)
  | list items separator => joinAll (separatorText separator) (renderList items)
  | optional _ => none

/-- The texts of the items of a list. -/
def renderList : List Value → List (Option String)
  | [] => []
  | v :: vs => render? v :: renderList vs

end

end Value

/-- The text of a property value: `inherit`, or the text of the written value. -/
def StyleValue.render? : StyleValue → Option String
  | .inherit => some "inherit"
  | .written value => value.render?

end StyleGrammar
