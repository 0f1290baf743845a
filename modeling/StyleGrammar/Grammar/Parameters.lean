/-!
**The checked parameters of grammars: repetition bounds and list separators.**

Both are checked as a grammar is built, and a refused one is a `BuildError` whose message names
what was refused. Keyword tables, checked the same way, are in `Grammar.Leaf`.
-/

/-! ### Errors in building a grammar

A grammar is checked as it is built: repetition bounds must not be inverted, keywords must be
single identifiers and distinct under their policy, and a list separator must be punctuation
that cannot start or continue a token.

* `BuildError.message`: the text of an error.
-/

namespace StyleGrammar

/-- Why a grammar cannot be built. -/
inductive BuildError where
  /-- A repetition whose least count exceeds its greatest. -/
  | boundsInverted (min max : Nat)
  /-- A keyword equal to an earlier one under the table's policy, as written. -/
  | keywordRepeated (keyword : String)
  /-- A keyword that is not one identifier token. -/
  | keywordNotIdentifier (keyword : String)
  /-- A byte that cannot separate list items. -/
  | separatorRefused (byte : UInt8)
  deriving DecidableEq, Repr

namespace BuildError

/-- The two uppercase hexadecimal digits of a byte. -/
def hexByte (b : UInt8) : String :=
  let digits := (Nat.toDigits 16 b.toNat).map Char.toUpper
  String.ofList (if b < 16 then '0' :: digits else digits)

/-- A separator byte as it is named in a message: quoted when it is a visible ASCII character,
by its code otherwise. -/
def byteName (b : UInt8) : String :=
  if 0x21 ≤ b && b ≤ 0x7E then "`" ++ String.singleton (Char.ofNat b.toNat) ++ "`"
  else "byte 0x" ++ hexByte b

/-- The text of an error. -/
def message : BuildError → String
  | boundsInverted min max =>
    "repetition bounds are inverted: min " ++ toString min ++ " exceeds max " ++ toString max
  | keywordRepeated keyword => "keyword `" ++ keyword ++ "` appears more than once"
  | keywordNotIdentifier keyword => "keyword `" ++ keyword ++ "` is not a single identifier"
  | separatorRefused b => byteName b ++ " cannot separate list items"

end BuildError

/-! ### Repetition bounds

A repetition reads between `min` and `max` items, `min ≤ max`. Without an explicit greatest
count a repetition stops at `65535` items, or at its least count when that is larger.

* `Bounds.make?`: bounds from both counts, refusing inverted ones;
* `Bounds.fromMin`, `Bounds.plus`, `Bounds.star`: the open-ended bounds;
* `Bounds.admits`: a count lies within the bounds.
-/

/-- The least and greatest count of a repetition. -/
structure Bounds where
  min : Nat
  max : Nat
  min_le_max : min ≤ max
  deriving DecidableEq

namespace Bounds

/-- The greatest count of a repetition that names none. -/
def implicitMax : Nat := 65535

/-- Bounds from both counts; inverted counts are an error. -/
def make? (min max : Nat) : Except BuildError Bounds :=
  if h : min ≤ max then .ok ⟨min, max, h⟩ else .error (.boundsInverted min max)

/-- At least `min` items, and at most the default greatest count or `min`, whichever is larger. -/
def fromMin (min : Nat) : Bounds :=
  ⟨min, Nat.max implicitMax min, Nat.le_max_right _ _⟩

/-- One item or more. -/
def plus : Bounds := ⟨1, implicitMax, by decide⟩

/-- Any count of items. -/
def star : Bounds := ⟨0, implicitMax, by decide⟩

/-- The count lies within the bounds. -/
def admits (b : Bounds) (count : Nat) : Bool :=
  b.min ≤ count && count ≤ b.max

end Bounds

/-! ### List separators

A list separator is an ASCII punctuation byte that cannot begin or continue a token: not a
hyphen, underscore, plus, point, percent sign or backslash.

* `separatorAllowed`: the rule;
* `Separator.ofByte?`: a separator, or the error that names the byte.
-/

/-- ASCII punctuation: the visible characters that are neither letters nor digits. -/
def isAsciiPunctuation (b : UInt8) : Bool :=
  (0x21 ≤ b && b ≤ 0x2F) || (0x3A ≤ b && b ≤ 0x40) || (0x5B ≤ b && b ≤ 0x60) ||
    (0x7B ≤ b && b ≤ 0x7E)

/-- Punctuation that no token begins or continues with. -/
def separatorAllowed (b : UInt8) : Bool :=
  isAsciiPunctuation b && !(b == 0x2D || b == 0x5F || b == 0x2B || b == 0x2E || b == 0x25 ||
    b == 0x5C)

/-- The byte between two list items. -/
structure Separator where
  byte : UInt8
  valid : separatorAllowed byte = true
  deriving DecidableEq

namespace Separator

/-- The comma. -/
def comma : Separator := ⟨0x2C, by decide⟩

/-- The separator for a byte, or the error naming it. -/
def ofByte? (b : UInt8) : Except BuildError Separator :=
  if h : separatorAllowed b = true then .ok ⟨b, h⟩ else .error (.separatorRefused b)

end Separator

end StyleGrammar
