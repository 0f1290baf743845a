import StyleGrammar.Token.Basic
import StyleGrammar.Token.Numeral
import StyleGrammar.Number.Binary64
import StyleGrammar.Text.Utf8

/-!
**A cursor over property-value text.**

A cursor is a text, as UTF-8 bytes, and a byte position within it; it also holds the unread
rest, which is always the text after the position. Reading never changes the text, and a value
of the cursor is the whole state, so going back is returning an earlier cursor.

* `Cursor.skipSpacing`: move over blanks and comments;
* `Cursor.identifierText`, `Cursor.takeIdentifierText`, `Cursor.takeKeywordText`: identifier
  tokens as text, which fails when the position lies inside a character;
* `Cursor.takeIdentifier?`, `Cursor.takeKeyword?`: the same, where such a failure counts as no
  identifier;
* `Cursor.numberText`, `Cursor.takeNumberToken?`, `Cursor.takeNumber?`: number tokens, as text,
  as bytes, and read as the nearest binary64;
* `Cursor.takeByte?`: one given byte;
* `Cursor.returnTo`: go to a saved position, which must be a character boundary of the text;
* `Cursor.restText`, `Cursor.sliceText`: the unread rest and the text between two positions.
-/

namespace StyleGrammar

/-- Why a cursor cannot go to a position. -/
inductive MoveError where
  /-- The position lies past the end of the text. -/
  | pastEnd (pos : Nat)
  /-- The position lies inside a character. -/
  | splitsChar (pos : Nat)
  deriving DecidableEq, Repr

/-- The text of a failed move. -/
def MoveError.message : MoveError → String
  | .pastEnd pos => "rewind target " ++ toString pos ++ " past end"
  | .splitsChar pos => "rewind target " ++ toString pos ++ " splits a character"

/-- A position within a text, with the unread rest of it. -/
structure Cursor where
  text : List UInt8
  pos : Nat
  rest : List UInt8
  rest_eq : rest = text.drop pos
  pos_le : pos ≤ text.length

namespace Cursor

/-- Two cursors over the same text at the same position are the same cursor. -/
@[ext]
theorem ext {c d : Cursor} (text : c.text = d.text) (pos : c.pos = d.pos) : c = d := by
  cases c
  cases d
  subst text pos
  simp_all

theorem rest_length (c : Cursor) : c.rest.length = c.text.length - c.pos := by
  rw [c.rest_eq, List.length_drop]

/-- A cursor at the start of the bytes. -/
def ofBytes (bytes : List UInt8) : Cursor :=
  ⟨bytes, 0, bytes, List.drop_zero.symm, Nat.zero_le _⟩

/-- A cursor at the start of a text. -/
def ofString (text : String) : Cursor :=
  ofBytes text.toUTF8.toList

/-- The byte at the position, `0` at the end. -/
def byteHere (c : Cursor) : UInt8 :=
  c.rest.headD 0

/-- The byte after the position, `0` past the end. -/
def byteAfter (c : Cursor) : UInt8 :=
  (c.rest.drop 1).headD 0

/-- Every byte has been read. -/
def atEnd (c : Cursor) : Bool :=
  c.rest.isEmpty

/-- Move forward over `n` of the unread bytes. -/
def forward (c : Cursor) (n : Nat) (h : n ≤ c.rest.length) : Cursor :=
  ⟨c.text, c.pos + n, c.rest.drop n, by rw [c.rest_eq, List.drop_drop],
    by have := c.rest_length; have := c.pos_le; omega⟩

@[simp] theorem text_forward (c : Cursor) (n : Nat) (h : n ≤ c.rest.length) :
    (c.forward n h).text = c.text := rfl

@[simp] theorem pos_forward (c : Cursor) (n : Nat) (h : n ≤ c.rest.length) :
    (c.forward n h).pos = c.pos + n := rfl

@[simp] theorem rest_forward (c : Cursor) (n : Nat) (h : n ≤ c.rest.length) :
    (c.forward n h).rest = c.rest.drop n := rfl

/-- The same text at another position within it. -/
def moveTo (c : Cursor) (pos : Nat) (h : pos ≤ c.text.length) : Cursor :=
  ⟨c.text, pos, c.text.drop pos, rfl, h⟩

/-- The same text at a position within it that is a character boundary; any other position
is refused, one past the end before one inside a character. -/
def returnTo (c : Cursor) (pos : Nat) : Except MoveError Cursor :=
  if h : c.text.length < pos then .error (.pastEnd pos)
  else if !Utf8.isCharBoundary c.text pos then .error (.splitsChar pos)
  else .ok (c.moveTo pos (Nat.le_of_not_lt h))

/-- Move over one byte when it is the given one. -/
def takeByte? (c : Cursor) (b : UInt8) : Option Cursor :=
  match h : c.rest with
  | x :: _ => if x == b then some (c.forward 1 (by simp [h])) else none
  | [] => none

/-- Move over blanks and comments. -/
def skipSpacing (c : Cursor) : Cursor :=
  c.forward (Token.spacingSpan c.rest) (Token.spacingSpan_le c.rest)

/-- An identifier token starts at the position. -/
def identifierAhead (c : Cursor) : Bool :=
  Token.identifierSpan c.rest != 0

/-- The identifier token at the position as text, without moving; it fails when the position
lies inside a character. -/
def identifierText (c : Cursor) : Except SliceError (Option String) :=
  let len := Token.identifierSpan c.rest
  if len = 0 then .ok none else (Utf8.slice c.text c.pos (c.pos + len)).map some

/-- Move over the identifier token at the position, returning it. -/
def takeIdentifierText (c : Cursor) : Except SliceError (Option (String × Cursor)) :=
  c.identifierText.map fun found =>
    found.map fun name => (name, c.forward (Token.identifierSpan c.rest) (Token.identifierSpan_le _))

/-- Move over the identifier at the position when it equals `keyword` under the policy. -/
def takeKeywordText (c : Cursor) (policy : CasePolicy) (keyword : String) :
    Except SliceError (Option Cursor) :=
  c.takeIdentifierText.map fun found =>
    match found with
    | some (name, next) => if policy.matchesName name keyword then some next else none
    | none => none

/-- Move over the identifier token at the position, returning it.

At a position inside a character the token cannot be cut out of the text. That counts here as
no identifier, where cutting the text itself would stop the program; only `takeByte?` with the
leading byte of a character of two bytes or more reaches such a position. -/
def takeIdentifier? (c : Cursor) : Option (String × Cursor) :=
  c.takeIdentifierText.toOption.join

/-- Move over the identifier at the position when it equals `keyword` under the policy.

As for `takeIdentifier?`, a position inside a character, where the identifier cannot be cut
out, counts as no identifier. -/
def takeKeyword? (c : Cursor) (policy : CasePolicy) (keyword : String) : Option Cursor :=
  (c.takeKeywordText policy keyword).toOption.join

/-- Move over the number token at the position, returning its bytes. -/
def takeNumberToken? (c : Cursor) : Option (List UInt8 × Cursor) :=
  match h : Token.numberSpan c.rest with
  | some len => some (c.rest.take len, c.forward len (Token.numberSpan_le h))
  | none => none

/-- The number token at the position as text, without moving. -/
def numberText (c : Cursor) : Except SliceError (Option String) :=
  match Token.numberSpan c.rest with
  | some len => (Utf8.slice c.text c.pos (c.pos + len)).map some
  | none => .ok none

/-- Move over the number token at the position, returning its nearest binary64; no move when
there is none or it rounds to infinity. -/
def takeNumber? (c : Cursor) : Option (Binary64 × Cursor) :=
  match c.takeNumberToken? with
  | some (token, next) => (Decimal.ofToken token).toBinary64?.map fun x => (x, next)
  | none => none

/-- The unread rest as text; it fails when the position lies inside a character. -/
def restText (c : Cursor) : Except SliceError String :=
  Utf8.slice c.text c.pos c.text.length

/-- The text between two positions, cut from the earlier to the later whichever is given first
(`sliceText_of_le`, `sliceText_comm`); `Utf8.slice` itself refuses a backwards range. -/
def sliceText (c : Cursor) (first second : Nat) : Except SliceError String :=
  Utf8.slice c.text (min first second) (max first second)

/-- Between positions in order, the cut is the text's own cut from the first to the second. -/
theorem sliceText_of_le (c : Cursor) {first second : Nat} (ordered : first ≤ second) :
    c.sliceText first second = Utf8.slice c.text first second := by
  rw [sliceText, Nat.min_eq_left ordered, Nat.max_eq_right ordered]

theorem sliceText_comm (c : Cursor) (first second : Nat) :
    c.sliceText first second = c.sliceText second first := by
  rw [sliceText, sliceText, Nat.min_comm, Nat.max_comm]

end Cursor

end StyleGrammar
