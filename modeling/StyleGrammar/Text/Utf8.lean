import StyleGrammar.Text.Unicode

/-!
**UTF-8 text, and cutting it at byte offsets.**

Text is kept as its UTF-8 bytes, and a piece of it is cut between two byte offsets. A cut that
is out of range, backwards, or inside a character is refused with the reason.
-/

/-! ### UTF-8 bytes of a text

A text is read as its UTF-8 bytes. A byte offset is a character boundary when it is the start
or the end of the bytes, or when the byte there begins a character, that is, it is not a
continuation byte (`10xxxxxx`).

* `decodeUtf8?`: the text of a list of bytes, when they are valid UTF-8;
* `Utf8.isCharBoundary`: the boundary test;
* `Utf8.floorBoundary`: the last boundary at or before an offset;
* `Utf8.width`: the byte count of the character that a leading byte begins.
-/

namespace StyleGrammar

/-- The text of a list of bytes, when they are valid UTF-8. -/
def decodeUtf8? (bytes : List UInt8) : Option String :=
  String.fromUTF8? ⟨bytes.toArray⟩

namespace Utf8

/-- A byte that continues a character rather than beginning one. -/
def isContinuation (b : UInt8) : Bool :=
  0x80 ≤ b && b < 0xC0

/-- The offset is the end of the bytes, or a character begins there. -/
def isCharBoundary (bytes : List UInt8) (index : Nat) : Bool :=
  match bytes.drop index with
  | [] => index == bytes.length
  | b :: _ => !isContinuation b

/-- The last character boundary at or before the offset. -/
def floorBoundary (bytes : List UInt8) : Nat → Nat
  | 0 => 0
  | index + 1 => if isCharBoundary bytes (index + 1) then index + 1 else floorBoundary bytes index

/-- The byte count of the character that a leading byte begins. -/
def width (lead : UInt8) : Nat :=
  if lead < 0x80 then 1 else if lead < 0xE0 then 2 else if lead < 0xF0 then 3 else 4

end Utf8

/-! ### Cutting a text at byte offsets

A byte range of a text is a piece of text when both offsets lie within the text, the range is
not backwards, and both offsets are character boundaries. Otherwise the cut fails, and the
failure names its cause: the first offset that is out of bounds or inside a character, with
the character and the bytes it takes.

* `Utf8.slice`: the text between two offsets, or why there is none;
* `SliceError.message`: the text of a failure;
* `quoteChar`: a character as a failure message quotes it.
-/

/-- Why a byte range of a text is not a piece of text. -/
inductive SliceError where
  /-- The start lies past the end of the text. -/
  | startOutside (index : Nat)
  /-- The end lies past the end of the text. -/
  | endOutside (index : Nat)
  /-- The start lies after the end. -/
  | backwards (start stop : Nat)
  /-- The start lies inside the character that takes the bytes `low` up to `high`. -/
  | startInside (index : Nat) (char : Char) (low high : Nat)
  /-- The end lies inside the character that takes the bytes `low` up to `high`. -/
  | endInside (index : Nat) (char : Char) (low high : Nat)
  /-- The bytes are not UTF-8. -/
  | notText
  deriving DecidableEq, Repr

/-- Whether a message writes a character as a code rather than as itself: a character that
extends a grapheme would draw onto the quote before it, and an unprintable one would not show. -/
def escapedInMessage (c : Char) : Bool :=
  Unicode.isGraphemeExtend c || !Unicode.isPrintable c

/-- The lowercase hexadecimal digits of a number. -/
def hexDigits (n : Nat) : String :=
  String.ofList (Nat.toDigits 16 n)

/-- A character between single quotes: quotes, backslashes and the common controls after a
backslash, characters that are written as a code as `\u` and their hexadecimal code point
in braces, all others as themselves. -/
def quoteChar (c : Char) : String :=
  let body :=
    if c == '\x00' then "\\0"
    else if c == '\t' then "\\t"
    else if c == '\r' then "\\r"
    else if c == '\n' then "\\n"
    else if c == '\\' then "\\\\"
    else if c == '\'' then "\\'"
    else if escapedInMessage c then "\\u\x7b" ++ hexDigits c.toNat ++ "\x7d"
    else String.singleton c
  "'" ++ body ++ "'"

namespace SliceError

/-- The text of a failure. -/
def message : SliceError → String
  | startOutside index => "start byte index " ++ toString index ++ " is out of bounds of string"
  | endOutside index => "end byte index " ++ toString index ++ " is out of bounds of string"
  | backwards start stop =>
    "byte range starts at " ++ toString start ++ " but ends at " ++ toString stop
  | startInside index char low high =>
    "start byte index " ++ toString index ++ " is not a char boundary; it is inside " ++
      quoteChar char ++ " (bytes " ++ toString low ++ ".." ++ toString high ++ " of string)"
  | endInside index char low high =>
    "end byte index " ++ toString index ++ " is not a char boundary; it is inside " ++
      quoteChar char ++ " (bytes " ++ toString low ++ ".." ++ toString high ++ " of string)"
  | notText => "invalid utf-8 sequence"

end SliceError

namespace Utf8

/-- The character whose bytes hold the offset, with the first and the past-last of its bytes. -/
def charAround (bytes : List UInt8) (index : Nat) : Char × Nat × Nat :=
  let low := floorBoundary bytes index
  let high := low + width ((bytes.drop low).headD 0)
  let char := ((decodeUtf8? ((bytes.drop low).take (high - low))).bind fun s => s.toList.head?).getD
    '\uFFFD'
  (char, low, high)

/-- The text between two byte offsets, or the first reason there is none. -/
def slice (bytes : List UInt8) (start stop : Nat) : Except SliceError String :=
  if bytes.length < start then .error (.startOutside start)
  else if bytes.length < stop then .error (.endOutside stop)
  else if stop < start then .error (.backwards start stop)
  else if !isCharBoundary bytes start then
    let (char, low, high) := charAround bytes start
    .error (.startInside start char low high)
  else if !isCharBoundary bytes stop then
    let (char, low, high) := charAround bytes stop
    .error (.endInside stop char low high)
  else
    match decodeUtf8? ((bytes.drop start).take (stop - start)) with
    | some text => .ok text
    | none => .error .notText

end Utf8

end StyleGrammar
