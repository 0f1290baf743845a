/-!
**Tokens of property-value text: byte classes, identifiers and spacing.**

A scan looks at the bytes from the cursor on and answers with the length of the token that opens
them, `0` when there is none. Identifiers are also compared with keywords, exactly or with ASCII
case ignored.
-/

/-! ### Byte classes of property-value text

Text is read as its UTF-8 bytes, so every class is a predicate on `UInt8`:

* `isBlank`: the five blank bytes (space, tab, line feed, carriage return, form feed);
* `isDigit`: an ASCII digit;
* `opensName`: a byte that may open an identifier, an ASCII letter, an underscore, or any
  byte of a multi-byte character;
* `continuesName`: a byte that may continue an identifier, a name start, a digit or a hyphen.
-/

namespace StyleGrammar.Token

/-- A blank is a space, a tab, a line feed, a carriage return or a form feed. -/
def isBlank (b : UInt8) : Bool :=
  b == 0x20 || b == 0x09 || b == 0x0A || b == 0x0D || b == 0x0C

/-- An ASCII digit. -/
def isDigit (b : UInt8) : Bool :=
  0x30 ≤ b && b ≤ 0x39

/-- An ASCII letter of either case. -/
def isLetter (b : UInt8) : Bool :=
  (0x41 ≤ b && b ≤ 0x5A) || (0x61 ≤ b && b ≤ 0x7A)

/-- An identifier opens with a letter, an underscore, or a byte of a multi-byte character. -/
def opensName (b : UInt8) : Bool :=
  isLetter b || b == 0x5F || 0x80 ≤ b

/-- An identifier continues with a name start, a digit or a hyphen. -/
def continuesName (b : UInt8) : Bool :=
  opensName b || isDigit b || b == 0x2D

/-- The value of an ASCII digit. -/
def digitValue (b : UInt8) : Nat :=
  b.toNat - 0x30

/-- The number written by a run of ASCII digits, most significant first. -/
def digitsValue (digits : List UInt8) : Nat :=
  digits.foldl (fun acc d => acc * 10 + digitValue d) 0

theorem continuesName_of_opensName {b : UInt8} (h : opensName b = true) :
    continuesName b = true := by
  simp [continuesName, h]

/-! ### Identifier tokens

An identifier is either two hyphens followed by name bytes, or an optional hyphen, a name start
and name bytes:

* `identifierSpan`: the length of the identifier token at the start of the bytes, `0` when none
  is there;
* `isWholeIdentifier`: a whole text is one identifier token.
-/

/-- The length of the run of name bytes at the start of `bytes`. -/
def nameRun (bytes : List UInt8) : Nat :=
  (bytes.takeWhile continuesName).length

/-- The length of the identifier token that opens `bytes`, or `0` when none does.

Two hyphens open an identifier by themselves; one hyphen must be followed by a name start. -/
def identifierSpan : List UInt8 → Nat
  | [] => 0
  | b :: rest =>
    if b == 0x2D then
      match rest with
      | c :: more => if c == 0x2D || opensName c then 2 + nameRun more else 0
      | [] => 0
    else if opensName b then 1 + nameRun rest
    else 0

/-- A text is an identifier when it is one whole identifier token. -/
def isWholeIdentifier (text : String) : Bool :=
  let bytes := text.toUTF8.toList
  !bytes.isEmpty && identifierSpan bytes == bytes.length

theorem nameRun_le (bytes : List UInt8) : nameRun bytes ≤ bytes.length :=
  (List.takeWhile_sublist _).length_le

theorem identifierSpan_le (bytes : List UInt8) : identifierSpan bytes ≤ bytes.length := by
  unfold identifierSpan
  split
  · simp
  · rename_i b rest
    split
    · split
      · rename_i c more
        split
        · have := nameRun_le more
          simp
          omega
        · simp
      · simp
    · split
      · have := nameRun_le rest
        simp
        omega
      · simp

/-! ### Spacing: blanks and comments

Between tokens a text may hold blanks and comments `/* ... */`, in any order. A comment that is
never closed runs to the end of the text.

* `commentSpan`: how many bytes of a comment body, its closing `*/` included, are present;
* `spacingSpan`: the length of the longest prefix of spacing.
-/

/-- The length of a comment body up to and including its closing `*/`, or the whole rest when
the comment is never closed. -/
def commentSpan : List UInt8 → Nat
  | [] => 0
  | b :: rest =>
    match rest with
    | c :: _ => if b == 0x2A && c == 0x2F then 2 else 1 + commentSpan rest
    | [] => 1

theorem commentSpan_le (bytes : List UInt8) : commentSpan bytes ≤ bytes.length := by
  induction bytes with
  | nil => simp [commentSpan]
  | cons b rest ih =>
    unfold commentSpan
    split
    · split
      · simp
      · simp only [List.length_cons] at ih ⊢
        omega
    · simp

/-- The length of the longest prefix made of blanks and comments. -/
def spacingSpan (bytes : List UInt8) : Nat :=
  match bytes with
  | [] => 0
  | b :: rest =>
    if isBlank b then 1 + spacingSpan rest
    else if b == 0x2F then
      match rest with
      | c :: body =>
        if c == 0x2A then
          have : commentSpan body ≤ body.length := commentSpan_le body
          let inner := commentSpan body
          2 + inner + spacingSpan (body.drop inner)
        else 0
      | [] => 0
    else 0
termination_by bytes.length
decreasing_by
  · simp
  · simp only [List.length_drop, List.length_cons]
    omega

theorem spacingSpan_le (bytes : List UInt8) : spacingSpan bytes ≤ bytes.length := by
  fun_induction spacingSpan bytes with
  | case1 => simp
  | case2 b rest blank ih => simp; omega
  | case3 b notBlank slash c body star bounded inner ih =>
    simp only [List.length_drop, List.length_cons] at ih ⊢
    omega
  | _ => simp

end StyleGrammar.Token

/-! ### Case policies for identifiers

Keywords are compared under a policy: exactly, or with ASCII letters equal regardless of case.
Characters outside ASCII are always compared exactly.

* `CasePolicy.canonical`: the canonical form of a text under a policy;
* `CasePolicy.equal`: two texts are equal under a policy, that is their folds are equal;
* `CasePolicy.matchesName`: the comparison of an identifier with a keyword, byte for byte, or
  pairwise over bytes with ASCII capitals lowered.
-/

namespace StyleGrammar

/-- An ASCII capital letter lowered; every other byte as it is. -/
def asciiLower (b : UInt8) : UInt8 :=
  if 0x41 ≤ b ∧ b ≤ 0x5A then b + 0x20 else b

/-- How an identifier is compared with a keyword. -/
inductive CasePolicy where
  /-- Byte for byte. -/
  | sensitive
  /-- ASCII letters compare equal regardless of case. -/
  | asciiInsensitive
  deriving DecidableEq, Repr

namespace CasePolicy

/-- The canonical form of a text: ASCII letters lowered under the insensitive policy. -/
def canonical : CasePolicy → String → String
  | sensitive, text => text
  | asciiInsensitive, text => text.map Char.toLower

/-- Two texts are equal under the policy when their canonical forms are equal. -/
def equal (policy : CasePolicy) (first second : String) : Bool :=
  policy.canonical first == policy.canonical second

/-- An identifier matches a keyword under the policy: byte for byte, or with as many bytes as
the keyword, each pair of bytes equal once ASCII capitals are lowered. -/
def matchesName : CasePolicy → String → String → Bool
  | sensitive, first, second => first == second
  | asciiInsensitive, first, second =>
    let firstBytes := first.toUTF8.toList
    let secondBytes := second.toUTF8.toList
    firstBytes.length == secondBytes.length &&
      (firstBytes.zip secondBytes).all fun pair => asciiLower pair.1 == asciiLower pair.2

/-- The policy's name. -/
def name : CasePolicy → String
  | sensitive => "sensitive"
  | asciiInsensitive => "insensitive"

end CasePolicy

end StyleGrammar
