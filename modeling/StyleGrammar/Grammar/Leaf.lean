import StyleGrammar.Grammar.Reader
import StyleGrammar.Grammar.Parameters
import StyleGrammar.Value
import StyleGrammar.Token.Basic

/-!
**Readers of one token: leaves and keyword tables.**

A leaf reads one token shape, a keyword table one identifier that is among its keywords. Both
put the cursor back where it was when they read nothing.
-/

/-! ### Single-token readers

Each leaf reads one token shape and nothing else; on failure it puts the cursor back where it was.

* `number`: a number token not followed by an identifier or `%`;
* `integer`: a number token without point or exponent that fits in 32 bits, with the same
  condition on what follows;
* `length`: a number token followed by a unit name in any ASCII case, or an exact zero that is
  followed by neither an identifier nor `%` (read as `0px`);
* `percentage`: a number token followed by `%`;
* `identifier`: an identifier token.
-/

namespace StyleGrammar

/-- The single-token readers. -/
inductive Leaf where
  | number
  | integer
  | length
  | percentage
  | identifier
  deriving DecidableEq, Repr

/-- A dimension follows: an identifier, or a percent sign. -/
def Cursor.atDimension (c : Cursor) : Bool :=
  c.identifierAhead || c.byteHere == 0x25

/-- The 32-bit integer that a number token without point or exponent writes, when it fits. -/
def integerOfToken? (token : List UInt8) : Option Int32 :=
  let magnitude : Int := Token.digitsValue (token.drop (Token.signLen token))
  let value := if token.head? == some 0x2D then -magnitude else magnitude
  if -2147483648 ≤ value ∧ value < 2147483648 then some (Int32.ofInt value) else none

/-- A point or an exponent mark. -/
def isFractionMark (b : UInt8) : Bool :=
  b == 0x2E || b == 0x65 || b == 0x45

namespace Leaf

/-- Read the leaf's token at the cursor; on failure the cursor stays at the start. -/
def read : Leaf → Reader
  | number, c =>
    match c.takeNumber? with
    | some (x, next) => if next.atDimension then (none, c) else (some (.number x), next)
    | none => (none, c)
  | integer, c =>
    match c.takeNumberToken? with
    | some (token, next) =>
      if token.any isFractionMark then (none, c)
      else
        match integerOfToken? token with
        | some n => if next.atDimension then (none, c) else (some (.integer n), next)
        | none => (none, c)
    | none => (none, c)
  | length, c =>
    match c.takeNumber? with
    | some (x, next) =>
      match next.takeIdentifier? with
      | some (name, after) =>
        match LengthUnit.named? name with
        | some unit => (some (.length x unit), after)
        | none => (none, c)
      | none =>
        if x.isZero && next.byteHere != 0x25 then (some (.length (Binary64.zero false) .px), next)
        else (none, c)
    | none => (none, c)
  | percentage, c =>
    match c.takeNumber? with
    | some (x, next) =>
      match next.takeByte? 0x25 with
      | some after => (some (.percentage x), after)
      | none => (none, c)
    | none => (none, c)
  | identifier, c =>
    match c.takeIdentifier? with
    | some (name, next) => (some (.ident name), next)
    | none => (none, c)

end Leaf

/-! ### Keyword tables

A keyword table maps identifiers to constant values under a case policy. Each key is kept in its
canonical form under the policy, in the order the keys were given.

* `KeywordTable.build?`: a table from entries, checked in order: a key that is not one identifier
  fails, then a key equal to an earlier one under the policy fails, named as written;
* `KeywordTable.lookup?`: the value of an identifier, compared under the policy;
* `KeywordTable.sortedKeys`: the canonical keys in byte order;
* `KeywordTable.read`: read an identifier that is a key, taking its value.
-/

/-- Keywords with their values, the keys canonical under the policy. -/
structure KeywordTable where
  policy : CasePolicy
  entries : List (String × Value)

namespace KeywordTable

/-- The table with no keywords. -/
def empty (policy : CasePolicy) : KeywordTable :=
  ⟨policy, []⟩

/-- Add one keyword, refusing a key that is not an identifier or is already present. -/
def insert? (table : KeywordTable) (keyword : String) (value : Value) : Except BuildError KeywordTable :=
  if !Token.isWholeIdentifier keyword then .error (.keywordNotIdentifier keyword)
  else
    let key := table.policy.canonical keyword
    if table.entries.any (fun entry => entry.1 == key) then .error (.keywordRepeated keyword)
    else .ok { table with entries := table.entries ++ [(key, value)] }

/-- A table from its entries, added in order. -/
def build? (policy : CasePolicy) (entries : List (String × Value)) : Except BuildError KeywordTable :=
  entries.foldlM (fun table entry => table.insert? entry.1 entry.2) (empty policy)

/-- The value of the keyword equal to the identifier under the policy. -/
def lookup? (table : KeywordTable) (identifier : String) : Option Value :=
  let key := table.policy.canonical identifier
  (table.entries.find? fun entry => entry.1 == key).map (·.2)

/-- The count of keywords. -/
def size (table : KeywordTable) : Nat :=
  table.entries.length

/-- The canonical keys in byte order. -/
def sortedKeys (table : KeywordTable) : List String :=
  (table.entries.map (·.1)).mergeSort fun a b => !decide (b < a)

/-- Read an identifier that is a keyword of the table, taking the keyword's value; any other
identifier is put back. -/
def read (table : KeywordTable) : Reader := fun c =>
  match c.takeIdentifier? with
  | some (name, next) =>
    match table.lookup? name with
    | some value => (some value, next)
    | none => (none, c)
  | none => (none, c)

end KeywordTable

end StyleGrammar
