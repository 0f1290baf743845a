import StyleGrammar.Grammar.Leaf
import StyleGrammar.Grammar.Reader

/-!
**Grammars of property values, and reading a whole text with one.**

A grammar is built from checked parts (`Grammar.Parameters`) and read by the readers of
`Grammar.Leaf` and `Grammar.Reader`; a whole text holds a value when the grammar reads it with
nothing but insignificant content around it.
-/

/-! ### Grammars of property values

A grammar is a tree of readers: leaves read one token, and the inner nodes combine them.

* `repetition`: a run of items within bounds, read as a tuple;
* `shorthand`: up to `arity` items, filled out to all slots, a missing slot copying the slot two
  before it; `boxShorthand` is the one of four slots;
* `separated`: one item or more, separated by a byte;
* `keyword`: an identifier from a table, read as the keyword's value;
* `maybe`, `orDefault`: an item, or nothing, or a default;
* `named`: the inner grammar, with names attached;
* `choice`: the first alternative that reads.

`Grammar.read` is the reader of a grammar: each node is the combinator of its kind applied to
the reader of its inner grammar.
-/

namespace StyleGrammar

/-- A grammar of property values. -/
inductive Grammar where
  /-- One token. -/
  | leaf (kind : Leaf)
  /-- An identifier that is a keyword of the table. -/
  | keyword (table : KeywordTable)
  /-- Between `bounds.min` and `bounds.max` items. -/
  | repetition (inner : Grammar) (bounds : Bounds)
  /-- One to `arity` items, filled out to `arity` slots; an arity of zero reads nothing. -/
  | shorthand (inner : Grammar) (arity : Nat)
  /-- One item or more, separated by the separator. -/
  | separated (inner : Grammar) (separator : Separator)
  /-- An item, or nothing. -/
  | maybe (inner : Grammar)
  /-- An item, or the default. -/
  | orDefault (inner : Grammar) (default : Value)
  /-- The inner grammar, with names attached. -/
  | named (inner : Grammar) (labels : List String)
  /-- The first alternative that reads. -/
  | choice (alternatives : List Grammar)

namespace Grammar

mutual

/-- The reader of a grammar. -/
def read : Grammar → Reader
  | leaf kind => kind.read
  | keyword table => table.read
  | repetition inner bounds => Reader.repetition inner.read bounds
  | shorthand inner arity => Reader.shorthand inner.read arity
  | separated inner separator => Reader.separated inner.read separator
  | maybe inner => Reader.maybe inner.read
  | orDefault inner default => Reader.orDefault inner.read default
  | named inner _ => inner.read
  | choice alternatives => readFirst alternatives

/-- The reader of the first alternative that reads, each alternative starting where the one
before it left the cursor. -/
def readFirst : List Grammar → Reader
  | [] => Reader.fail
  | g :: gs => Reader.orElse g.read (readFirst gs)

end

/-- The box shorthand of a grammar: one to four items, for the top, right, bottom and left
edges. -/
def boxShorthand (inner : Grammar) : Grammar :=
  shorthand inner Shorthand.boxEdges

end Grammar

/-! ### Reading a whole text

A text holds a value when, after insignificant content, the grammar reads a value and only
insignificant content follows it. As a property's value a text may also be the keyword
`inherit` alone, in any ASCII case; when it is not, the value is read from the same start.

* `Grammar.parse?`: the value a whole text holds;
* `Grammar.parseProperty?`: the property value a whole text holds.
-/

/-- Only insignificant content is left. -/
def Cursor.atEndOfContent (c : Cursor) : Bool :=
  c.skipSpacing.atEnd

/-- The keyword `inherit` stands at the cursor, with nothing but insignificant content after
it. -/
def Cursor.inheritAlone (c : Cursor) : Bool :=
  match c.takeKeyword? .asciiInsensitive "inherit" with
  | some next => next.atEndOfContent
  | none => false

namespace Grammar

/-- The value that the whole text holds. -/
def parse? (g : Grammar) (text : String) : Option Value :=
  let start := (Cursor.ofString text).skipSpacing
  match g.read start with
  | (some v, next) => if next.atEndOfContent then some v else none
  | (none, _) => none

/-- The property value that the whole text holds: `inherit` alone, or a value. -/
def parseProperty? (g : Grammar) (text : String) : Option StyleValue :=
  let start := (Cursor.ofString text).skipSpacing
  if start.inheritAlone then some .inherit
  else
    match g.read start with
    | (some v, next) => if next.atEndOfContent then some (.written v) else none
    | (none, _) => none

end Grammar

end StyleGrammar
