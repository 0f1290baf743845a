import StyleGrammar.Cursor
import StyleGrammar.Value
import StyleGrammar.Grammar.Parameters
import StyleGrammar.Shorthand

/-!
**Readers, the loops that read sequences, and the combinators built on them.**

A reader answers with the value it finds, if any, and the cursor where it leaves the text. The
combinators of this module are the readers of the inner nodes of a grammar.
-/

/-! ### Reading sequences of items

A reader looks for a value at a cursor. It answers with the value, when it finds one, and with
the cursor where it leaves the text: after the value on success, and back where it started on
failure for every reader of this library. Two loops build sequences from a reader:

* `readRunFrom`, `readRun`: up to `limit` items, insignificant content allowed before each item
  after the first. The loop stops at the first item that cannot be read, after an item that took
  no text, or after `limit` items, and leaves the cursor after the last item it kept;
* `readSeparated`: items that each follow a separator byte, insignificant content allowed around
  the separator; a separator without an item after it is left unread. The loop has no bound of
  its own: it runs on fuel, one round per unread byte, which is enough because every round that
  goes on takes the separator.
-/

namespace StyleGrammar

/-- A reading step: the value found, if any, and the cursor where the step leaves the text. -/
abbrev Reader := Cursor → Option Value × Cursor

/-- A reader given by a function shows itself in debug output by its kind alone: the function
has no text to show. -/
def Reader.debugText : String := "FromFn"

/-- Up to `limit` items; `skip` says whether insignificant content may come before the first. -/
def readRunFrom (step : Reader) : Nat → Bool → Cursor → List Value × Cursor
  | 0, _, c => ([], c)
  | limit + 1, skip, c =>
    let before := if skip then c.skipSpacing else c
    match step before with
    | (none, _) => ([], c)
    | (some v, next) =>
      if next.pos = before.pos then ([v], next)
      else
        let (more, last) := readRunFrom step limit true next
        (v :: more, last)

/-- Up to `limit` items, insignificant content allowed between them. -/
def readRun (step : Reader) (limit : Nat) (c : Cursor) : List Value × Cursor :=
  readRunFrom step limit false c

/-- The items after the first of a list, each after a separator; at most `fuel` rounds. -/
def readSeparated (step : Reader) (separator : UInt8) : Nat → Cursor → List Value × Cursor
  | 0, c => ([], c)
  | fuel + 1, c =>
    match c.skipSpacing.takeByte? separator with
    | none => ([], c)
    | some afterSeparator =>
      match step afterSeparator.skipSpacing with
      | (some v, next) =>
        let (more, last) := readSeparated step separator fuel next
        (v :: more, last)
      | (none, _) => ([], c)

/-! ### Readers built from readers

Each combinator takes the reader of its items and keeps its own mark of where it started, so
that a failure puts the cursor back there:

* `Reader.repetition`: a run of items within bounds, read as a tuple;
* `Reader.shorthand`: one to `arity` items, filled out to all slots;
* `Reader.separated`: one item or more, separated by a byte;
* `Reader.maybe`, `Reader.orDefault`: an item, or nothing, or a default, never a failure;
* `Reader.orElse`, `Reader.fail`: the first of two readers that reads, the second starting
  wherever the first left the cursor, and the reader that reads nothing.
-/

namespace Reader

/-- A run of items within the bounds, read as a tuple; with fewer than the least count there
is no value, and the cursor goes back to the start. -/
def repetition (step : Reader) (bounds : Bounds) : Reader := fun c =>
  let (items, next) := readRun step bounds.max c
  if items.length < bounds.min then (none, c) else (some (.tuple items), next)

/-- One to `arity` items, filled out to `arity` slots; without an item the cursor goes back to
the start. -/
def shorthand (step : Reader) (arity : Nat) : Reader := fun c =>
  let (items, next) := readRun step arity c
  match Shorthand.fill? arity items with
  | some slots => (some (.periodic slots), next)
  | none => (none, c)

/-- One item or more, separated by the separator. -/
def separated (step : Reader) (separator : Separator) : Reader := fun c =>
  match step c with
  | (some first, afterFirst) =>
    let (more, next) := readSeparated step separator.byte afterFirst.rest.length afterFirst
    (some (.list (first :: more) separator.byte), next)
  | (none, _) => (none, c)

/-- An item, or nothing, in which case the cursor goes back to the start. -/
def maybe (step : Reader) : Reader := fun c =>
  match step c with
  | (some v, next) => (some (.optional (some v)), next)
  | (none, _) => (some (.optional none), c)

/-- An item, or the default in its place, in which case the cursor goes back to the start. -/
def orDefault (step : Reader) (default : Value) : Reader := fun c =>
  match step c with
  | (some v, next) => (some v, next)
  | (none, _) => (some default, c)

/-- The first reader's value, or else the second reader's from where the first left the
cursor. -/
def orElse (first second : Reader) : Reader := fun c =>
  match first c with
  | (some v, next) => (some v, next)
  | (none, after) => second after

/-- The reader that reads nothing. -/
def fail : Reader := fun c => (none, c)

end Reader

end StyleGrammar
