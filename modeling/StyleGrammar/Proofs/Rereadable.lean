import StyleGrammar.Proofs.LeafText
import StyleGrammar.Proofs.Runs
import StyleGrammar.Grammar.Basic
import StyleGrammar.Proofs.Spacing

/-!
**Grammars whose values read back from their text.**

Writing a value and reading its text again gives the value back only for some grammars. An item
that reads no bytes, such as an item with a default, makes a run read one item more from the
text of a run that ended on it; a repetition that stopped short of its greatest count takes
more items when one is written next to it; and a shorthand writes one item in several slots,
where other items follow it than in the text it was read from. This module names the grammars
that avoid all three, and describes the values they read together with how each value ends:

* `Grammar.Solid`: every reading takes bytes, and none starts at the end or at a separator;
* `Grammar.Closed`: how a value ends does not depend on the value;
* `Grammar.RoundTrips`: the grammars of the round trip;
* `Grammar.Trail`, `Grammar.Produces`: which followers the end of a value allows, and the values
  such a grammar reads;
* `Follow.Written`, `Follow.Found`: what follows a value in written text, and in text that was
  read;
* `Grammar.read_none_of_solid`, `Grammar.read_advances_of_solid`, `Grammar.text_opens`,
  `Grammar.trail_of_closed`, `Grammar.trail_congr`: what the classes give.
-/

namespace StyleGrammar

/-- What follows a value in text: the end, the next item of a run after a blank, or the next item
of a list after its separator. -/
inductive Follow where
  | done
  | sibling
  | separator (byte : UInt8)
  deriving DecidableEq

namespace Grammar

/-- Every reading of the grammar takes at least one byte, and none starts at the end of the
text or at a separator: leaves and keywords, and the combinators that read at least one item of
such a grammar. -/
def Solid : Grammar → Prop
  | leaf _ => True
  | keyword _ => True
  | repetition inner bounds => 1 ≤ bounds.min ∧ inner.Solid
  | shorthand inner _ => inner.Solid
  | separated inner _ => inner.Solid
  | maybe _ => False
  | orDefault _ _ => False
  | named inner _ => inner.Solid
  | choice _ => False

/-- How a value of the grammar ends depends only on the grammar: leaves and keywords, and
shorthands, lists and names of such grammars, but no repetition. -/
def Closed : Grammar → Prop
  | leaf _ => True
  | keyword _ => True
  | repetition _ _ => False
  | shorthand inner _ => inner.Closed
  | separated inner _ => inner.Closed
  | maybe _ => False
  | orDefault _ _ => False
  | named inner _ => inner.Closed
  | choice _ => False

/-- The grammars whose values read back from their text: leaves, keyword tables whose constants
spell their own keys, repetitions, shorthands of at least one slot and lists of solid items, names,
and defaults that the inner grammar reads from some text. The items of a shorthand are also
closed, since the shorthand may write one of them in several slots. -/
def RoundTrips : Grammar → Prop
  | leaf _ => True
  | keyword table => table.SelfSpelled
  | repetition inner _ => inner.RoundTrips ∧ inner.Solid
  | shorthand inner arity => inner.RoundTrips ∧ inner.Solid ∧ inner.Closed ∧ 1 ≤ arity
  | separated inner _ => inner.RoundTrips ∧ inner.Solid
  | maybe _ => False
  | orDefault inner default => inner.RoundTrips ∧ ∃ text, inner.parse? text = some default
  | named inner _ => inner.RoundTrips
  | choice _ => False

/-- What may follow the end of a value: a repetition that stops short of its greatest count
ends only where its item cannot be read, so no next item of a run may follow it; a list ends
only where its own separator does not follow; every other value ends as its last item ends. -/
def Trail : Grammar → Value → Follow → Prop
  | leaf _, _, _ => True
  | keyword _, _, _ => True
  | repetition inner bounds, .tuple items, next =>
    (items.length = bounds.max ∨ next ≠ .sibling) ∧ ∀ w ∈ items.getLast?, inner.Trail w next
  | shorthand inner _, .periodic slots, next => ∀ w ∈ slots.getLast?, inner.Trail w next
  | separated inner separator, .list items _, next =>
    next ≠ .separator separator.byte ∧ ∀ w ∈ items.getLast?, inner.Trail w next
  | orDefault inner _, v, next => inner.Trail v next
  | named inner _, v, next => inner.Trail v next
  | _, _, _ => False

/-- The values that a grammar of the round trip reads: leaves of the leaf's shape, constants
that spell themselves, tuples of admitted length, shorthands with all their slots and lists of
the separator's byte, each of whose items but the last ends where the next item may follow. -/
def Produces : Grammar → Value → Prop
  | leaf kind, v => kind.Produces v
  | keyword table, v => table.Spells v
  | repetition inner bounds, v => ∃ items, v = .tuple items ∧ bounds.admits items.length = true ∧
    (∀ w ∈ items, inner.Produces w) ∧ ∀ w ∈ items.dropLast, inner.Trail w .sibling
  | shorthand inner arity, v => ∃ slots, v = .periodic slots ∧ slots ≠ [] ∧
    slots.length = arity ∧ ∀ w ∈ slots, inner.Produces w
  | separated inner separator, v => ∃ items, v = .list items separator.byte ∧ items ≠ [] ∧
    (∀ w ∈ items, inner.Produces w) ∧
      ∀ w ∈ items.dropLast, inner.Trail w (.separator separator.byte)
  | maybe _, _ => False
  | orDefault inner _, v => inner.Produces v
  | named inner _, v => inner.Produces v
  | choice _, _ => False

end Grammar

namespace Follow

/-- The bytes after a value in written text: none at the end, a blank before the next item of a
run, the text of a separator before the next item of a list. -/
def Written : Follow → List UInt8 → Prop
  | done, after => after = []
  | sibling, after => ∃ b rest, after = 0x20 :: b :: rest ∧ OpensItem b
  | separator s, after => separatorAllowed s = true ∧
    ∃ b rest, after = (Value.separatorText s).toUTF8.toList ++ b :: rest ∧ OpensItem b

/-- What followed a value where its reading ended, in the text that was read: only
insignificant content; or a value of `g` after insignificant content; or the separator and then
a value of `g`, with insignificant content around the separator. -/
def Found (next : Follow) (g : Grammar) (c : Cursor) : Prop :=
  match next with
  | done => c.atEndOfContent = true
  | sibling => (g.read c.skipSpacing).1.isSome = true
  | separator s => ∃ d, c.skipSpacing.takeByte? s = some d ∧ (g.read d.skipSpacing).1.isSome = true

end Follow

/-! ### Readers that read nothing at their start -/

/-- The items of a run are read one after another from the run's start. -/
theorem readRun_chained {step : Reader} {limit : Nat} {c last : Cursor} {items : List Value}
    (h : readRun step limit c = (items, last)) :
    (items = [] ∧ last = c) ∨ Chained step runGap c items last :=
  readRunFrom_chained limit false c items last h

theorem readRun_of_none {step : Reader} {c : Cursor} (missing : (step c).1 = none) (limit : Nat) :
    readRun step limit c = ([], c) := by
  cases limit with
  | zero => rfl
  | succ limit =>
    simp only [readRun, readRunFrom, Bool.false_eq_true, if_false]
    split
    · rfl
    · rename_i v next found
      rw [found] at missing
      cases missing

namespace Reader

variable {step : Reader} {c : Cursor}

/-- A repetition of at least one item reads only where its item reads. -/
theorem repetition_first {bounds : Bounds} (least : 1 ≤ bounds.min)
    (h : (Reader.repetition step bounds c).1.isSome = true) : (step c).1.isSome = true := by
  cases found : (step c).1 with
  | some v => rfl
  | none =>
    simp only [Reader.repetition, readRun_of_none found, List.length_nil] at h
    rw [if_pos (by omega)] at h
    cases h

/-- A shorthand reads only where its item reads. -/
theorem shorthand_first {arity : Nat} (h : (Reader.shorthand step arity c).1.isSome = true) :
    (step c).1.isSome = true := by
  cases found : (step c).1 with
  | some v => rfl
  | none => simp [Reader.shorthand, readRun_of_none found, Shorthand.fill?] at h

/-- A list reads only where its first item reads. -/
theorem separated_first {separator : Separator}
    (h : (Reader.separated step separator c).1.isSome = true) : (step c).1.isSome = true := by
  cases found : (step c).1 with
  | some v => rfl
  | none =>
    simp only [Reader.separated] at h
    split at h
    · rename_i first afterFirst read
      rw [read] at found
      cases found
    · cases h

end Reader

namespace Follow

variable {next : Follow} {c : Cursor}

theorem Found.repetition {inner : Grammar} {bounds : Bounds} (least : 1 ≤ bounds.min)
    (h : next.Found (.repetition inner bounds) c) : next.Found inner c := by
  cases next with
  | done => exact h
  | sibling => exact Reader.repetition_first least h
  | separator s =>
    obtain ⟨d, taken, reads⟩ := h
    exact ⟨d, taken, Reader.repetition_first least reads⟩

theorem Found.shorthand {inner : Grammar} {arity : Nat}
    (h : next.Found (.shorthand inner arity) c) : next.Found inner c := by
  cases next with
  | done => exact h
  | sibling => exact Reader.shorthand_first h
  | separator s =>
    obtain ⟨d, taken, reads⟩ := h
    exact ⟨d, taken, Reader.shorthand_first reads⟩

theorem Found.separated {inner : Grammar} {separator : Separator}
    (h : next.Found (.separated inner separator) c) : next.Found inner c := by
  cases next with
  | done => exact h
  | sibling => exact Reader.separated_first h
  | separator s =>
    obtain ⟨d, taken, reads⟩ := h
    exact ⟨d, taken, Reader.separated_first reads⟩

end Follow

/-! ### Runs that move -/

theorem Chained.advances {step : Reader} {gap : Cursor → Cursor → Prop}
    (advancing : ∀ c v n, step c = (some v, n) → c.pos < n.pos)
    (gapAhead : ∀ e s, gap e s → e.pos ≤ s.pos) {c last : Cursor} {items : List Value}
    (h : Chained step gap c items last) : c.pos < last.pos := by
  induction h with
  | one found => exact advancing _ _ _ found
  | cons found between _ ih =>
    have := advancing _ _ _ found
    have := gapAhead _ _ between
    omega

theorem runGap_ahead (e s : Cursor) (gap : runGap e s) : e.pos ≤ s.pos := by
  unfold runGap at gap
  rw [gap]
  exact e.ahead_skipSpacing.2

/-- The slots filled from the written items, and the count of these. -/
theorem Shorthand.fill?_eq_some {α : Type} {arity : Nat} {written slots : List α}
    (h : Shorthand.fill? arity written = some slots) :
    ∃ fits : 0 < written.length ∧ written.length ≤ arity,
      slots = (List.range arity).map fun slot =>
        written.get ⟨Shorthand.copiedSlot written.length slot, Shorthand.copiedSlot_lt fits.1 slot⟩ := by
  unfold Shorthand.fill? at h
  split at h
  · rename_i fits
    exact ⟨fits, (Option.some.inj h).symm⟩
  · cases h

/-- All slots written fill back to themselves. -/
theorem Shorthand.fill?_self {α : Type} {slots : List α} (nonempty : slots ≠ []) :
    Shorthand.fill? slots.length slots = some slots := by
  have fits : 0 < slots.length ∧ slots.length ≤ slots.length :=
    ⟨List.length_pos_iff.2 nonempty, Nat.le_refl _⟩
  unfold Shorthand.fill?
  rw [dif_pos fits]
  congr 1
  apply List.ext_getElem
  · simp
  · intro i inMap inSlots
    simp [Shorthand.copiedSlot_of_lt inSlots]

namespace Grammar

/-! ### Solid grammars -/

/-- A solid grammar reads nothing at the end of the text or where a separator stands. -/
theorem read_none_of_solid : (g : Grammar) → g.Solid → ∀ c : Cursor,
    (∀ b ∈ c.rest.head?, separatorAllowed b = true) → (g.read c).1 = none
  | leaf kind, _, _, h => kind.read_none h
  | keyword table, _, _, h => table.read_none h
  | repetition inner bounds, ⟨least, solid⟩, c, h => by
    have missing := read_none_of_solid inner solid c h
    simp only [read, Reader.repetition, readRun_of_none missing, List.length_nil]
    rw [if_pos (by omega)]
  | shorthand inner arity, solid, c, h => by
    have missing := read_none_of_solid inner solid c h
    simp [read, Reader.shorthand, readRun_of_none missing, Shorthand.fill?]
  | separated inner separator, solid, c, h => by
    have missing := read_none_of_solid inner solid c h
    simp only [read, Reader.separated]
    split
    · rename_i first afterFirst found
      rw [found] at missing
      cases missing
    · rfl
  | named inner _, solid, c, h => read_none_of_solid inner solid c h
  | maybe _, solid, _, _ => solid.elim
  | orDefault _ _, solid, _, _ => solid.elim
  | choice _, solid, _, _ => solid.elim

/-- A solid grammar that reads moves the cursor forward. -/
theorem read_advances_of_solid : (g : Grammar) → g.Solid → ∀ (c : Cursor) (v : Value)
    (next : Cursor), g.read c = (some v, next) → c.pos < next.pos
  | leaf kind, _, _, _, _, h => Leaf.read_advances h
  | keyword table, _, _, _, _, h => KeywordTable.read_advances h
  | repetition inner bounds, ⟨least, solid⟩, c, v, next, h => by
    have advancing := read_advances_of_solid inner solid
    simp only [read, Reader.repetition] at h
    rcases run : readRun inner.read bounds.max c with ⟨items, last⟩
    rw [run] at h
    simp only at h
    split at h
    · cases h
    · rename_i enough
      cases h
      rcases readRun_chained run with ⟨rfl, -⟩ | chain
      · simp at enough
        omega
      · exact chain.advances advancing runGap_ahead
  | shorthand inner arity, solid, c, v, next, h => by
    have advancing := read_advances_of_solid inner solid
    simp only [read, Reader.shorthand] at h
    rcases run : readRun inner.read arity c with ⟨items, last⟩
    rw [run] at h
    simp only at h
    split at h
    · rename_i slots filled
      cases h
      obtain ⟨⟨nonempty, -⟩, -⟩ := Shorthand.fill?_eq_some filled
      rcases readRun_chained run with ⟨rfl, -⟩ | chain
      · simp at nonempty
      · exact chain.advances advancing runGap_ahead
    · cases h
  | separated inner separator, solid, c, v, next, h => by
    simp only [read, Reader.separated] at h
    split at h
    · rename_i first afterFirst found
      have moved := read_advances_of_solid inner solid c first afterFirst found
      have rest := readSeparated_ahead (read_disciplined inner) separator.byte
        afterFirst.rest.length afterFirst
      rcases loop : readSeparated inner.read separator.byte afterFirst.rest.length afterFirst
        with ⟨more, last⟩
      rw [loop] at h rest
      cases h
      have := rest.2
      omega
    · cases h
  | named inner _, solid, c, v, next, h => read_advances_of_solid inner solid c v next h
  | maybe _, solid, _, _, _, _ => solid.elim
  | orDefault _ _, solid, _, _, _, _ => solid.elim
  | choice _, solid, _, _, _, _ => solid.elim

/-- The text of items joined opens as the text of the first item does. -/
theorem opens_of_joinAll {sep text : String} {first : Value} {more : List Value}
    (rendered : Value.joinAll sep (Value.renderList (first :: more)) = some text)
    (opens : ∀ head, first.render? = some head →
      ∃ b rest, head.toUTF8.toList = b :: rest ∧ OpensItem b) :
    ∃ b rest, text.toUTF8.toList = b :: rest ∧ OpensItem b := by
  cases more with
  | nil =>
    rw [Value.renderList_cons, Value.renderList, Value.joinAll_singleton] at rendered
    exact opens text rendered
  | cons second more =>
    rw [Value.renderList_cons] at rendered
    obtain ⟨head, tail, headText, -, rfl⟩ := Value.joinAll_cons_cons rendered
    obtain ⟨b, rest, bytes, opening⟩ := opens head headText
    exact ⟨b, rest ++ (sep ++ tail).toUTF8.toList,
      by rw [String.append_assoc, toUTF8_toList_append, bytes, List.cons_append], opening⟩

/-- The text of a value of a solid grammar opens an item. -/
theorem text_opens : (g : Grammar) → g.Solid → ∀ (v : Value) (text : String), g.Produces v →
    v.render? = some text → ∃ b rest, text.toUTF8.toList = b :: rest ∧ OpensItem b
  | leaf _, _, _, _, shape, rendered => Leaf.text_opens shape rendered
  | keyword _, _, _, _, spells, rendered => KeywordTable.text_opens spells rendered
  | repetition inner bounds, ⟨least, solid⟩, _, text, ⟨items, rfl, admits, produced, _⟩,
      rendered => by
    cases items with
    | nil => simp [Bounds.admits] at admits; omega
    | cons first more =>
      exact opens_of_joinAll rendered fun head headText =>
        text_opens inner solid first head (produced first (by simp)) headText
  | shorthand inner _, solid, _, text, ⟨slots, rfl, nonempty, _, produced⟩, rendered => by
    cases slots with
    | nil => exact absurd rfl nonempty
    | cons first more =>
      exact opens_of_joinAll rendered fun head headText =>
        text_opens inner solid first head (produced first (by simp)) headText
  | separated inner _, solid, _, text, ⟨items, rfl, nonempty, produced, _⟩, rendered => by
    cases items with
    | nil => exact absurd rfl nonempty
    | cons first more =>
      exact opens_of_joinAll rendered fun head headText =>
        text_opens inner solid first head (produced first (by simp)) headText
  | named inner _, solid, v, text, produced, rendered =>
    text_opens inner solid v text produced rendered
  | maybe _, solid, _, _, _, _ => solid.elim
  | orDefault _ _, solid, _, _, _, _ => solid.elim
  | choice _, solid, _, _, _, _ => solid.elim

/-! ### Closed grammars -/

/-- A value of a closed grammar may be followed by the end or by a next item of a run. -/
theorem trail_of_closed : (g : Grammar) → g.Closed → ∀ (v : Value) (next : Follow),
    g.Produces v → (∀ s, next ≠ .separator s) → g.Trail v next
  | leaf _, _, _, _, _, _ => trivial
  | keyword _, _, _, _, _, _ => trivial
  | shorthand inner _, closed, _, next, ⟨slots, rfl, _, _, produced⟩, notSeparator =>
    fun w last => trail_of_closed inner closed w next (produced w (List.mem_of_getLast? last))
      notSeparator
  | separated inner _, closed, _, next, ⟨items, rfl, _, produced, _⟩, notSeparator =>
    ⟨notSeparator _, fun w last => trail_of_closed inner closed w next
      (produced w (List.mem_of_getLast? last)) notSeparator⟩
  | named inner _, closed, v, next, produced, notSeparator =>
    trail_of_closed inner closed v next produced notSeparator
  | repetition _ _, closed, _, _, _, _ => closed.elim
  | maybe _, closed, _, _, _, _ => closed.elim
  | orDefault _ _, closed, _, _, _, _ => closed.elim
  | choice _, closed, _, _, _, _ => closed.elim

/-- The values of a closed grammar all allow the same followers. -/
theorem trail_congr : (g : Grammar) → g.Closed → ∀ (v w : Value) (next : Follow),
    g.Produces v → g.Produces w → g.Trail v next → g.Trail w next
  | leaf _, _, _, _, _, _, _, _ => trivial
  | keyword _, _, _, _, _, _, _, _ => trivial
  | shorthand inner _, closed, _, _, next, ⟨slots, rfl, nonempty, _, produced⟩,
      ⟨slots', rfl, _, _, produced'⟩, trail => fun w' last' => by
    obtain ⟨last, found⟩ := Option.isSome_iff_exists.1 (List.getLast?_isSome.2 nonempty)
    exact trail_congr inner closed last w' next (produced last (List.mem_of_getLast? found))
      (produced' w' (List.mem_of_getLast? last')) (trail last found)
  | separated inner _, closed, _, _, next, ⟨items, rfl, nonempty, produced, _⟩,
      ⟨items', rfl, _, produced', _⟩, trail => ⟨trail.1, fun w' last' => by
    obtain ⟨last, found⟩ := Option.isSome_iff_exists.1 (List.getLast?_isSome.2 nonempty)
    exact trail_congr inner closed last w' next (produced last (List.mem_of_getLast? found))
      (produced' w' (List.mem_of_getLast? last')) (trail.2 last found)⟩
  | named inner _, closed, v, w, next, produced, produced', trail =>
    trail_congr inner closed v w next produced produced' trail
  | repetition _ _, closed, _, _, _, _, _, _ => closed.elim
  | maybe _, closed, _, _, _, _, _, _ => closed.elim
  | orDefault _ _, closed, _, _, _, _, _, _ => closed.elim
  | choice _, closed, _, _, _, _, _, _ => closed.elim

end Grammar

/-! ### Written text between items -/

namespace Token

theorem spacingSpan_of_opens {b : UInt8} (opens : OpensItem b) (rest : List UInt8) :
    spacingSpan (b :: rest) = 0 := by
  have notSlash : (b == 0x2F) = false := by
    cases same : b == 0x2F
    · rfl
    · simp only [beq_iff_eq] at same
      subst same
      exact absurd opens.2 (by decide)
  rw [spacingSpan.eq_def]
  simp [opens.1, notSlash]

/-- A separator followed by a blank starts no spacing, even when it is a slash. -/
theorem spacingSpan_separator {s : UInt8} (allowed : separatorAllowed s = true)
    (rest : List UInt8) : spacingSpan (s :: 0x20 :: rest) = 0 := by
  have notBlank := (separatorAllowed_opens_nothing allowed).2.2.2.2.2
  rw [spacingSpan.eq_def]
  simp [notBlank]

end Token

namespace Cursor

theorem skipSpacing_rest (c : Cursor) :
    c.skipSpacing.rest = c.rest.drop (Token.spacingSpan c.rest) :=
  rfl

theorem skipSpacing_of_opens {c : Cursor} {b : UInt8} {rest : List UInt8}
    (split : c.rest = b :: rest) (opens : OpensItem b) : c.skipSpacing.rest = b :: rest := by
  rw [skipSpacing_rest, split, Token.spacingSpan_of_opens opens, List.drop_zero]

theorem skipSpacing_blank {c : Cursor} {b : UInt8} {rest : List UInt8}
    (split : c.rest = 0x20 :: b :: rest) (opens : OpensItem b) : c.skipSpacing.rest = b :: rest := by
  rw [skipSpacing_rest, split, Token.spacingSpan_blank (by decide),
    Token.spacingSpan_of_opens opens]
  rfl

/-- Spacing before a separator's text is skipped up to the separator. -/
theorem skipSpacing_separatorText {c : Cursor} {s b : UInt8} {rest : List UInt8}
    (allowed : separatorAllowed s = true)
    (split : c.rest = (Value.separatorText s).toUTF8.toList ++ b :: rest) :
    c.skipSpacing.rest = s :: 0x20 :: b :: rest := by
  rw [Value.separatorText_bytes allowed] at split
  rw [skipSpacing_rest, split]
  by_cases comma : s = 0x2C
  · subst comma
    rw [if_pos rfl, List.cons_append, List.cons_append, List.nil_append,
      Token.spacingSpan_separator allowed, List.drop_zero]
  · rw [if_neg comma, List.cons_append, List.cons_append, List.cons_append, List.nil_append,
      Token.spacingSpan_blank (by decide), Token.spacingSpan_separator allowed]
    rfl

theorem takeByte?_of_nil {c : Cursor} (empty : c.rest = []) (b : UInt8) : c.takeByte? b = none := by
  unfold takeByte?
  split
  · rename_i x more found
    rw [empty] at found
    cases found
  · rfl

theorem takeByte?_of_ne {c : Cursor} {x b : UInt8} {rest : List UInt8} (split : c.rest = x :: rest)
    (other : x ≠ b) : c.takeByte? b = none := by
  unfold takeByte?
  split
  · rename_i y more found
    rw [split, List.cons.injEq] at found
    obtain ⟨rfl, rfl⟩ := found
    simp [other]
  · rfl

end Cursor

namespace Follow

/-- What follows a written value delimits its last token. -/
theorem Written.delimits {next : Follow} {after : List UInt8} (h : next.Written after) :
    Delimits after := by
  cases next with
  | done =>
    rw [h]
    intro b mem
    cases mem
  | sibling =>
    obtain ⟨b, rest, rfl, -⟩ := h
    intro x mem
    simp only [List.head?_cons, Option.mem_def, Option.some.injEq] at mem
    subst mem
    decide
  | separator s =>
    obtain ⟨allowed, b, rest, rfl, -⟩ := h
    rw [Value.separatorText_bytes allowed]
    intro x mem
    split at mem <;>
    · simp only [List.cons_append, List.head?_cons, Option.mem_def, Option.some.injEq] at mem
      subst mem
      decide

end Follow

end StyleGrammar
