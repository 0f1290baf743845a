import StyleGrammar.Grammar.Basic

/-!
**Cursor discipline: a failed reading leaves the cursor where it was.**

Every reader moves one cursor over a text and answers with the cursor where it stops. The
library's readers all keep one discipline, which lets a caller try one reader after another from
the same place without keeping a mark of its own:

* a reading that fails leaves the cursor exactly where it found it;
* a reading that succeeds leaves it on the same text, at or after where it started.

Each combinator keeps it by hand, going back to its own mark on every early exit: a repetition
below its least count returns to its start, a list returns to the mark after its last item when
a separator has no item after it, a number that turns out to be a dimension is put back. An
optional item never fails, and on a miss it returns to its start whatever its item's reader
did to the cursor.

* `Cursor.Ahead`: one cursor is another moved forward over the same text;
* `Obeys`, `Reader.Disciplined`: one reading, and every reading of a reader, keep the discipline;
* `Grammar.read_disciplined`: the reader of every grammar is disciplined, by induction over the
  grammar with one lemma per combinator;
* `Grammar.read_cursor_discipline`: the discipline in terms of positions, with the two optional
  combinators' behaviour on a miss.
-/

namespace StyleGrammar

/-! ### Moving forward -/

namespace Cursor

/-- `d` is `c` moved forward: the same text, at or after the position of `c`. -/
def Ahead (c d : Cursor) : Prop :=
  d.text = c.text ∧ c.pos ≤ d.pos

theorem Ahead.refl (c : Cursor) : c.Ahead c :=
  ⟨rfl, Nat.le_refl _⟩

theorem Ahead.trans {c d e : Cursor} (first : c.Ahead d) (second : d.Ahead e) : c.Ahead e :=
  ⟨second.1.trans first.1, Nat.le_trans first.2 second.2⟩

theorem ahead_forward (c : Cursor) (n : Nat) (h : n ≤ c.rest.length) : c.Ahead (c.forward n h) :=
  ⟨rfl, Nat.le_add_right _ _⟩

theorem ahead_skipSpacing (c : Cursor) : c.Ahead c.skipSpacing :=
  c.ahead_forward _ _

theorem ahead_of_takeByte? {c d : Cursor} {b : UInt8} (h : c.takeByte? b = some d) :
    c.Ahead d := by
  unfold takeByte? at h
  split at h
  · split at h
    · cases h
      exact c.ahead_forward _ _
    · cases h
  · cases h

/-- Taking an identifier is finding its text and moving over its token. -/
theorem takeIdentifier?_eq (c : Cursor) :
    c.takeIdentifier? = c.identifierText.toOption.join.map fun name =>
      (name, c.forward (Token.identifierSpan c.rest) (Token.identifierSpan_le _)) := by
  unfold takeIdentifier? takeIdentifierText
  cases c.identifierText with
  | error e => rfl
  | ok found => cases found <;> rfl

theorem ahead_of_takeIdentifier? {c d : Cursor} {name : String}
    (h : c.takeIdentifier? = some (name, d)) : c.Ahead d := by
  rw [takeIdentifier?_eq] at h
  obtain ⟨found, _, same⟩ := Option.map_eq_some_iff.1 h
  cases same
  exact c.ahead_forward _ _

theorem ahead_of_takeNumberToken? {c d : Cursor} {token : List UInt8}
    (h : c.takeNumberToken? = some (token, d)) : c.Ahead d := by
  unfold takeNumberToken? at h
  split at h
  · cases h
    exact c.ahead_forward _ _
  · cases h

theorem ahead_of_takeNumber? {c d : Cursor} {x : Binary64}
    (h : c.takeNumber? = some (x, d)) : c.Ahead d := by
  unfold takeNumber? at h
  split at h
  · rename_i token next found
    obtain ⟨y, _, same⟩ := Option.map_eq_some_iff.1 h
    cases same
    exact ahead_of_takeNumberToken? found
  · cases h

end Cursor

/-! ### The discipline -/

/-- One reading from `c` keeps the cursor discipline: a failure leaves the cursor at `c`, a
success leaves it ahead of `c`. -/
def Obeys (c : Cursor) : Option Value × Cursor → Prop
  | (none, after) => after = c
  | (some _, next) => c.Ahead next

/-- Every reading of the reader keeps the cursor discipline. -/
def Reader.Disciplined (step : Reader) : Prop :=
  ∀ c, Obeys c (step c)

theorem Obeys.ahead {c : Cursor} {result : Option Value × Cursor} (h : Obeys c result) :
    c.Ahead result.2 := by
  match result, h with
  | (none, _), rfl => exact Cursor.Ahead.refl c
  | (some _, _), ahead => exact ahead

/-! ### Leaves and loops -/

theorem Leaf.read_disciplined (kind : Leaf) : kind.read.Disciplined := by
  intro c
  cases kind with
  | number =>
    simp only [Leaf.read]
    split
    · rename_i x next found
      split
      · rfl
      · exact Cursor.ahead_of_takeNumber? found
    · rfl
  | integer =>
    simp only [Leaf.read]
    split
    · rename_i token next found
      split
      · rfl
      · split
        · split
          · rfl
          · exact Cursor.ahead_of_takeNumberToken? found
        · rfl
    · rfl
  | length =>
    simp only [Leaf.read]
    split
    · rename_i x next found
      split
      · rename_i name after named
        split
        · exact (Cursor.ahead_of_takeNumber? found).trans (Cursor.ahead_of_takeIdentifier? named)
        · rfl
      · split
        · exact Cursor.ahead_of_takeNumber? found
        · rfl
    · rfl
  | percentage =>
    simp only [Leaf.read]
    split
    · rename_i x next found
      split
      · rename_i after percent
        exact (Cursor.ahead_of_takeNumber? found).trans (Cursor.ahead_of_takeByte? percent)
      · rfl
    · rfl
  | identifier =>
    simp only [Leaf.read]
    split
    · rename_i name next found
      exact Cursor.ahead_of_takeIdentifier? found
    · rfl

theorem KeywordTable.read_disciplined (table : KeywordTable) : table.read.Disciplined := by
  intro c
  unfold KeywordTable.read
  split
  · rename_i name next found
    split
    · exact Cursor.ahead_of_takeIdentifier? found
    · rfl
  · rfl

/-- A run leaves the cursor at or after its start, whether or not it skips spacing first. -/
theorem readRunFrom_ahead {step : Reader} (h : step.Disciplined) :
    ∀ (limit : Nat) (skip : Bool) (c : Cursor), c.Ahead (readRunFrom step limit skip c).2 := by
  intro limit
  induction limit with
  | zero =>
    intro skip c
    exact Cursor.Ahead.refl c
  | succ limit ih =>
    intro skip c
    have start : c.Ahead (if skip then c.skipSpacing else c) := by
      cases skip
      · exact Cursor.Ahead.refl c
      · exact c.ahead_skipSpacing
    have obeys := h (if skip then c.skipSpacing else c)
    simp only [readRunFrom]
    generalize (if skip then c.skipSpacing else c) = before at start obeys ⊢
    split
    · exact Cursor.Ahead.refl c
    · rename_i v next found
      rw [found] at obeys
      split
      · exact start.trans obeys
      · exact (start.trans obeys).trans (ih true next)

theorem readRun_ahead {step : Reader} (h : step.Disciplined) (limit : Nat) (c : Cursor) :
    c.Ahead (readRun step limit c).2 :=
  readRunFrom_ahead h limit false c

theorem readSeparated_ahead {step : Reader} (h : step.Disciplined) (separator : UInt8) :
    ∀ (fuel : Nat) (c : Cursor), c.Ahead (readSeparated step separator fuel c).2 := by
  intro fuel
  induction fuel with
  | zero =>
    intro c
    exact Cursor.Ahead.refl c
  | succ fuel ih =>
    intro c
    simp only [readSeparated]
    split
    · exact Cursor.Ahead.refl c
    · rename_i afterSeparator found
      have separatorAhead := c.ahead_skipSpacing.trans (Cursor.ahead_of_takeByte? found)
      have obeys := h afterSeparator.skipSpacing
      split
      · rename_i v next read
        rw [read] at obeys
        exact ((separatorAhead.trans afterSeparator.ahead_skipSpacing).trans obeys).trans (ih next)
      · exact Cursor.Ahead.refl c

/-! ### Combinators -/

namespace Reader

variable {step : Reader}

theorem repetition_disciplined (h : step.Disciplined) (bounds : Bounds) :
    (Reader.repetition step bounds).Disciplined := by
  intro c
  have run := readRun_ahead h bounds.max c
  simp only [Reader.repetition]
  split
  · rfl
  · exact run

theorem shorthand_disciplined (h : step.Disciplined) (arity : Nat) :
    (Reader.shorthand step arity).Disciplined := by
  intro c
  have run := readRun_ahead h arity c
  simp only [Reader.shorthand]
  split
  · exact run
  · rfl

theorem separated_disciplined (h : step.Disciplined) (separator : Separator) :
    (Reader.separated step separator).Disciplined := by
  intro c
  have obeys := h c
  simp only [Reader.separated]
  split
  · rename_i first afterFirst found
    rw [found] at obeys
    exact obeys.trans (readSeparated_ahead h separator.byte _ afterFirst)
  · rfl

/-- An optional item never fails, and on a miss it puts the cursor back at the start, wherever
the item's reader left it. -/
theorem maybe_miss (step : Reader) (c : Cursor) :
    (Reader.maybe step c).1.isSome ∧ ((step c).1 = none → (Reader.maybe step c).2 = c) := by
  simp only [Reader.maybe]
  split
  · rename_i v next found
    simp [found]
  · simp

/-- An item with a default never fails, and on a miss it puts the cursor back at the start,
wherever the item's reader left it. -/
theorem orDefault_miss (step : Reader) (default : Value) (c : Cursor) :
    (Reader.orDefault step default c).1.isSome ∧
      ((step c).1 = none → (Reader.orDefault step default c).2 = c) := by
  simp only [Reader.orDefault]
  split
  · rename_i v next found
    simp [found]
  · simp

theorem maybe_disciplined (h : step.Disciplined) : (Reader.maybe step).Disciplined := by
  intro c
  have obeys := h c
  simp only [Reader.maybe]
  split
  · rename_i v next found
    rw [found] at obeys
    exact obeys
  · exact Cursor.Ahead.refl c

theorem orDefault_disciplined (h : step.Disciplined) (default : Value) :
    (Reader.orDefault step default).Disciplined := by
  intro c
  have obeys := h c
  simp only [Reader.orDefault]
  split
  · rename_i v next found
    rw [found] at obeys
    exact obeys
  · exact Cursor.Ahead.refl c

/-- An alternative keeps the discipline: a first reader that fails leaves the cursor at the
start, where the second one starts. -/
theorem orElse_disciplined {first second : Reader} (h₁ : first.Disciplined)
    (h₂ : second.Disciplined) : (Reader.orElse first second).Disciplined := by
  intro c
  have obeys := h₁ c
  simp only [Reader.orElse]
  split
  · rename_i v next found
    rw [found] at obeys
    exact obeys
  · rename_i after found
    rw [found] at obeys
    cases obeys
    exact h₂ c

theorem fail_disciplined : Reader.fail.Disciplined :=
  fun _ => rfl

end Reader

/-! ### Grammars -/

namespace Grammar

mutual

theorem read_disciplined : (g : Grammar) → g.read.Disciplined
  | leaf kind => kind.read_disciplined
  | keyword table => table.read_disciplined
  | repetition inner bounds => Reader.repetition_disciplined (read_disciplined inner) bounds
  | shorthand inner arity => Reader.shorthand_disciplined (read_disciplined inner) arity
  | separated inner separator => Reader.separated_disciplined (read_disciplined inner) separator
  | maybe inner => Reader.maybe_disciplined (read_disciplined inner)
  | orDefault inner default => Reader.orDefault_disciplined (read_disciplined inner) default
  | named inner _ => read_disciplined inner
  | choice alternatives => readFirst_disciplined alternatives

theorem readFirst_disciplined : (gs : List Grammar) → (readFirst gs).Disciplined
  | [] => Reader.fail_disciplined
  | g :: gs => Reader.orElse_disciplined (read_disciplined g) (readFirst_disciplined gs)

end

/-- **Cursor discipline of every grammar.** From any cursor, a reading that fails leaves the
cursor where it was; a reading that succeeds leaves it on the same text, at or after where it
was and within the text. An optional item, with or without a default, never fails, and on a
miss it puts the cursor back at the start, whatever its item's reader did to it. -/
theorem read_cursor_discipline :
    (∀ (g : Grammar) (c : Cursor),
      match g.read c with
      | (none, after) => after = c
      | (some _, next) => next.text = c.text ∧ c.pos ≤ next.pos ∧ next.pos ≤ c.text.length) ∧
    (∀ (step : Reader) (c : Cursor),
      (Reader.maybe step c).1.isSome ∧ ((step c).1 = none → (Reader.maybe step c).2 = c)) ∧
    (∀ (step : Reader) (default : Value) (c : Cursor),
      (Reader.orDefault step default c).1.isSome ∧
        ((step c).1 = none → (Reader.orDefault step default c).2 = c)) := by
  refine ⟨fun g c => ?_, Reader.maybe_miss, Reader.orDefault_miss⟩
  have obeys := g.read_disciplined c
  revert obeys
  cases g.read c with
  | mk found next =>
    cases found with
    | none => exact id
    | some v =>
      intro ahead
      exact ⟨ahead.1, ahead.2, ahead.1 ▸ next.pos_le⟩

end Grammar

end StyleGrammar
