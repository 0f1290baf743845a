import StyleGrammar.Proofs.Padding
import StyleGrammar.Proofs.PropertyValue

/-!
**Padding around a text changes no reading.**

Padding before a text is skipped with the text's own opening insignificant content. Padding
after it is met by a reader only where the reader has reached the end of the text, and there
every reader acts as it acts at the end: it reads nothing, or reads what it reads from the text
and takes no more. The argument follows the grammar, with one lemma per combinator.

* `Reader.Still`: a reader does not move over padding; `Grammar.read_still` for every grammar;
* `Reader.Trailing`: a reader reads the same value from two cursors with padding between them,
  and leaves them in the same relation; `Grammar.read_trailing` for every grammar;
* `readRunFrom_trailing`, `readSeparated_trailing`: the two loops keep the relation, item by
  item;
* `Grammar.parse_padding_invariant`: padding before and after a text in which every comment is
  closed changes neither its value nor its property value.
-/

namespace StyleGrammar

open Token

/-! ### Readers -/

/-- Two readings agree across padding: the same value, and cursors that still trail. -/
def ReadsAlike {α : Type} (w : List UInt8) (reading reading' : α × Cursor) : Prop :=
  reading.1 = reading'.1 ∧ Cursor.Trails w reading.2 reading'.2

/-- A reader reads the same value from a cursor and from one with padding `w` after what it
reads, and leaves the two cursors in the same relation; the first must close its comments. -/
def Reader.Trailing (w : List UInt8) (step : Reader) : Prop :=
  ∀ c d, ClosesComments c.rest → Cursor.Trails w c d → ReadsAlike w (step c) (step d)

/-- A reader does not move over padding: where only padding is left it reads nothing, or a
value that takes no text. -/
def Reader.Still (step : Reader) : Prop :=
  ∀ c, Padding c.rest → (step c).2.rest = c.rest

variable {w : List UInt8} {c d : Cursor}

namespace ReadsAlike

theorem none (h : Cursor.Trails w c d) : ReadsAlike w ((none : Option Value), c) (none, d) :=
  ⟨rfl, h⟩

theorem some (v : Value) (h : Cursor.Trails w c d) : ReadsAlike w (some v, c) (some v, d) :=
  ⟨rfl, h⟩

/-- Two readings alike both miss, or both find the same value. -/
theorem cases {reading reading' : Option Value × Cursor} (h : ReadsAlike w reading reading') :
    (reading = (Option.none, reading.2) ∧ reading' = (Option.none, reading'.2)) ∨
      ∃ v, reading = (Option.some v, reading.2) ∧ reading' = (Option.some v, reading'.2) := by
  obtain ⟨same, _⟩ := h
  rcases reading with ⟨_ | v, n⟩ <;> rcases reading' with ⟨_ | v', n'⟩ <;> simp_all

end ReadsAlike

theorem Leaf.read_still (kind : Leaf) : kind.read.Still := by
  intro c pad
  have inert := pad.inert
  cases kind <;>
    simp [Leaf.read, Cursor.takeNumber?_of_inert inert, Cursor.takeNumberToken?_of_inert inert,
      Cursor.takeIdentifier?_of_inert inert]

theorem KeywordTable.read_still (table : KeywordTable) : table.read.Still := by
  intro c pad
  simp [KeywordTable.read, Cursor.takeIdentifier?_of_inert pad.inert]

/-- A leaf reads alike from two cursors with inert bytes after the first one's rest; it needs no
closed comments, as it reads no spacing. -/
theorem Leaf.read_alike (kind : Leaf) (inert : Inert w) (h : Cursor.Trails w c d) :
    ReadsAlike w (kind.read c) (kind.read d) := by
  cases kind with
  | number =>
    rcases h.takeNumber? inert with ⟨missing, missing'⟩ | ⟨x, c', d', taken, taken', next⟩
    · simp only [Leaf.read, missing, missing']
      exact .none h
    · simp only [Leaf.read, taken, taken', next.atDimension inert]
      by_cases dimension : d'.atDimension = true
      · simp only [dimension, if_true]
        exact .none h
      · simp only [dimension, Bool.false_eq_true, if_false]
        exact .some _ next
  | integer =>
    rcases h.takeNumberToken? inert with ⟨missing, missing'⟩ |
      ⟨token, c', d', taken, taken', next⟩
    · simp only [Leaf.read, missing, missing']
      exact .none h
    · simp only [Leaf.read, taken, taken', next.atDimension inert]
      by_cases fraction : token.any isFractionMark = true
      · simp only [fraction, if_true]
        exact .none h
      · simp only [fraction, Bool.false_eq_true, if_false]
        cases integerOfToken? token with
        | none => exact .none h
        | some n =>
          by_cases dimension : d'.atDimension = true
          · simp only [dimension, if_true]
            exact .none h
          · simp only [dimension, Bool.false_eq_true, if_false]
            exact .some _ next
  | length =>
    rcases h.takeNumber? inert with ⟨missing, missing'⟩ | ⟨x, c', d', taken, taken', next⟩
    · simp only [Leaf.read, missing, missing']
      exact .none h
    · rcases next.takeIdentifier? inert with ⟨noUnit, noUnit'⟩ |
        ⟨name, e, e', named, named', after⟩
      · simp only [Leaf.read, taken, taken', noUnit, noUnit', bne, next.percent_iff inert]
        by_cases zero : (x.isZero && !d'.byteHere == 0x25) = true
        · simp only [zero, if_true]
          exact .some _ next
        · simp only [zero, Bool.false_eq_true, if_false]
          exact .none h
      · simp only [Leaf.read, taken, taken', named, named']
        cases LengthUnit.named? name with
        | none => exact .none h
        | some unit => exact .some _ after
  | percentage =>
    rcases h.takeNumber? inert with ⟨missing, missing'⟩ | ⟨x, c', d', taken, taken', next⟩
    · simp only [Leaf.read, missing, missing']
      exact .none h
    · rcases next.takeByte? inert (b := 0x25) ⟨by decide, by decide⟩ with
        ⟨noSign, noSign'⟩ | ⟨e, e', sign, sign', after⟩
      · simp only [Leaf.read, taken, taken', noSign, noSign']
        exact .none h
      · simp only [Leaf.read, taken, taken', sign, sign']
        exact .some _ after
  | identifier =>
    rcases h.takeIdentifier? inert with
      ⟨missing, missing'⟩ | ⟨name, c', d', taken, taken', next⟩
    · simp only [Leaf.read, missing, missing']
      exact .none h
    · simp only [Leaf.read, taken, taken']
      exact .some _ next

theorem Leaf.read_trailing (kind : Leaf) (inert : Inert w) : kind.read.Trailing w :=
  fun _ _ _ h => kind.read_alike inert h

theorem KeywordTable.read_trailing (table : KeywordTable) (inert : Inert w) :
    table.read.Trailing w := by
  intro c d _ h
  rcases h.takeIdentifier? inert with
    ⟨missing, missing'⟩ | ⟨name, c', d', taken, taken', next⟩
  · simp only [KeywordTable.read, missing, missing']
    exact .none h
  · simp only [KeywordTable.read, taken, taken']
    cases table.lookup? name with
    | none => exact .none h
    | some value => exact .some _ next

/-! ### Loops and combinators -/

variable {step : Reader}

/-- A list loop where no separator follows reads nothing more. -/
theorem readSeparated_of_none {separator : UInt8} {c : Cursor}
    (missing : c.skipSpacing.takeByte? separator = none) (fuel : Nat) :
    readSeparated step separator fuel c = ([], c) := by
  cases fuel with
  | zero => rfl
  | succ fuel => simp only [readSeparated, missing]

/-- A run at padding stops at its first item, which reads nothing or takes no text. -/
theorem readRun_still (disc : step.Disciplined) (still : step.Still) {c : Cursor}
    (pad : Padding c.rest) (limit : Nat) : (readRun step limit c).2.rest = c.rest := by
  cases limit with
  | zero => rfl
  | succ limit =>
    have stays := still c pad
    have obeys := disc c
    simp only [readRun, readRunFrom, Bool.false_eq_true, if_false]
    split
    · rfl
    · rename_i v next found
      rw [found] at stays obeys
      have same : next.pos = c.pos := obeys.pos_eq_iff.2 (by rw [stays])
      rw [if_pos same]
      exact stays

namespace Reader

theorem repetition_still (disc : step.Disciplined) (still : step.Still) (bounds : Bounds) :
    (Reader.repetition step bounds).Still := by
  intro c pad
  simp only [Reader.repetition]
  split
  · rfl
  · exact readRun_still disc still pad _

theorem shorthand_still (disc : step.Disciplined) (still : step.Still) (arity : Nat) :
    (Reader.shorthand step arity).Still := by
  intro c pad
  simp only [Reader.shorthand]
  split
  · exact readRun_still disc still pad _
  · rfl

/-- A list does not move over padding: after its first item only padding is left, and padding
holds no separator. -/
theorem separated_still (still : step.Still) (separator : Separator) :
    (Reader.separated step separator).Still := by
  intro c pad
  have stays := still c pad
  simp only [Reader.separated]
  split
  · rename_i first afterFirst found
    rw [found] at stays
    have missing : afterFirst.skipSpacing.takeByte? separator.byte = none :=
      Cursor.takeByte?_of_nil (Cursor.skipSpacing_rest_of_padding (stays ▸ pad)) _
    rw [readSeparated_of_none missing]
    exact stays
  · rfl

theorem maybe_still (still : step.Still) : (Reader.maybe step).Still := by
  intro c pad
  have stays := still c pad
  simp only [Reader.maybe]
  split
  · rename_i v next found
    rw [found] at stays
    exact stays
  · rfl

theorem orDefault_still (still : step.Still) (default : Value) :
    (Reader.orDefault step default).Still := by
  intro c pad
  have stays := still c pad
  simp only [Reader.orDefault]
  split
  · rename_i v next found
    rw [found] at stays
    exact stays
  · rfl

/-- An alternative does not move over padding: a first reader that fails leaves the cursor at the
start, where the second one starts. -/
theorem orElse_still {first second : Reader} (disc : first.Disciplined) (still : first.Still)
    (still' : second.Still) : (Reader.orElse first second).Still := by
  intro c pad
  have stays := still c pad
  have obeys := disc c
  simp only [Reader.orElse]
  split
  · rename_i v next found
    rw [found] at stays
    exact stays
  · rename_i after found
    rw [found] at obeys
    cases obeys
    exact still' c pad

theorem fail_still : Reader.fail.Still :=
  fun _ _ => rfl

end Reader

namespace Grammar

mutual

theorem read_still : (g : Grammar) → g.read.Still
  | leaf kind => kind.read_still
  | keyword table => table.read_still
  | repetition inner bounds =>
    Reader.repetition_still (read_disciplined inner) (read_still inner) bounds
  | shorthand inner arity =>
    Reader.shorthand_still (read_disciplined inner) (read_still inner) arity
  | separated inner separator => Reader.separated_still (read_still inner) separator
  | maybe inner => Reader.maybe_still (read_still inner)
  | orDefault inner default => Reader.orDefault_still (read_still inner) default
  | named inner _ => read_still inner
  | choice alternatives => readFirst_still alternatives

theorem readFirst_still : (gs : List Grammar) → (readFirst gs).Still
  | [] => Reader.fail_still
  | g :: gs => Reader.orElse_still (read_disciplined g) (read_still g) (readFirst_still gs)

end

end Grammar

/-! ### Reading past the end of a value -/

/-- The run loop reads the same items from both cursors. Where the first cursor has read
everything, the second stands on padding, which the item reader does not move over, so an item
that takes no text takes none on either side and both runs stop together. -/
theorem readRunFrom_trailing (disc : step.Disciplined) (still : step.Still)
    (trailing : step.Trailing w) (pad : Padding w) :
    ∀ (limit : Nat) (skip : Bool) (c d : Cursor), ClosesComments c.rest →
      Cursor.Trails w c d →
        ReadsAlike w (readRunFrom step limit skip c) (readRunFrom step limit skip d) := by
  intro limit
  induction limit with
  | zero => exact fun _ _ _ _ h => ⟨rfl, h⟩
  | succ limit ih =>
    intro skip c d closes h
    have start := h.before closes pad skip
    have closes' := Cursor.closesComments_before closes skip
    simp only [readRunFrom]
    generalize (if skip then c.skipSpacing else c) = bc at start closes' ⊢
    generalize (if skip then d.skipSpacing else d) = bd at start ⊢
    have alike := trailing bc bd closes' start
    have ahead := (disc bc).ahead
    have stays : bc.rest = [] → (step bd).2.rest = bd.rest :=
      fun ended => still bd (start.padding_of_nil pad ended)
    have iff := start.stays_iff alike.2 ahead (disc bd).ahead stays
    rcases ReadsAlike.cases alike with ⟨missed, missed'⟩ | ⟨v, found, found'⟩
    · rw [missed, missed']
      exact ⟨rfl, h⟩
    · rw [found, found']
      dsimp only
      by_cases zero : (step bc).2.pos = bc.pos
      · rw [if_pos zero, if_pos (iff.1 zero)]
        exact ⟨rfl, alike.2⟩
      · rw [if_neg zero, if_neg (mt iff.2 zero)]
        have more := ih true _ _ (ahead.closesComments closes') alike.2
        exact ⟨congrArg (List.cons v) more.1, more.2⟩

theorem readRun_trailing (disc : step.Disciplined) (still : step.Still)
    (trailing : step.Trailing w) (pad : Padding w) (limit : Nat) {c d : Cursor}
    (closes : ClosesComments c.rest) (h : Cursor.Trails w c d) :
    ReadsAlike w (readRun step limit c) (readRun step limit d) :=
  readRunFrom_trailing disc still trailing pad limit false c d closes h

/-- The list loop reads the same items from both cursors. Its fuel is the length of the rest,
which differs between the two, so each side has a fuel of its own, at least its rest's length.
Where the first side's fuel is spent its cursor has read everything, and the second stands on
padding, where no separator is; a separator after the second cursor means it has text left;
and each round moves on, so the fuel left covers the rest on both sides. -/
theorem readSeparated_trailing (disc : step.Disciplined) (trailing : step.Trailing w)
    (pad : Padding w) (separator : UInt8) :
    ∀ (fuel fuel' : Nat) (c d : Cursor), ClosesComments c.rest → Cursor.Trails w c d →
      c.rest.length ≤ fuel → d.rest.length ≤ fuel' →
        ReadsAlike w (readSeparated step separator fuel c)
          (readSeparated step separator fuel' d) := by
  intro fuel
  induction fuel with
  | zero =>
    intro fuel' c d _ h short _
    have ended : c.rest = [] := List.eq_nil_of_length_eq_zero (Nat.le_zero.1 short)
    have missing := Cursor.takeByte?_of_nil
      (Cursor.skipSpacing_rest_of_padding (h.padding_of_nil pad ended)) separator
    rw [readSeparated_of_none missing]
    exact ⟨rfl, h⟩
  | succ fuel ih =>
    intro fuel' c d closes h short short'
    rcases (h.skipSpacing closes pad).takeByte? separator with
      ⟨missing, missing'⟩ | ⟨a, a', taken, taken', across⟩
    · rw [readSeparated_of_none missing, readSeparated_of_none missing']
      exact ⟨rfl, h⟩
    cases fuel' with
    | zero =>
      have ended : d.rest = [] := List.eq_nil_of_length_eq_zero (Nat.le_zero.1 short')
      rw [Cursor.takeByte?_of_nil (Cursor.skipSpacing_rest_of_padding (ended ▸ .nil))] at taken'
      cases taken'
    | succ fuel' =>
      have closesA : ClosesComments a.rest :=
        (c.ahead_skipSpacing.trans (Cursor.ahead_of_takeByte? taken)).closesComments closes
      have start := (across.skipSpacing closesA pad).trails
      have alike := trailing _ _ (a.ahead_skipSpacing.closesComments closesA) start
      simp only [readSeparated, taken, taken']
      rcases ReadsAlike.cases alike with ⟨missed, missed'⟩ | ⟨v, found, found'⟩
      · rw [missed, missed']
        exact ⟨rfl, h⟩
      · rw [found, found']
        dsimp only
        obtain ⟨ahead, moved⟩ := readSeparated_round_advances disc taken found
        obtain ⟨ahead', moved'⟩ := readSeparated_round_advances disc taken' found'
        have fewer := ahead.rest_length_lt moved
        have fewer' := ahead'.rest_length_lt moved'
        have more := ih fuel' _ _ (ahead.closesComments closes) alike.2 (by omega) (by omega)
        exact ⟨congrArg (List.cons v) more.1, more.2⟩

namespace Reader

theorem repetition_trailing (disc : step.Disciplined) (still : step.Still)
    (trailing : step.Trailing w) (pad : Padding w) (bounds : Bounds) :
    (Reader.repetition step bounds).Trailing w := by
  intro c d closes h
  obtain ⟨same, after⟩ := readRun_trailing disc still trailing pad bounds.max closes h
  simp only [Reader.repetition]
  rw [← same]
  split
  · exact .none h
  · exact .some _ after

theorem shorthand_trailing (disc : step.Disciplined) (still : step.Still)
    (trailing : step.Trailing w) (pad : Padding w) (arity : Nat) :
    (Reader.shorthand step arity).Trailing w := by
  intro c d closes h
  obtain ⟨same, after⟩ := readRun_trailing disc still trailing pad arity closes h
  simp only [Reader.shorthand]
  rw [← same]
  split
  · exact .some _ after
  · exact .none h

theorem separated_trailing (disc : step.Disciplined) (trailing : step.Trailing w)
    (pad : Padding w) (separator : Separator) :
    (Reader.separated step separator).Trailing w := by
  intro c d closes h
  have alike := trailing c d closes h
  simp only [Reader.separated]
  rcases ReadsAlike.cases alike with ⟨missed, missed'⟩ | ⟨v, found, found'⟩
  · rw [missed, missed']
    exact .none h
  · have more := readSeparated_trailing disc trailing pad separator.byte _ _ _ _
      ((disc c).ahead.closesComments closes) alike.2 (Nat.le_refl _) (Nat.le_refl _)
    rw [found, found']
    dsimp only
    exact ⟨by rw [more.1], more.2⟩

theorem maybe_trailing (trailing : step.Trailing w) : (Reader.maybe step).Trailing w := by
  intro c d closes h
  have alike := trailing c d closes h
  simp only [Reader.maybe]
  rcases ReadsAlike.cases alike with ⟨missed, missed'⟩ | ⟨v, found, found'⟩
  · rw [missed, missed']
    exact .some _ h
  · rw [found, found']
    exact .some _ alike.2

theorem orDefault_trailing (trailing : step.Trailing w) (default : Value) :
    (Reader.orDefault step default).Trailing w := by
  intro c d closes h
  have alike := trailing c d closes h
  simp only [Reader.orDefault]
  rcases ReadsAlike.cases alike with ⟨missed, missed'⟩ | ⟨v, found, found'⟩
  · rw [missed, missed']
    exact .some _ h
  · rw [found, found']
    exact .some _ alike.2

/-- An alternative reads alike across padding: a first reader that misses on both sides leaves
both cursors where they were, and the second reader starts from them. -/
theorem orElse_trailing {first second : Reader} (disc : first.Disciplined)
    (trailing : first.Trailing w) (trailing' : second.Trailing w) :
    (Reader.orElse first second).Trailing w := by
  intro c d closes h
  have alike := trailing c d closes h
  have obeys := disc c
  have obeys' := disc d
  simp only [Reader.orElse]
  rcases ReadsAlike.cases alike with ⟨missed, missed'⟩ | ⟨v, found, found'⟩
  · rw [missed] at obeys
    rw [missed'] at obeys'
    rw [missed, missed']
    rw [obeys, obeys']
    exact trailing' c d closes h
  · rw [found, found']
    exact .some _ alike.2

theorem fail_trailing : Reader.fail.Trailing w :=
  fun _ _ _ h => .none h

end Reader

namespace Grammar

mutual

theorem read_trailing (pad : Padding w) : (g : Grammar) → g.read.Trailing w
  | leaf kind => kind.read_trailing pad.inert
  | keyword table => table.read_trailing pad.inert
  | repetition inner bounds =>
    Reader.repetition_trailing (read_disciplined inner) (read_still inner) (read_trailing pad inner)
      pad bounds
  | shorthand inner arity =>
    Reader.shorthand_trailing (read_disciplined inner) (read_still inner) (read_trailing pad inner)
      pad arity
  | separated inner separator =>
    Reader.separated_trailing (read_disciplined inner) (read_trailing pad inner) pad separator
  | maybe inner => Reader.maybe_trailing (read_trailing pad inner)
  | orDefault inner default => Reader.orDefault_trailing (read_trailing pad inner) default
  | named inner _ => read_trailing pad inner
  | choice alternatives => readFirst_trailing pad alternatives

theorem readFirst_trailing (pad : Padding w) : (gs : List Grammar) → (readFirst gs).Trailing w
  | [] => Reader.fail_trailing
  | g :: gs => Reader.orElse_trailing (read_disciplined g) (read_trailing pad g)
    (readFirst_trailing pad gs)

end

end Grammar

/-! ### Whole texts -/

namespace Grammar

/-- A grammar reads the same value from two cursors with padding between them, and the end of
content follows both readings or neither. -/
theorem read_ends_alike (pad : Padding w) (g : Grammar) (closes : ClosesComments c.rest)
    (h : Cursor.Trails w c d) :
    (g.read c).1 = (g.read d).1 ∧ (g.read c).2.atEndOfContent = (g.read d).2.atEndOfContent := by
  obtain ⟨same, after⟩ := read_trailing pad g c d closes h
  exact ⟨same, after.atEndOfContent ((read_disciplined g c).ahead.closesComments closes) pad⟩

/-- **Surrounding insignificant content does not change what a text reads as.** Padding made
of blanks and closed comments before and after a text in which every comment is closed changes
neither its value nor its property value, for every grammar. -/
theorem parse_padding_invariant (g : Grammar) (w₁ s w₂ : String)
    (closes : ClosesComments s.toUTF8.toList) (pad₁ : Padding w₁.toUTF8.toList)
    (pad₂ : Padding w₂.toUTF8.toList) :
    g.parse? (w₁ ++ s ++ w₂) = g.parse? s ∧
      g.parseProperty? (w₁ ++ s ++ w₂) = g.parseProperty? s := by
  have start : Cursor.Trails w₂.toUTF8.toList (Cursor.ofString s).skipSpacing
      (Cursor.ofString (w₁ ++ s ++ w₂)).skipSpacing := by
    unfold Cursor.ofString
    rw [toUTF8_toList_append, toUTF8_toList_append]
    exact Cursor.start_trails closes pad₁ pad₂
  have closes' := (Cursor.ofString s).ahead_skipSpacing.closesComments closes
  obtain ⟨same, ended⟩ := g.read_ends_alike pad₂ closes' start
  have parsed : g.parse? (w₁ ++ s ++ w₂) = g.parse? s := by
    simp only [parse?]
    rcases found : g.read (Cursor.ofString s).skipSpacing with ⟨_ | v, nc⟩ <;>
      rcases found' : g.read (Cursor.ofString (w₁ ++ s ++ w₂)).skipSpacing with ⟨_ | v', nd⟩ <;>
      rw [found, found'] at same <;> simp only [Option.some.injEq, reduceCtorEq] at same
    subst same
    rw [found, found'] at ended
    dsimp only
    rw [ended]
  refine ⟨parsed, ?_⟩
  rw [parseProperty?_eq, parseProperty?_eq, parsed, start.inheritAlone closes' pad₂]

/-- Integers read alike with a comment before them and a tab and an empty comment after. -/
theorem integers_read_alike_padded :
    (repetition (.leaf .integer) .plus).parse? (" /* a */ " ++ "1 2" ++ "\t/**/") =
        (repetition (.leaf .integer) .plus).parse? "1 2" ∧
      (repetition (.leaf .integer) .plus).parseProperty? (" /* a */ " ++ "1 2" ++ "\t/**/") =
        (repetition (.leaf .integer) .plus).parseProperty? "1 2" := by
  have text : "1 2".toUTF8.toList = [0x31, 0x20, 0x32] := by
    rw [toUTF8_toList, show "1 2".toList = ['1', ' ', '2'] from rfl]
    rfl
  have before : " /* a */ ".toUTF8.toList = [0x20, 0x2F, 0x2A, 0x20, 0x61, 0x20, 0x2A, 0x2F, 0x20] := by
    rw [toUTF8_toList, show " /* a */ ".toList = [' ', '/', '*', ' ', 'a', ' ', '*', '/', ' ']
      from rfl]
    rfl
  have after : "\t/**/".toUTF8.toList = [0x09, 0x2F, 0x2A, 0x2A, 0x2F] := by
    rw [toUTF8_toList, show "\t/**/".toList = ['\t', '/', '*', '*', '/'] from rfl]
    rfl
  have body : CommentBody [0x20, 0x61, 0x20] :=
    commentBody_cons.2 ⟨commentBody_cons.2 ⟨commentBody_cons.2 ⟨.nil, by decide⟩, by decide⟩,
      by decide⟩
  refine parse_padding_invariant _ _ _ _ (.of_not_mem (by rw [text]; decide)) ?_ ?_
  · rw [before]
    exact .blank rfl (.comment body (.blank rfl .nil))
  · rw [after]
    exact .blank rfl (.comment .nil .nil)

end Grammar

end StyleGrammar
