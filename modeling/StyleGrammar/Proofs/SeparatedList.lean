import StyleGrammar.Proofs.Runs

/-!
**Separated lists: which bytes separate, and what a list reads.**

A list is built with a separator byte, which must be ASCII punctuation that no token begins or
continues with. Its reader takes a first item where it starts and then, round after round,
insignificant content, the separator, more insignificant content and the next item; a round
that finds no separator, or no item after the separator, is undone, so the cursor stays right
after the last item read.

* `Separator.ofByte?_eq_error_iff`, `Separator.exists_ofByte?_eq_ok_iff`: the bytes refused and
  the bytes taken as separators;
* `Reader.separated_eq_none_iff`: a list fails exactly where its first item fails, and then
  stays where it started;
* `Reader.separated_eq_some_iff`: the items a list reads are the chain of items across
  separators that stops where no separator or no item follows, and the cursor ends after the
  last of them;
* `Reader.separated_reads_chain`: the two together, for every separator byte, every disciplined
  item reader and every start.
-/

namespace StyleGrammar

/-! ### Separator bytes -/

/-- The punctuation bytes that a token may begin or continue with, refused as separators:
hyphen, underscore, plus, point, percent sign and backslash. -/
def tokenPunctuation : List UInt8 :=
  [0x2D, 0x5F, 0x2B, 0x2E, 0x25, 0x5C]

theorem separatorAllowed_eq_false_iff {b : UInt8} :
    separatorAllowed b = false ↔ isAsciiPunctuation b = false ∨ b ∈ tokenPunctuation := by
  cases punctuation : isAsciiPunctuation b <;>
    simp [separatorAllowed, tokenPunctuation, punctuation, Decidable.imp_iff_not_or, or_assoc]

namespace Separator

/-- A byte is refused, named in the error, exactly when it is not ASCII punctuation or is
punctuation that a token may contain. -/
theorem ofByte?_eq_error_iff (b : UInt8) :
    ofByte? b = .error (.separatorRefused b) ↔
      isAsciiPunctuation b = false ∨ b ∈ tokenPunctuation := by
  rw [← separatorAllowed_eq_false_iff]
  unfold ofByte?
  split
  · rename_i allowed
    simp [allowed]
  · rename_i refused
    simpa using refused

/-- Every other byte becomes the separator of a list. -/
theorem exists_ofByte?_eq_ok_iff (b : UInt8) :
    (∃ separator, ofByte? b = .ok separator ∧ separator.byte = b) ↔
      separatorAllowed b = true := by
  unfold ofByte?
  split
  · rename_i allowed
    exact ⟨fun _ => allowed, fun _ => ⟨⟨b, allowed⟩, rfl, rfl⟩⟩
  · rename_i refused
    simp [refused]

end Separator

/-! ### Reading a list -/

namespace Reader

variable {step : Reader}

/-- A list fails exactly when its first item does, and then it stays where it started. -/
theorem separated_eq_none_iff (separator : Separator) (c : Cursor) :
    (Reader.separated step separator c).1 = none ↔ (step c).1 = none := by
  simp only [Reader.separated]
  split
  · rename_i first afterFirst found
    simp [found]
  · rename_i missing
    simp [missing]

theorem separated_of_none {separator : Separator} {c : Cursor} (missing : (step c).1 = none) :
    Reader.separated step separator c = (none, c) := by
  simp only [Reader.separated]
  split
  · rename_i first afterFirst found
    rw [found] at missing
    cases missing
  · rfl

/-- What a list reads: its items are read one after another across separators, from where the
list starts, the chain stopping where no separator follows the last item or no item follows
that separator; the cursor ends right after the last item. -/
theorem separated_eq_some_iff (disciplined : step.Disciplined) (separator : Separator)
    (c : Cursor) (v : Value) (last : Cursor) :
    Reader.separated step separator c = (some v, last) ↔
      ∃ items, v = .list items separator.byte ∧
        Chained step (listGap separator.byte) c items last ∧
        ∀ d, last.skipSpacing.takeByte? separator.byte = some d →
          (step d.skipSpacing).1 = none := by
  constructor
  · intro read
    simp only [Reader.separated] at read
    split at read
    · rename_i first afterFirst found
      rcases loop : readSeparated step separator.byte afterFirst.rest.length afterFirst with
        ⟨more, stop⟩
      rw [loop] at read
      simp only [Prod.mk.injEq, Option.some.injEq] at read
      obtain ⟨rfl, rfl⟩ := read
      obtain ⟨chain, stops⟩ :=
        readSeparated_chained disciplined separator.byte _ c afterFirst first more stop found
          (Nat.le_refl _) loop
      exact ⟨first :: more, rfl, chain, stops⟩
    · simp at read
  · rintro ⟨items, rfl, chain, stops⟩
    obtain ⟨first, more, rfl⟩ := List.exists_cons_of_ne_nil chain.ne_nil
    obtain ⟨afterFirst, found⟩ := chain.first
    have loop := readSeparated_of_chained disciplined separator.byte more c afterFirst first last
      found chain stops afterFirst.rest.length (Nat.le_refl _)
    simp only [Reader.separated, found, loop]

/-- **A separated list reads the chain of items across its separator.** A byte is refused as
a separator, named in the error, exactly when it is not ASCII punctuation or is one of
`- _ + . % \`; any other byte becomes the separator. For such a separator, every item reader
that keeps the cursor discipline and every start: the list fails exactly where its first item
fails, and then the cursor stays at the start; otherwise it reads the items in order, the first
where the list starts and each next one after insignificant content, the separator and more
insignificant content that follow the one before, stopping where that separator is missing or
no item follows it, and it leaves the cursor right after its last item. -/
theorem separated_reads_chain (disciplined : step.Disciplined) :
    (∀ b : UInt8,
      (Separator.ofByte? b = .error (.separatorRefused b) ↔
        isAsciiPunctuation b = false ∨ b ∈ tokenPunctuation) ∧
      ((∃ separator, Separator.ofByte? b = .ok separator ∧ separator.byte = b) ↔
        isAsciiPunctuation b = true ∧ b ∉ tokenPunctuation)) ∧
    ∀ (separator : Separator) (c : Cursor),
      ((Reader.separated step separator c).1 = none ↔ (step c).1 = none) ∧
      ((step c).1 = none → Reader.separated step separator c = (none, c)) ∧
      ∀ v last, Reader.separated step separator c = (some v, last) ↔
        ∃ items, v = .list items separator.byte ∧
          Chained step (listGap separator.byte) c items last ∧
          ∀ d, last.skipSpacing.takeByte? separator.byte = some d →
            (step d.skipSpacing).1 = none := by
  refine ⟨fun b => ⟨Separator.ofByte?_eq_error_iff b, ?_⟩, fun separator c =>
    ⟨separated_eq_none_iff separator c, separated_of_none,
      separated_eq_some_iff disciplined separator c⟩⟩
  rw [Separator.exists_ofByte?_eq_ok_iff, ← Bool.not_eq_false, separatorAllowed_eq_false_iff]
  simp

/-- Integers separated by commas: the integer reader keeps the discipline, so on `1, 2` the
list reads what the chain of the two integers gives. -/
theorem integer_list_reads_chain :
    (Leaf.integer.read).Disciplined ∧
      ∀ v last, Reader.separated Leaf.integer.read Separator.comma (Cursor.ofString "1, 2") =
        (some v, last) ↔
        ∃ items, v = .list items 0x2C ∧
          Chained Leaf.integer.read (listGap 0x2C) (Cursor.ofString "1, 2") items last ∧
          ∀ d, last.skipSpacing.takeByte? 0x2C = some d →
            (Leaf.integer.read d.skipSpacing).1 = none :=
  ⟨Leaf.read_disciplined .integer,
    ((separated_reads_chain (Leaf.read_disciplined .integer)).2 Separator.comma
      (Cursor.ofString "1, 2")).2.2⟩

end Reader

end StyleGrammar
