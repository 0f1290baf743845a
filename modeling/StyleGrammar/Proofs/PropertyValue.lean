import StyleGrammar.Proofs.Spacing
import StyleGrammar.Proofs.Keywords

/-!
**A property value is `inherit` alone, or the value its grammar reads.**

A property's text is first checked for the keyword `inherit` standing alone; only when it is
not there does the grammar read the text, from the same place a plain value would be read. So
the answer for `inherit` never depends on the grammar, and every other text means as a property
exactly what it means as a plain value.

* `InheritAlone`: after the insignificant content that opens the text, the rest is one word that
  is `inherit` with any ASCII capitals, followed only by insignificant content;
* `Cursor.inheritAlone_iff`: the cursor's check decides exactly that, at every cursor;
* `Grammar.parseProperty?_eq`: the property reading as the check, then the plain reading;
* `Grammar.parseProperty_inherit_or_written`: `inherit` is the answer exactly for the texts where
  it stands alone, and every other text is read as a plain value.
-/

namespace StyleGrammar

/-- The rest is the keyword `inherit`, in any ASCII case, followed only by insignificant
content. -/
def InheritRest (rest : List UInt8) : Prop :=
  ∃ word after, rest = word ++ after ∧ word.map asciiLower = "inherit".toUTF8.toList ∧
    Token.Insignificant after

/-- The whole text is the keyword `inherit`: once the insignificant content that opens it is
skipped, the rest is `inherit` in any ASCII case, followed only by insignificant content. -/
def InheritAlone (text : String) : Prop :=
  InheritRest (Cursor.ofString text).skipSpacing.rest

theorem toUTF8_inherit : "inherit".toUTF8.toList = [0x69, 0x6E, 0x68, 0x65, 0x72, 0x69, 0x74] := by
  rw [toUTF8_toList, show "inherit".toList = ['i', 'n', 'h', 'e', 'r', 'i', 't'] by rfl]
  rfl

namespace Cursor

/-- The keyword `inherit` taken at the cursor: its word lowers to `inherit`, and the cursor moves
over the word. -/
theorem takeKeyword?_inherit {c next : Cursor}
    (h : c.takeKeyword? .asciiInsensitive "inherit" = some next) :
    ∃ word after, c.rest = word ++ after ∧ word.map asciiLower = "inherit".toUTF8.toList ∧
      next.rest = after := by
  rw [takeKeyword?_eq] at h
  obtain ⟨⟨name, taken⟩, found, compared⟩ := Option.bind_eq_some_iff.1 h
  obtain ⟨bytes, moved⟩ := takeIdentifier?_eq_some found
  have equal : CasePolicy.asciiInsensitive.equal name "inherit" = true := by
    cases compare : CasePolicy.asciiInsensitive.equal name "inherit"
    · simp [compare] at compared
    · rfl
  have same : taken = next := by simpa [equal] using compared
  subst same moved
  refine ⟨c.rest.take (Token.identifierSpan c.rest), c.rest.drop (Token.identifierSpan c.rest),
    (List.take_append_drop _ _).symm, ?_, rfl⟩
  rw [← bytes, CasePolicy.equal_asciiInsensitive_iff.1 equal, toUTF8_inherit]
  decide

/-- The cursor's check for `inherit` alone decides exactly `InheritRest` of the unread rest: the
word it takes is the seven letters of `inherit`, and what follows opens no name. -/
theorem inheritAlone_iff (c : Cursor) : c.inheritAlone = true ↔ InheritRest c.rest := by
  unfold inheritAlone
  constructor
  · intro alone
    split at alone
    · rename_i next taken
      obtain ⟨word, after, split, lowered, rest⟩ := takeKeyword?_inherit taken
      rw [atEndOfContent_iff, rest] at alone
      exact ⟨word, after, split, lowered, alone⟩
    · cases alone
  · rintro ⟨word, after, split, lowered, insignificant⟩
    have letters : ∀ b ∈ word, Token.isLetter b = true := by
      intro b mem
      apply Token.isLetter_of_asciiLower
      have lowerMem : asciiLower b ∈ "inherit".toUTF8.toList := by
        rw [← lowered]
        exact List.mem_map_of_mem mem
      rw [toUTF8_inherit] at lowerMem
      have allLetters :
          ([0x69, 0x6E, 0x68, 0x65, 0x72, 0x69, 0x74] : List UInt8).all Token.isLetter = true := by
        decide
      exact List.all_eq_true.1 allLetters _ lowerMem
    have nonempty : word ≠ [] := by
      rintro rfl
      rw [toUTF8_inherit] at lowered
      simp at lowered
    obtain ⟨name, bytes, taken⟩ :=
      takeIdentifier?_letters split nonempty letters insignificant.stops
    have equal : CasePolicy.asciiInsensitive.equal name "inherit" = true := by
      rw [CasePolicy.equal_asciiInsensitive_iff, bytes, lowered, toUTF8_inherit]
      decide
    rw [takeKeyword?_eq, taken]
    simp only [Option.bind_some, equal, if_true]
    rw [atEndOfContent_iff]
    simpa [split] using insignificant

end Cursor

namespace Grammar

/-- Reading a property value is checking for `inherit` alone, then reading a plain value. -/
theorem parseProperty?_eq (g : Grammar) (text : String) :
    g.parseProperty? text =
      if (Cursor.ofString text).skipSpacing.inheritAlone then some .inherit
      else (g.parse? text).map .written := by
  simp only [parseProperty?, parse?]
  by_cases alone : (Cursor.ofString text).skipSpacing.inheritAlone = true
  · simp only [alone, if_true]
  · simp only [alone, Bool.false_eq_true, if_false]
    rcases g.read (Cursor.ofString text).skipSpacing with ⟨_ | v, next⟩
    · rfl
    · by_cases ends : next.atEndOfContent = true <;> simp [ends]

/-- A property's text reads as `inherit` exactly when, after its opening insignificant content,
it is the keyword `inherit` in any ASCII case followed only by insignificant content, whatever
the grammar; every other text reads as the plain value the grammar finds from the same place. -/
theorem parseProperty_inherit_or_written (g : Grammar) (text : String) :
    (g.parseProperty? text = some .inherit ↔ InheritAlone text) ∧
      (¬ InheritAlone text → g.parseProperty? text = (g.parse? text).map .written) := by
  have decided := Cursor.inheritAlone_iff (Cursor.ofString text).skipSpacing
  rw [parseProperty?_eq]
  constructor
  · constructor
    · intro inherit
      split at inherit
      · exact decided.1 ‹_›
      · cases found : g.parse? text <;> simp [found] at inherit
    · intro alone
      rw [if_pos (decided.2 alone)]
  · intro notAlone
    rw [if_neg (mt decided.1 notAlone)]

end Grammar

end StyleGrammar
