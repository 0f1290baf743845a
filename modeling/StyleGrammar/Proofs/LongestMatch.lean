import Mathlib
import StyleGrammar.Proofs.Boundary

/-!
**Scans that take the longest match.**

A scan reads a token at the start of some bytes and returns its length. It is right when that
length is the longest prefix of the bytes that the token's grammar holds. This module states
that notion, shows that a run of one class of bytes has it, and proves it of the identifier scan:

* `Token.LongestPrefix`: `n` is the length of the longest prefix of some bytes in a language,
  and `Token.takeWhile_longest`: a run of bytes that pass a test is one;
* `Token.IdentifierWord`: the identifier grammar, two hyphens and name bytes, or an optional
  hyphen, a name start and name bytes;
* `Token.identifierSpan_eq_zero_iff`, `Token.identifierSpan_longest`: the identifier scan gives
  the longest identifier prefix, and `0` exactly when no prefix is an identifier;
* `Token.isWholeIdentifier_iff`: a text is one identifier exactly when its bytes are in the
  grammar;
* `identifier_scan_longest`: all of it together, and at a cursor: an identifier is ahead exactly
  when a prefix of the rest is one, and the identifier's text and the move over it are the
  longest such prefix.
-/

namespace StyleGrammar.Token

/-- `n` is the length of the longest prefix of `bytes` that the language `lang` holds. -/
structure LongestPrefix (lang : List UInt8 → Prop) (bytes : List UInt8) (n : Nat) : Prop where
  fits : n ≤ bytes.length
  accepted : lang (bytes.take n)
  longest : ∀ pre, pre <+: bytes → lang pre → pre.length ≤ n

/-- A language has at most one longest prefix of the same bytes. -/
theorem LongestPrefix.unique {lang : List UInt8 → Prop} {bytes : List UInt8} {n m : Nat}
    (first : LongestPrefix lang bytes n) (second : LongestPrefix lang bytes m) : n = m := by
  have le : n ≤ m := by
    have := second.longest _ (List.take_prefix n bytes) first.accepted
    rwa [List.length_take, Nat.min_eq_left first.fits] at this
  have ge : m ≤ n := by
    have := first.longest _ (List.take_prefix m bytes) second.accepted
    rwa [List.length_take, Nat.min_eq_left second.fits] at this
  omega

/-! ### Runs of one class of bytes -/

section Runs

variable {p : UInt8 → Bool}

/-- A prefix whose bytes all pass the test is no longer than the run of such bytes. -/
theorem length_le_takeWhile {pre bytes : List UInt8} (isPrefix : pre <+: bytes)
    (all : ∀ b ∈ pre, p b = true) : pre.length ≤ (bytes.takeWhile p).length := by
  induction pre generalizing bytes with
  | nil => exact Nat.zero_le _
  | cons x pre ih =>
    obtain ⟨rest, rfl, tail⟩ := List.cons_prefix_iff.1 isPrefix
    rw [List.takeWhile_cons_of_pos (all x List.mem_cons_self), List.length_cons, List.length_cons]
    exact Nat.succ_le_succ (ih tail fun b mem => all b (List.mem_cons_of_mem x mem))

/-- The run of bytes that pass a test is the longest prefix made of such bytes. -/
theorem takeWhile_longest (p : UInt8 → Bool) (bytes : List UInt8) :
    LongestPrefix (fun pre => ∀ b ∈ pre, p b = true) bytes (bytes.takeWhile p).length where
  fits := (List.takeWhile_prefix p).length_le
  accepted := by
    rw [← List.prefix_iff_eq_take.1 (List.takeWhile_prefix p)]
    exact fun b mem => List.mem_takeWhile_imp mem
  longest _ isPrefix all := length_le_takeWhile isPrefix all

theorem names_take_nameRun (bytes : List UInt8) :
    ∀ b ∈ bytes.take (nameRun bytes), continuesName b = true :=
  (takeWhile_longest continuesName bytes).accepted

end Runs

/-! ### The identifier grammar -/

/-- The identifier grammar: two hyphens and any name bytes, or an optional hyphen, a name start
and name bytes. -/
inductive IdentifierWord : List UInt8 → Prop where
  | custom {tail : List UInt8} : (∀ b ∈ tail, continuesName b = true) →
      IdentifierWord (0x2D :: 0x2D :: tail)
  | plain {start : UInt8} {tail : List UInt8} : opensName start = true →
      (∀ b ∈ tail, continuesName b = true) → IdentifierWord (start :: tail)
  | hyphen {start : UInt8} {tail : List UInt8} : opensName start = true →
      (∀ b ∈ tail, continuesName b = true) → IdentifierWord (0x2D :: start :: tail)

theorem IdentifierWord.ne_nil {word : List UInt8} (h : IdentifierWord word) : word ≠ [] := by
  cases h <;> simp

/-- A name start is no hyphen. -/
theorem ne_hyphen_of_opensName {b : UInt8} (opens : opensName b = true) : b ≠ 0x2D := by
  rintro rfl
  cases opens

theorem identifierSpan_custom (more : List UInt8) :
    identifierSpan (0x2D :: 0x2D :: more) = 2 + nameRun more := rfl

theorem identifierSpan_plain {start : UInt8} (opens : opensName start = true) (more : List UInt8) :
    identifierSpan (start :: more) = 1 + nameRun more := by
  simp [identifierSpan, ne_hyphen_of_opensName opens, opens]

theorem identifierSpan_hyphen {start : UInt8} (opens : opensName start = true)
    (more : List UInt8) : identifierSpan (0x2D :: start :: more) = 2 + nameRun more := by
  simp [identifierSpan, opens]

/-- The identifier scan finds nothing, or one of the grammar's three openings and then a run of
name bytes. -/
theorem identifierSpan_cases (bytes : List UInt8) :
    identifierSpan bytes = 0 ∨
      (∃ more, bytes = 0x2D :: 0x2D :: more) ∨
      (∃ start more, opensName start = true ∧ bytes = start :: more) ∨
      (∃ start more, opensName start = true ∧ bytes = 0x2D :: start :: more) := by
  match bytes with
  | [] => exact .inl rfl
  | b :: rest =>
    by_cases hyphen : b = 0x2D
    · subst hyphen
      match rest with
      | [] => exact .inl rfl
      | c :: more =>
        by_cases second : c = 0x2D
        · exact .inr (.inl ⟨more, by rw [second]⟩)
        · by_cases opens : opensName c = true
          · exact .inr (.inr (.inr ⟨c, more, opens, rfl⟩))
          · left
            simp [identifierSpan, second, opens]
    · by_cases opens : opensName b = true
      · exact .inr (.inr (.inl ⟨b, rest, opens, rfl⟩))
      · left
        simp [identifierSpan, hyphen, opens]

/-- What the identifier scan takes is in the grammar. -/
theorem identifierWord_take {bytes : List UInt8} (found : identifierSpan bytes ≠ 0) :
    IdentifierWord (bytes.take (identifierSpan bytes)) := by
  have two (more : List UInt8) : 2 + nameRun more = nameRun more + 1 + 1 := by omega
  rcases identifierSpan_cases bytes with zero | ⟨more, rfl⟩ | ⟨start, more, opens, rfl⟩ |
    ⟨start, more, opens, rfl⟩
  · exact absurd zero found
  · rw [identifierSpan_custom, two, List.take_succ_cons, List.take_succ_cons]
    exact .custom (names_take_nameRun more)
  · rw [identifierSpan_plain opens, Nat.add_comm, List.take_succ_cons]
    exact .plain opens (names_take_nameRun more)
  · rw [identifierSpan_hyphen opens, two, List.take_succ_cons, List.take_succ_cons]
    exact .hyphen opens (names_take_nameRun more)

/-- No identifier that opens the bytes is longer than what the scan takes. -/
theorem length_le_identifierSpan {pre bytes : List UInt8} (isPrefix : pre <+: bytes)
    (word : IdentifierWord pre) : pre.length ≤ identifierSpan bytes := by
  cases word with
  | @custom tail names =>
    obtain ⟨rest, rfl, afterFirst⟩ := List.cons_prefix_iff.1 isPrefix
    obtain ⟨more, rfl, afterSecond⟩ := List.cons_prefix_iff.1 afterFirst
    have run := length_le_takeWhile afterSecond names
    rw [identifierSpan_custom]
    simp only [List.length_cons, nameRun] at run ⊢
    omega
  | @plain start tail opens names =>
    obtain ⟨more, rfl, afterStart⟩ := List.cons_prefix_iff.1 isPrefix
    have run := length_le_takeWhile afterStart names
    rw [identifierSpan_plain opens]
    simp only [List.length_cons, nameRun] at run ⊢
    omega
  | @hyphen start tail opens names =>
    obtain ⟨rest, rfl, afterHyphen⟩ := List.cons_prefix_iff.1 isPrefix
    obtain ⟨more, rfl, afterStart⟩ := List.cons_prefix_iff.1 afterHyphen
    have run := length_le_takeWhile afterStart names
    rw [identifierSpan_hyphen opens]
    simp only [List.length_cons, nameRun] at run ⊢
    omega

/-- The identifier scan finds nothing exactly when no prefix of the bytes is an identifier. -/
theorem identifierSpan_eq_zero_iff {bytes : List UInt8} :
    identifierSpan bytes = 0 ↔ ∀ pre, pre <+: bytes → ¬ IdentifierWord pre := by
  constructor
  · intro zero pre isPrefix word
    have bound := length_le_identifierSpan isPrefix word
    have nonempty := List.length_pos_of_ne_nil word.ne_nil
    omega
  · intro absent
    by_contra found
    exact absent _ (List.take_prefix _ _) (identifierWord_take found)

/-- Where it finds one, the identifier scan takes the longest identifier that opens the bytes. -/
theorem identifierSpan_longest {bytes : List UInt8} (found : identifierSpan bytes ≠ 0) :
    LongestPrefix IdentifierWord bytes (identifierSpan bytes) where
  fits := identifierSpan_le bytes
  accepted := identifierWord_take found
  longest _ isPrefix word := length_le_identifierSpan isPrefix word

/-- A text is one whole identifier exactly when its bytes are in the identifier grammar. -/
theorem isWholeIdentifier_iff (text : String) :
    isWholeIdentifier text = true ↔ IdentifierWord text.toUTF8.toList := by
  simp only [isWholeIdentifier, Bool.and_eq_true, Bool.not_eq_true', List.isEmpty_eq_false_iff,
    beq_iff_eq]
  generalize text.toUTF8.toList = bytes
  constructor
  · rintro ⟨nonempty, whole⟩
    have found : identifierSpan bytes ≠ 0 := by
      rw [whole]
      exact Nat.pos_iff_ne_zero.1 (List.length_pos_of_ne_nil nonempty)
    have word := identifierWord_take found
    rwa [whole, List.take_length] at word
  · intro word
    have bound := length_le_identifierSpan (List.prefix_refl bytes) word
    exact ⟨word.ne_nil, Nat.le_antisymm (identifierSpan_le bytes) bound⟩

end StyleGrammar.Token

namespace StyleGrammar.Cursor

open Token

variable {c : Cursor}

/-- An identifier is ahead exactly when some prefix of the rest is one. -/
theorem identifierAhead_iff (c : Cursor) :
    c.identifierAhead = true ↔ ∃ pre, pre <+: c.rest ∧ IdentifierWord pre := by
  rw [identifierAhead, bne_iff_ne, ne_eq, identifierSpan_eq_zero_iff]
  simp only [not_forall, not_not, exists_prop]

/-- With no identifier ahead, neither looking at one nor taking one finds anything. -/
theorem identifierText_of_none (absent : ∀ pre, pre <+: c.rest → ¬ IdentifierWord pre) :
    c.identifierText = .ok none ∧ c.takeIdentifierText = .ok none := by
  have zero := identifierSpan_eq_zero_iff.2 absent
  have text : c.identifierText = .ok none := by
    simp [identifierText, zero]
  refine ⟨text, ?_⟩
  rw [takeIdentifierText, text]
  rfl

/-- On a boundary, the identifier ahead is the text of the scanned bytes, and taking it moves the
cursor over them. -/
theorem OnBoundary.identifierText_found (h : c.OnBoundary) (found : identifierSpan c.rest ≠ 0) :
    ∃ name : String, name.toUTF8.toList = c.rest.take (identifierSpan c.rest) ∧
      c.identifierText = .ok (some name) ∧
      c.takeIdentifierText =
        .ok (some (name, c.forward (identifierSpan c.rest) (identifierSpan_le _))) := by
  obtain ⟨name, cut⟩ := h.slice_lands (identifierSpan_le _) (identifierSpan_lands c.rest)
  have text : c.identifierText = .ok (some name) := by
    simp [identifierText, found, cut, Except.map]
  refine ⟨name, toUTF8_decodeUtf8? (decodeUtf8?_of_slice cut), text, ?_⟩
  rw [takeIdentifierText, text]
  rfl

/-- On a boundary, the identifier ahead and the move over it are the longest identifier that
opens the rest. -/
theorem OnBoundary.identifierText_longest (h : c.OnBoundary) {n : Nat}
    (longest : LongestPrefix IdentifierWord c.rest n) :
    ∃ name : String, name.toUTF8.toList = c.rest.take n ∧ c.identifierText = .ok (some name) ∧
      ∃ next, c.takeIdentifierText = .ok (some (name, next)) ∧ next.text = c.text ∧
        next.pos = c.pos + n := by
  have found : identifierSpan c.rest ≠ 0 := fun zero =>
    identifierSpan_eq_zero_iff.1 zero _ (List.take_prefix n c.rest) longest.accepted
  have same : identifierSpan c.rest = n := (identifierSpan_longest found).unique longest
  obtain ⟨name, bytes, text, taken⟩ := h.identifierText_found found
  refine ⟨name, same ▸ bytes, text, _, taken, rfl, ?_⟩
  rw [pos_forward, same]

end StyleGrammar.Cursor

namespace StyleGrammar

open Token

/-- **The identifier scan takes the longest identifier.** The scan's length is that of the
longest prefix in the identifier grammar, `0` exactly when no prefix is in it; a text is one
identifier exactly when it is in the grammar; and at a cursor on a character boundary, an
identifier is ahead exactly when a prefix of the rest is one, while looking at it and taking it
give the longest such prefix and move over it. -/
theorem identifier_scan_longest :
    (∀ bytes : List UInt8,
      (identifierSpan bytes = 0 ↔ ∀ pre, pre <+: bytes → ¬ IdentifierWord pre) ∧
      (identifierSpan bytes ≠ 0 → LongestPrefix IdentifierWord bytes (identifierSpan bytes))) ∧
    (∀ text : String, isWholeIdentifier text = true ↔ IdentifierWord text.toUTF8.toList) ∧
    (∀ c : Cursor, c.identifierAhead = true ↔ ∃ pre, pre <+: c.rest ∧ IdentifierWord pre) ∧
    (∀ c : Cursor, c.OnBoundary → ∀ n, LongestPrefix IdentifierWord c.rest n →
      ∃ name : String, name.toUTF8.toList = c.rest.take n ∧ c.identifierText = .ok (some name) ∧
        ∃ next, c.takeIdentifierText = .ok (some (name, next)) ∧ next.text = c.text ∧
          next.pos = c.pos + n) ∧
    (∀ c : Cursor, (∀ pre, pre <+: c.rest → ¬ IdentifierWord pre) →
      c.identifierText = .ok none ∧ c.takeIdentifierText = .ok none) :=
  ⟨fun _ => ⟨identifierSpan_eq_zero_iff, identifierSpan_longest⟩, isWholeIdentifier_iff,
    Cursor.identifierAhead_iff, fun _ h _ longest => h.identifierText_longest longest,
    fun _ absent => Cursor.identifierText_of_none absent⟩

end StyleGrammar
