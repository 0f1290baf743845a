import StyleGrammar.Proofs.Keywords

/-!
**Valid UTF-8 and its character boundaries.**

The bytes of a text are its characters' encodings, one after another. An encoding opens with a
byte that continues no character and goes on with continuation bytes, and a character whose
first byte is ASCII is that byte alone. So in such bytes the position after an ASCII byte is a
character boundary, a boundary splits the bytes into two texts, and cutting between two
boundaries gives a text.

* `Utf8.Valid`: bytes that encode some characters;
* `Utf8.utf8EncodeChar_shape`: one encoding, a leading byte and then continuation bytes;
* `Utf8.Valid.isCharBoundary_succ`: after an ASCII byte comes a boundary;
* `Utf8.Valid.split`: a boundary splits valid bytes into valid bytes;
* `Utf8.Valid.slice_ok`: cutting valid bytes between two boundaries gives a text.
-/

namespace StyleGrammar.Utf8

/-- Bytes that encode some characters, one after another. -/
def Valid (bytes : List UInt8) : Prop :=
  ∃ chars : List Char, bytes = chars.flatMap String.utf8EncodeChar

theorem valid_toUTF8 (s : String) : Valid s.toUTF8.toList :=
  ⟨s.toList, toUTF8_toList s⟩

namespace Valid

theorem nil : Valid [] :=
  ⟨[], rfl⟩

theorem append {pre post : List UInt8} (h : Valid pre) (h' : Valid post) : Valid (pre ++ post) := by
  obtain ⟨chars, rfl⟩ := h
  obtain ⟨chars', rfl⟩ := h'
  exact ⟨chars ++ chars', by rw [List.flatMap_append]⟩

/-- Valid bytes are the bytes of a text, so they decode. -/
theorem decode {bytes : List UInt8} (h : Valid bytes) : ∃ s, decodeUtf8? bytes = some s := by
  obtain ⟨chars, rfl⟩ := h
  have encoded : (String.ofList chars).toUTF8.toList = chars.flatMap String.utf8EncodeChar := by
    rw [toUTF8_toList, String.toList_ofList]
  exact ⟨String.ofList chars, by rw [← encoded, decodeUtf8?_toUTF8]⟩

end Valid

/-! ### The bytes of one character -/

/-- The later bytes of an encoding: six bits of the code point under the marker `10`. -/
theorem isContinuation_tail (x : UInt8) : isContinuation (x &&& 0x3F ||| 0x80) = true := by
  have low : x.toNat &&& 63 < 128 := Nat.lt_of_le_of_lt Nat.and_le_right (by decide)
  have small : x.toNat &&& 63 ≤ 63 := Nat.and_le_right
  have value : (x &&& 0x3F ||| 0x80).toNat = (x.toNat &&& 63) + 128 := by
    rw [UInt8.toNat_or, UInt8.toNat_and]
    exact @Nat.or_two_pow_eq_add_of_lt _ 7 low
  simp only [isContinuation, UInt8.le_iff_toNat_le, UInt8.lt_iff_toNat_lt, value,
    Bool.and_eq_true, decide_eq_true_eq, UInt8.reduceToNat]
  omega

/-- A leading byte of two bytes or more carries a marker of at least `110`. -/
theorem isContinuation_lead {x m : UInt8} (high : 0xC0 ≤ m) :
    isContinuation (x ||| m) = false := by
  have above : m.toNat ≤ (x ||| m).toNat := by
    rw [UInt8.toNat_or]
    exact Nat.right_le_or
  rw [UInt8.le_iff_toNat_le] at high
  simp only [isContinuation, UInt8.le_iff_toNat_le, UInt8.lt_iff_toNat_lt, Bool.and_eq_false_iff,
    decide_eq_false_iff_not, UInt8.reduceToNat] at high ⊢
  omega

theorem le_of_isContinuation {b : UInt8} (h : isContinuation b = true) : 0x80 ≤ b := by
  simp only [isContinuation, Bool.and_eq_true, decide_eq_true_eq] at h
  exact h.1

theorem lead_not_ascii {x m : UInt8} (high : 0xC0 ≤ m) : ¬ (x ||| m) < 0x80 := by
  rw [UInt8.le_iff_toNat_le] at high
  rw [UInt8.lt_iff_toNat_lt, UInt8.toNat_or]
  have := @Nat.right_le_or x.toNat m.toNat
  simp only [UInt8.reduceToNat] at high ⊢
  omega

/-- **An encoding is a leading byte and continuation bytes**, and it is its leading byte alone
exactly when that byte is ASCII: a one-byte encoding is the code point itself, below `0x80`. -/
theorem utf8EncodeChar_shape (c : Char) :
    ∃ lead tail, String.utf8EncodeChar c = lead :: tail ∧ isContinuation lead = false ∧
      (∀ b ∈ tail, isContinuation b = true) ∧ (lead < 0x80 ↔ tail = []) := by
  have := c.utf8Size_pos
  have := c.utf8Size_le_four
  rcases (by omega : c.utf8Size = 1 ∨ c.utf8Size = 2 ∨ c.utf8Size = 3 ∨ c.utf8Size = 4)
    with one | two | three | four
  · have small := Char.utf8Size_eq_one_iff.1 one
    rw [UInt32.le_iff_toNat_le] at small
    have ascii : c.val.toUInt8 < 0x80 := by
      rw [UInt8.lt_iff_toNat_lt, UInt32.toNat_toUInt8]
      simp only [UInt32.reduceToNat] at small
      simp only [UInt8.reduceToNat]
      omega
    exact ⟨_, [], String.utf8EncodeChar_eq_singleton one, isContinuation_of_lt ascii,
      (fun _ mem => by cases mem), ⟨fun _ => rfl, fun _ => ascii⟩⟩
  · exact ⟨_, _, String.utf8EncodeChar_eq_cons_cons two, isContinuation_lead (by decide),
      by simp [isContinuation_tail],
      ⟨fun ascii => absurd ascii (lead_not_ascii (by decide)), fun empty => by cases empty⟩⟩
  · exact ⟨_, _, String.utf8EncodeChar_eq_cons_cons_cons three, isContinuation_lead (by decide),
      by simp [isContinuation_tail],
      ⟨fun ascii => absurd ascii (lead_not_ascii (by decide)), fun empty => by cases empty⟩⟩
  · exact ⟨_, _, String.utf8EncodeChar_eq_cons_cons_cons_cons four,
      isContinuation_lead (by decide), by simp [isContinuation_tail],
      ⟨fun ascii => absurd ascii (lead_not_ascii (by decide)), fun empty => by cases empty⟩⟩

/-! ### Character boundaries -/

/-- Whether a position is a boundary depends only on the bytes from it on. -/
theorem isCharBoundary_append (pre rest : List UInt8) (j : Nat) :
    isCharBoundary (pre ++ rest) (pre.length + j) = isCharBoundary rest j := by
  unfold isCharBoundary
  rw [← List.drop_drop, List.drop_append_length]
  cases rest.drop j with
  | nil =>
    rw [List.length_append, Bool.eq_iff_iff, beq_iff_eq, beq_iff_eq]
    omega
  | cons b more => rfl

theorem isCharBoundary_length (bytes : List UInt8) : isCharBoundary bytes bytes.length = true := by
  simp [isCharBoundary]

theorem Valid.isCharBoundary_zero {bytes : List UInt8} (h : Valid bytes) :
    isCharBoundary bytes 0 = true := by
  obtain ⟨chars, rfl⟩ := h
  cases chars with
  | nil => rfl
  | cons c more =>
    obtain ⟨lead, tail, encoded, opens, -, -⟩ := utf8EncodeChar_shape c
    simp [isCharBoundary, List.flatMap_cons, encoded, opens]

/-- Inside an encoding, past its leading byte, there is no boundary. -/
theorem isCharBoundary_inside {lead : UInt8} {tail : List UInt8}
    (continues : ∀ b ∈ tail, isContinuation b = true) (rest : List UInt8) {k : Nat}
    (inside : k < tail.length) : isCharBoundary (lead :: tail ++ rest) (k + 1) = false := by
  unfold isCharBoundary
  rw [List.cons_append, List.drop_succ_cons, List.drop_append_of_le_length (Nat.le_of_lt inside),
    List.drop_eq_getElem_cons inside, List.cons_append]
  simp [continues _ (List.getElem_mem inside)]

/-- **In valid bytes the position after an ASCII byte is a character boundary**: the byte is a
whole character, so the next one begins there. By induction on the encodings: an ASCII byte of
the first encoding leads it and is all of it, since a later byte of an encoding is a continuation
byte, never ASCII; past the first encoding the rest is valid bytes of its own. -/
theorem Valid.isCharBoundary_succ {bytes : List UInt8} (h : Valid bytes) {i : Nat} {b : UInt8}
    (found : bytes[i]? = some b) (ascii : b < 0x80) : isCharBoundary bytes (i + 1) = true := by
  obtain ⟨chars, rfl⟩ := h
  induction chars generalizing i with
  | nil => simp at found
  | cons c more ih =>
    obtain ⟨lead, tail, encoded, -, continues, single⟩ := utf8EncodeChar_shape c
    rw [List.flatMap_cons, encoded] at found ⊢
    by_cases first : i < (lead :: tail).length
    · cases i with
      | zero =>
        simp only [List.cons_append, List.getElem?_cons_zero, Option.some.injEq] at found
        subst found
        rw [single.1 ascii]
        exact (isCharBoundary_append [lead] _ 0).trans (Valid.isCharBoundary_zero ⟨more, rfl⟩)
      | succ k =>
        have inside : k < tail.length := by simpa using first
        rw [List.cons_append, List.getElem?_cons_succ, List.getElem?_append_left inside] at found
        have continuation := continues b (List.mem_of_getElem? found)
        exact absurd (le_of_isContinuation continuation) (by
          rw [UInt8.le_iff_toNat_le]
          rw [UInt8.lt_iff_toNat_lt] at ascii
          simp only [UInt8.reduceToNat] at ascii ⊢
          omega)
    · obtain ⟨j, rfl⟩ : ∃ j, i = (lead :: tail).length + j :=
        ⟨i - (lead :: tail).length, by omega⟩
      rw [List.getElem?_append_right (Nat.le_add_right _ _), Nat.add_sub_cancel_left] at found
      rw [Nat.add_assoc, isCharBoundary_append]
      exact ih found

/-- **A character boundary splits valid bytes into valid bytes.** -/
theorem Valid.split {bytes : List UInt8} (h : Valid bytes) {i : Nat}
    (bound : isCharBoundary bytes i = true) :
    ∃ pre post, Valid pre ∧ Valid post ∧ bytes = pre ++ post ∧ pre.length = i := by
  obtain ⟨chars, rfl⟩ := h
  induction chars generalizing i with
  | nil =>
    have start : i = 0 := by simpa [isCharBoundary] using bound
    exact ⟨[], [], .nil, .nil, rfl, start.symm⟩
  | cons c more ih =>
    obtain ⟨lead, tail, encoded, -, continues, -⟩ := utf8EncodeChar_shape c
    have whole : Valid (lead :: tail) := ⟨[c], by rw [List.flatMap_singleton, encoded]⟩
    rw [List.flatMap_cons, encoded] at bound ⊢
    by_cases first : i < (lead :: tail).length
    · cases i with
      | zero => exact ⟨[], _, .nil, whole.append ⟨more, rfl⟩, rfl, rfl⟩
      | succ k =>
        have inside : k < tail.length := by simpa using first
        rw [isCharBoundary_inside continues _ inside] at bound
        cases bound
    · obtain ⟨j, rfl⟩ : ∃ j, i = (lead :: tail).length + j :=
        ⟨i - (lead :: tail).length, by omega⟩
      rw [isCharBoundary_append] at bound
      obtain ⟨pre, post, validPre, validPost, split, length⟩ := ih bound
      refine ⟨lead :: tail ++ pre, post, whole.append validPre, validPost, ?_, ?_⟩
      · rw [split, List.append_assoc]
      · rw [List.length_append, length]

/-- **In valid bytes there is no boundary right after a byte that leads a character**, unless
that byte is ASCII: a leading byte from `0x80` up is followed by continuation bytes. -/
theorem Valid.isCharBoundary_succ_lead {bytes : List UInt8} (h : Valid bytes) {i : Nat} {b : UInt8}
    (bound : isCharBoundary bytes i = true) (found : bytes[i]? = some b) (high : 0x80 ≤ b) :
    isCharBoundary bytes (i + 1) = false := by
  obtain ⟨pre, post, -, ⟨chars, rfl⟩, rfl, rfl⟩ := h.split bound
  cases chars with
  | nil => simp at found
  | cons c more =>
    obtain ⟨lead, tail, encoded, -, continues, single⟩ := utf8EncodeChar_shape c
    rw [List.flatMap_cons, encoded] at found ⊢
    rw [List.getElem?_append_right (Nat.le_refl _), Nat.sub_self, List.cons_append,
      List.getElem?_cons_zero, Option.some.injEq] at found
    subst found
    have more : 0 < tail.length := List.length_pos_iff.2 fun empty =>
      absurd (single.2 empty) (by
        rw [UInt8.le_iff_toNat_le] at high
        rw [UInt8.lt_iff_toNat_lt]
        simp only [UInt8.reduceToNat] at high ⊢
        omega)
    rw [isCharBoundary_append pre _ 1]
    exact isCharBoundary_inside continues _ more

/-- **Cutting valid bytes between two character boundaries gives a text**: the end is a boundary
of what follows the start, and splits it again into valid bytes. -/
theorem Valid.slice_ok {bytes : List UInt8} (h : Valid bytes) {a b : Nat}
    (start : isCharBoundary bytes a = true) (stop : isCharBoundary bytes b = true) (le : a ≤ b)
    (fits : b ≤ bytes.length) : ∃ s, slice bytes a b = .ok s := by
  obtain ⟨pre, post, -, validPost, split, length⟩ := h.split start
  have stop' : isCharBoundary post (b - a) = true := by
    rw [split, show b = pre.length + (b - a) by omega, isCharBoundary_append] at stop
    exact stop
  obtain ⟨mid, after, validMid, -, within, length'⟩ := validPost.split stop'
  obtain ⟨s, decoded⟩ := validMid.decode
  have piece : (bytes.drop a).take (b - a) = mid := by
    rw [split, ← length, List.drop_append_length, within, length, ← length', List.take_left]
  refine ⟨s, ?_⟩
  unfold slice
  rw [if_neg (by omega), if_neg (by omega), if_neg (by omega), if_neg (by simp [start]),
    if_neg (by simp [stop]), piece, decoded]

end StyleGrammar.Utf8
