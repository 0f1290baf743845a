import StyleGrammar.Proofs.Discipline

/-!
**Reading identifiers and keywords as text.**

The cursor scans identifier tokens over bytes and then cuts them out of the text as strings;
keywords are compared with those strings, ASCII capitals lowered under the insensitive policy.
This module brings the strings back to bytes, so that facts about reading keywords can be stated
and proved over the bytes of the text alone.

* `toUTF8_toList`, `decodeUtf8?_toUTF8`, `toUTF8_decodeUtf8?`: a text's bytes, and decoding
  as the inverse of encoding;
* `asciiLower`, `toUTF8_map_toLower`: lowering ASCII capitals is the same on characters and on
  bytes, so `CasePolicy.equal_asciiInsensitive_iff` compares the lowered bytes;
* `Token.identifierSpan_letters`: a run of letters that nothing continues is one identifier token;
* `Cursor.takeIdentifier?_eq_some`: an identifier taken is the text of the token's bytes;
* `Cursor.takeIdentifier?_letters`: a run of letters is always taken, as the text it spells;
* `Cursor.takeKeyword?_eq`: a keyword is an identifier taken and then compared.
-/

namespace StyleGrammar

/-! ### Texts and their bytes -/

theorem byteArray_toList_loop (bs : ByteArray) (i : Nat) (r : List UInt8) :
    ByteArray.toList.loop bs i r = r.reverse ++ bs.data.toList.drop i := by
  fun_induction ByteArray.toList.loop bs i r with
  | case1 i r inside ih =>
    have more : i < bs.data.toList.length := by simpa using inside
    rw [ih, List.drop_eq_getElem_cons more]
    simp [ByteArray.get!, inside]
  | case2 i r past =>
    rw [List.drop_eq_nil_of_le (by simpa using Nat.le_of_not_lt past)]
    simp

theorem byteArray_toList (bs : ByteArray) : bs.toList = bs.data.toList := by
  simp [ByteArray.toList, byteArray_toList_loop]

/-- The bytes of a text are its characters' encodings, one after another. -/
theorem toUTF8_toList (s : String) : s.toUTF8.toList = s.toList.flatMap String.utf8EncodeChar := by
  rw [byteArray_toList, String.toUTF8, ← String.utf8Encode_toList, List.utf8Encode,
    List.toList_data_toByteArray]

theorem toUTF8_decodeUtf8? {bytes : List UInt8} {s : String} (h : decodeUtf8? bytes = some s) :
    s.toUTF8.toList = bytes := by
  unfold decodeUtf8? String.fromUTF8? at h
  split at h
  · cases h
    simp [String.fromUTF8, String.toUTF8, byteArray_toList]
  · cases h

theorem decodeUtf8?_toUTF8 (s : String) : decodeUtf8? s.toUTF8.toList = some s := by
  have valid : ByteArray.IsValidUTF8 ⟨s.toUTF8.toList.toArray⟩ := by
    simpa [byteArray_toList] using s.isValidUTF8
  unfold decodeUtf8? String.fromUTF8?
  rw [dif_pos valid]
  congr 1
  rw [← String.toByteArray_inj]
  simp [String.fromUTF8, byteArray_toList]

theorem utf8EncodeChar_ofNat_of_ascii {b : UInt8} (ascii : b < 0x80) :
    String.utf8EncodeChar (Char.ofNat b.toNat) = [b] := by
  have small : b.toNat < 0x80 := by simpa [UInt8.lt_iff_toNat_lt] using ascii
  have value : (Char.ofNat b.toNat).val.toNat = b.toNat := by
    rw [Char.ofNat, dif_pos (Or.inl (by omega))]
    rfl
  rw [String.utf8EncodeChar_eq_singleton (Char.utf8Size_eq_one_iff.2 ?_)]
  · congr 1
    apply UInt8.toNat_inj.mp
    rw [UInt32.toNat_toUInt8, value]
    omega
  · rw [UInt32.le_iff_toNat_le, value]
    simp
    omega

/-- ASCII bytes are the text of one character each. -/
theorem exists_toUTF8_of_ascii {bytes : List UInt8} (ascii : ∀ b ∈ bytes, b < 0x80) :
    ∃ s : String, s.toUTF8.toList = bytes := by
  refine ⟨String.ofList (bytes.map fun b => Char.ofNat b.toNat), ?_⟩
  rw [toUTF8_toList, String.toList_ofList, List.flatMap_map]
  induction bytes with
  | nil => rfl
  | cons b rest ih =>
    rw [List.flatMap_cons, utf8EncodeChar_ofNat_of_ascii (ascii b (by simp)),
      ih fun x mem => ascii x (by simp [mem])]
    rfl

/-! ### ASCII case -/

theorem asciiLower_of_high {b : UInt8} (high : 0x80 ≤ b) : asciiLower b = b := by
  have notCapital : ¬ (0x41 ≤ b ∧ b ≤ 0x5A) := by
    rw [UInt8.le_iff_toNat_le] at high
    rw [UInt8.le_iff_toNat_le, UInt8.le_iff_toNat_le]
    simp at high ⊢
    omega
  simp [asciiLower, notCapital]

theorem high_or {x m : UInt8} (high : 0x80 ≤ m) : 0x80 ≤ x ||| m := by
  rw [UInt8.le_iff_toNat_le] at high ⊢
  rw [UInt8.toNat_or]
  exact Nat.le_trans high Nat.right_le_or

/-- Lowering an ASCII character lowers its one byte. -/
theorem toLower_toUInt8_of_ascii {c : Char} (ascii : c.val ≤ 127) :
    c.toLower.val.toUInt8 = asciiLower c.val.toUInt8 := by
  have small : c.toNat ≤ 127 := by simpa [UInt32.le_iff_toNat_le] using ascii
  have byte : c.val.toUInt8.toNat = c.toNat := by
    simp only [UInt32.toNat_toUInt8, Char.toNat_val]
    omega
  unfold Char.toLower asciiLower
  split
  · rename_i capital
    have : c.toNat ≥ 65 ∧ c.toNat ≤ 90 := by simpa [UInt32.le_iff_toNat_le] using capital
    rw [if_pos]
    · apply UInt8.toNat_inj.mp
      simp only [UInt32.toNat_toUInt8, UInt8.toNat_add, UInt32.toNat_add]
      simp
    · simp only [UInt8.le_iff_toNat_le, byte]
      simp
      omega
  · rename_i notCapital
    rw [if_neg]
    simp [UInt32.le_iff_toNat_le] at notCapital
    simp only [UInt8.le_iff_toNat_le, byte]
    simp
    omega

/-- Lowering a character lowers the ASCII capital among its bytes: outside ASCII nothing
changes, and every byte of a longer encoding lies above ASCII. -/
theorem utf8EncodeChar_toLower (c : Char) :
    String.utf8EncodeChar c.toLower = (String.utf8EncodeChar c).map asciiLower := by
  by_cases ascii : c.val ≤ 127
  · have lowered : c.toLower.val ≤ 127 := by
      have small : c.toNat ≤ 127 := by simpa [UInt32.le_iff_toNat_le] using ascii
      unfold Char.toLower
      split
      · rename_i capital
        have : c.toNat ≤ 90 := by simpa [UInt32.le_iff_toNat_le] using capital.2
        simp [UInt32.le_iff_toNat_le]
        omega
      · exact ascii
    rw [String.utf8EncodeChar_eq_singleton (Char.utf8Size_eq_one_iff.2 ascii),
      String.utf8EncodeChar_eq_singleton (Char.utf8Size_eq_one_iff.2 lowered),
      List.map_singleton, toLower_toUInt8_of_ascii ascii]
  · have same : c.toLower = c := by
      unfold Char.toLower
      rw [dif_neg]
      intro ⟨_, capital⟩
      apply ascii
      simp [UInt32.le_iff_toNat_le] at capital ⊢
      omega
    rw [same]
    have := c.utf8Size_pos
    have := c.utf8Size_le_four
    have notOne : c.utf8Size ≠ 1 := fun one => ascii (Char.utf8Size_eq_one_iff.1 one)
    have fixes : ∀ x m : UInt8, 0x80 ≤ m → asciiLower (x ||| m) = x ||| m :=
      fun x m high => asciiLower_of_high (high_or high)
    rcases (by omega : c.utf8Size = 2 ∨ c.utf8Size = 3 ∨ c.utf8Size = 4) with two | three | four
    · rw [String.utf8EncodeChar_eq_cons_cons two]
      simp [fixes]
    · rw [String.utf8EncodeChar_eq_cons_cons_cons three]
      simp [fixes]
    · rw [String.utf8EncodeChar_eq_cons_cons_cons_cons four]
      simp [fixes]

theorem toUTF8_map_toLower (s : String) :
    (s.map Char.toLower).toUTF8.toList = s.toUTF8.toList.map asciiLower := by
  rw [toUTF8_toList, toUTF8_toList, String.toList_map, List.flatMap_map, List.map_flatMap]
  simp only [utf8EncodeChar_toLower]

/-- A text is determined by its bytes. -/
theorem toUTF8_toList_inj {s t : String} : s.toUTF8.toList = t.toUTF8.toList ↔ s = t := by
  constructor
  · intro same
    have decoded := decodeUtf8?_toUTF8 s
    rw [same, decodeUtf8?_toUTF8] at decoded
    exact (Option.some.inj decoded).symm
  · rintro rfl
    rfl

/-- Under the ASCII-insensitive policy two texts are equal when their bytes are, once ASCII
capitals are lowered. -/
theorem CasePolicy.equal_asciiInsensitive_iff {a b : String} :
    CasePolicy.asciiInsensitive.equal a b = true ↔
      a.toUTF8.toList.map asciiLower = b.toUTF8.toList.map asciiLower := by
  rw [← toUTF8_map_toLower, ← toUTF8_map_toLower, toUTF8_toList_inj]
  simp [CasePolicy.equal, CasePolicy.canonical]

/-- Two byte lists lower to the same bytes exactly when they have one length and lower alike
pair by pair. -/
theorem map_asciiLower_eq_iff : ∀ {xs ys : List UInt8},
    xs.map asciiLower = ys.map asciiLower ↔
      xs.length = ys.length ∧ ∀ pair ∈ xs.zip ys, asciiLower pair.1 = asciiLower pair.2
  | [], [] => by simp
  | [], y :: ys => by simp
  | x :: xs, [] => by simp
  | x :: xs, y :: ys => by
    simp only [List.map_cons, List.cons.injEq, map_asciiLower_eq_iff, List.length_cons,
      Nat.add_right_cancel_iff, List.zip_cons_cons, List.forall_mem_cons]
    exact and_left_comm

/-- Matching an identifier with a keyword agrees with comparing their canonical forms, under
either policy: a table that looks keys up by their fold finds exactly the keys that match. -/
theorem CasePolicy.matchesName_eq_equal (policy : CasePolicy) (first second : String) :
    policy.matchesName first second = policy.equal first second := by
  cases policy with
  | sensitive => rfl
  | asciiInsensitive =>
    rw [Bool.eq_iff_iff, CasePolicy.equal_asciiInsensitive_iff, map_asciiLower_eq_iff]
    simp [CasePolicy.matchesName, List.all_eq_true]

/-! ### Identifier tokens of letters -/

namespace Token

theorem lt_of_isLetter {b : UInt8} (letter : isLetter b = true) : b < 0x80 := by
  simp only [isLetter, Bool.or_eq_true, Bool.and_eq_true, decide_eq_true_eq] at letter
  rw [UInt8.lt_iff_toNat_lt]
  simp only [UInt8.le_iff_toNat_le] at letter
  simp at letter ⊢
  omega

theorem lt_of_continuesName_eq_false {b : UInt8} (stops : continuesName b = false) : b < 0x80 := by
  simp only [continuesName, opensName, Bool.or_eq_false_iff, decide_eq_false_iff_not] at stops
  have high := stops.1.1.2
  rw [UInt8.le_iff_toNat_le] at high
  rw [UInt8.lt_iff_toNat_lt]
  simp at high ⊢
  omega

/-- A run of letters followed by a byte that cannot continue a name is one identifier token. -/
theorem identifierSpan_letters {word after : List UInt8} (nonempty : word ≠ [])
    (letters : ∀ b ∈ word, isLetter b = true) (stops : ∀ b ∈ after.head?, continuesName b = false) :
    identifierSpan (word ++ after) = word.length := by
  obtain ⟨w, more, rfl⟩ := List.exists_cons_of_ne_nil nonempty
  have first := letters w (by simp)
  have notHyphen : (w == 0x2D) = false := by
    simp only [isLetter, Bool.or_eq_true, Bool.and_eq_true, decide_eq_true_eq,
      UInt8.le_iff_toNat_le] at first
    simp only [beq_eq_false_iff_ne, ne_eq, ← UInt8.toNat_inj]
    simp at first ⊢
    omega
  have run : nameRun (more ++ after) = more.length := by
    have continues : ∀ b ∈ more, continuesName b = true := fun b mem =>
      continuesName_of_opensName (by simp [opensName, letters b (by simp [mem])])
    unfold nameRun
    rw [List.takeWhile_append_of_pos continues]
    cases after with
    | nil => simp
    | cons a rest => simp [stops a (by simp)]
  have opens : opensName w = true := by simp [opensName, first]
  rw [List.cons_append]
  simp only [identifierSpan, notHyphen, opens, Bool.false_eq_true, if_false, if_true, run]
  simp
  omega

/-- A byte that lowers to a letter is a letter. -/
theorem isLetter_of_asciiLower {b : UInt8} (letter : isLetter (asciiLower b) = true) :
    isLetter b = true := by
  unfold asciiLower at letter
  split at letter
  · rename_i capital
    simp only [isLetter, Bool.or_eq_true, Bool.and_eq_true, decide_eq_true_eq]
    exact .inl capital
  · exact letter

end Token

/-! ### Cutting text ahead of the cursor -/

theorem Utf8.isContinuation_of_lt {b : UInt8} (ascii : b < 0x80) : Utf8.isContinuation b = false := by
  rw [UInt8.lt_iff_toNat_lt] at ascii
  simp [Utf8.isContinuation, UInt8.le_iff_toNat_le]
  simp at ascii
  omega

namespace Cursor

theorem drop_text_ahead (c : Cursor) (n : Nat) : c.text.drop (c.pos + n) = c.rest.drop n := by
  rw [c.rest_eq, List.drop_drop]

/-- A position ahead of the cursor is a character boundary when the byte there begins a
character or the text ends there. -/
theorem isCharBoundary_ahead (c : Cursor) {n : Nat} (fits : n ≤ c.rest.length)
    (lead : ∀ b ∈ (c.rest.drop n).head?, Utf8.isContinuation b = false) :
    Utf8.isCharBoundary c.text (c.pos + n) = true := by
  unfold Utf8.isCharBoundary
  rw [c.drop_text_ahead n]
  split
  · rename_i empty
    have gone := congrArg List.length empty
    have := c.rest_length
    have := c.pos_le
    simp only [List.length_drop, List.length_nil] at gone
    simp
    omega
  · rename_i b more found
    simp [lead b (by simp [found])]

/-- Between two character boundaries ahead of the cursor the text is the decoded bytes. -/
theorem slice_ahead {c : Cursor} {n : Nat} {s : String} (fits : n ≤ c.rest.length)
    (start : Utf8.isCharBoundary c.text c.pos = true)
    (stop : Utf8.isCharBoundary c.text (c.pos + n) = true)
    (decoded : decodeUtf8? (c.rest.take n) = some s) :
    Utf8.slice c.text c.pos (c.pos + n) = .ok s := by
  have := c.rest_length
  have := c.pos_le
  unfold Utf8.slice
  rw [if_neg (by omega), if_neg (by omega), if_neg (by omega), if_neg (by simp [start]),
    if_neg (by simp [stop]), ← c.rest_eq, Nat.add_sub_cancel_left, decoded]

/-- A text cut ahead of the cursor is the decoding of the bytes between. -/
theorem decodeUtf8?_of_slice {c : Cursor} {n : Nat} {s : String}
    (h : Utf8.slice c.text c.pos (c.pos + n) = .ok s) : decodeUtf8? (c.rest.take n) = some s := by
  unfold Utf8.slice at h
  split at h
  · cases h
  split at h
  · cases h
  split at h
  · cases h
  split at h
  · cases h
  split at h
  · cases h
  rw [← c.rest_eq, Nat.add_sub_cancel_left] at h
  split at h
  · rename_i text found
    cases h
    exact found
  · cases h

/-! ### Identifiers and keywords at the cursor -/

/-- The identifier taken is the text of the identifier token's bytes, and the cursor moves
over the token. -/
theorem takeIdentifier?_eq_some {c next : Cursor} {name : String}
    (h : c.takeIdentifier? = some (name, next)) :
    name.toUTF8.toList = c.rest.take (Token.identifierSpan c.rest) ∧
      next = c.forward (Token.identifierSpan c.rest) (Token.identifierSpan_le _) := by
  rw [takeIdentifier?_eq] at h
  obtain ⟨found, text, same⟩ := Option.map_eq_some_iff.1 h
  cases same
  refine ⟨?_, rfl⟩
  simp only [identifierText] at text
  split at text
  · simp [Except.toOption] at text
  · cases slicing : Utf8.slice c.text c.pos (c.pos + Token.identifierSpan c.rest) with
    | error e => simp [slicing, Except.map, Except.toOption] at text
    | ok s =>
      simp only [slicing, Except.map, Except.toOption, Option.join_some, Option.some.injEq] at text
      subst text
      exact toUTF8_decodeUtf8? (decodeUtf8?_of_slice slicing)

/-- A word of ASCII letters followed by a byte that cannot continue a name is taken whole as
an identifier, whose text is the word. -/
theorem takeIdentifier?_letters {c : Cursor} {word after : List UInt8}
    (split : c.rest = word ++ after) (nonempty : word ≠ [])
    (letters : ∀ b ∈ word, Token.isLetter b = true)
    (stops : ∀ b ∈ after.head?, Token.continuesName b = false) :
    ∃ name : String, name.toUTF8.toList = word ∧
      c.takeIdentifier? = some (name, c.forward word.length
        (by rw [split, List.length_append]; exact Nat.le_add_right _ _)) := by
  have span : Token.identifierSpan c.rest = word.length := by
    rw [split]
    exact Token.identifierSpan_letters nonempty letters stops
  have ascii : ∀ b ∈ word, b < 0x80 := fun b mem => Token.lt_of_isLetter (letters b mem)
  obtain ⟨name, bytes⟩ := exists_toUTF8_of_ascii ascii
  have fits : word.length ≤ c.rest.length := by simp [split]
  have start : Utf8.isCharBoundary c.text c.pos = true := by
    have := c.isCharBoundary_ahead (Nat.zero_le _) fun b mem => by
      obtain ⟨w, more, rfl⟩ := List.exists_cons_of_ne_nil nonempty
      simp only [split, List.drop_zero, List.cons_append, List.head?_cons,
        Option.mem_def, Option.some.injEq] at mem
      exact Utf8.isContinuation_of_lt (ascii b (by simp [mem]))
    simpa using this
  have stop := c.isCharBoundary_ahead fits fun b mem => by
    simp only [split, List.drop_left] at mem
    exact Utf8.isContinuation_of_lt (Token.lt_of_continuesName_eq_false (stops b mem))
  have decoded : decodeUtf8? (c.rest.take word.length) = some name := by
    rw [split, List.take_left, ← bytes, decodeUtf8?_toUTF8]
  refine ⟨name, bytes, ?_⟩
  rw [takeIdentifier?_eq]
  unfold identifierText
  simp only [span, List.length_eq_zero_iff, nonempty, if_false, slice_ahead fits start stop decoded]
  simp only [Except.map, Except.toOption, Option.join_some, Option.map_some]

/-- Taking a keyword is taking an identifier and comparing it with the keyword. -/
theorem takeKeyword?_eq (c : Cursor) (policy : CasePolicy) (keyword : String) :
    c.takeKeyword? policy keyword = c.takeIdentifier?.bind fun (name, next) =>
      if policy.equal name keyword then some next else none := by
  unfold takeKeyword? takeKeywordText takeIdentifier?
  cases c.takeIdentifierText with
  | error e => rfl
  | ok found =>
    cases found with
    | none => rfl
    | some taken => simp only [CasePolicy.matchesName_eq_equal]; rfl

end Cursor

end StyleGrammar
