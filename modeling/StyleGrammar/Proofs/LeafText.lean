import StyleGrammar.Proofs.ValueText

/-!
**Single tokens read back from their text.**

A leaf value is written as one token, and a keyword's constant as a spelling of its key. Read at
a cursor whose rest is that text followed by a delimiter (a blank, a comma, or the end), each
single-token reader finds the same value again and stops right after the text.

* `Delimits`: what may follow a written token;
* `Binary64.ReadsBack`: the text of a number is read as the same number;
* `Token.identifierSpan_append`, `Cursor.takeIdentifier?_whole`: a whole identifier is taken
  whole where a delimiter follows it;
* `Leaf.Produces`, `Leaf.read_produces`: the shape of what each leaf reads;
* `Leaf.read_written`: a leaf reads the text of each value of its shape back to the value;
* `KeywordTable.SelfSpelled`, `KeywordTable.read_spells`, `KeywordTable.read_written`: when
  every constant of a table is written as a spelling of its key, the table reads the text of
  each constant it produces back to the constant;
* `OpensItem`, `Leaf.text_opens`, `Leaf.read_none`, `Leaf.read_advances`: what a leaf's text
  begins with, where no leaf reads, and that a leaf always moves the cursor.
-/

namespace StyleGrammar

/-! ### Delimiters -/

/-- A byte that may follow a written token: a blank or a comma. -/
def isDelimiter (b : UInt8) : Bool :=
  Token.isBlank b || b == 0x2C

/-- What may follow a written token: the end, a blank or a comma. -/
def Delimits (after : List UInt8) : Prop :=
  ∀ b ∈ after.head?, isDelimiter b = true

theorem isDelimiter_cases {b : UInt8} (h : isDelimiter b = true) :
    b = 0x20 ∨ b = 0x09 ∨ b = 0x0A ∨ b = 0x0D ∨ b = 0x0C ∨ b = 0x2C := by
  simp only [isDelimiter, Token.isBlank, Bool.or_eq_true, beq_iff_eq] at h
  rcases h with ((((same | same) | same) | same) | same) | same <;> simp [same]

namespace Delimits

variable {after : List UInt8}

theorem stopsName (h : Delimits after) : ∀ b ∈ after.head?, Token.continuesName b = false := by
  intro b mem
  rcases isDelimiter_cases (h b mem) with rfl | rfl | rfl | rfl | rfl | rfl <;> decide

/-- Neither a digit nor a sign follows. -/
theorem unsigned (h : Delimits after) :
    ∀ b ∈ after.head?, Token.isDigit b = false ∧ b ≠ 0x2B ∧ b ≠ 0x2D := by
  intro b mem
  rcases isDelimiter_cases (h b mem) with rfl | rfl | rfl | rfl | rfl | rfl <;> decide

theorem endsNumber (h : Delimits after) : EndsNumber after := by
  cases after with
  | nil => exact ⟨by simp, rfl⟩
  | cons b rest =>
    have facts : (Token.isDigit b = false ∧ b ≠ 0x2E) ∧ (b == 0x65 || b == 0x45) = false := by
      rcases isDelimiter_cases (h b (by simp)) with rfl | rfl | rfl | rfl | rfl | rfl <;> decide
    refine ⟨fun x mem => ?_, by simp [Token.exponentLen, facts.2]⟩
    simp only [List.head?_cons, Option.mem_def, Option.some.injEq] at mem
    subst mem
    exact facts.1

theorem not_percent (h : Delimits after) : after.headD 0 ≠ 0x25 := by
  cases after with
  | nil => decide
  | cons b rest =>
    rcases isDelimiter_cases (h b (by simp)) with rfl | rfl | rfl | rfl | rfl | rfl <;> simp

end Delimits

/-- An exponent mark followed by neither a sign nor a digit starts no exponent. -/
theorem Token.exponentLen_cons (b : UInt8) {rest : List UInt8}
    (h : ∀ x ∈ rest.head?, Token.isDigit x = false ∧ x ≠ 0x2B ∧ x ≠ 0x2D) :
    Token.exponentLen (b :: rest) = 0 := by
  cases rest with
  | nil => simp [Token.exponentLen, Token.signLen, Token.digitRun]
  | cons x more =>
    have facts := h x (by simp)
    have notSign : (x == 0x2B || x == 0x2D) = false := by
      simp [facts.2.1, facts.2.2]
    simp [Token.exponentLen, Token.signLen, Token.digitRun, notSign, facts.1]

/-! ### Identifier tokens -/

namespace Token

theorem names_of_nameRun {bytes : List UInt8} (whole : nameRun bytes = bytes.length) :
    ∀ b ∈ bytes, continuesName b = true := by
  have same : bytes.takeWhile continuesName = bytes :=
    (List.takeWhile_sublist _).eq_of_length whole
  have all : (bytes.takeWhile continuesName).all continuesName = true := List.all_takeWhile
  rw [same] at all
  exact List.all_eq_true.1 all

theorem nameRun_append {word : List UInt8} (names : ∀ b ∈ word, continuesName b = true)
    (after : List UInt8) : nameRun (word ++ after) = word.length + nameRun after := by
  unfold nameRun
  rw [List.takeWhile_append_of_pos names, List.length_append]

theorem nameRun_of_stops {after : List UInt8} (stops : ∀ b ∈ after.head?, continuesName b = false) :
    nameRun after = 0 := by
  cases after with
  | nil => rfl
  | cons b more => simp [nameRun, stops b (by simp)]

theorem nameRun_take (bytes : List UInt8) : nameRun (bytes.take (nameRun bytes)) = nameRun bytes := by
  unfold nameRun
  rw [← List.take_takeWhile, List.take_of_length_le (Nat.le_refl _)]

/-- A whole identifier followed by a byte that cannot continue a name is one identifier token. -/
theorem identifierSpan_append {word after : List UInt8} (nonempty : word ≠ [])
    (whole : identifierSpan word = word.length)
    (stops : ∀ b ∈ after.head?, continuesName b = false) :
    identifierSpan (word ++ after) = word.length := by
  obtain ⟨b, rest, rfl⟩ := List.exists_cons_of_ne_nil nonempty
  have ends := nameRun_of_stops stops
  by_cases hyphen : (b == 0x2D) = true
  · cases rest with
    | nil => simp [identifierSpan, hyphen] at whole
    | cons c more =>
      by_cases opens : (c == 0x2D || opensName c) = true
      · simp only [identifierSpan, hyphen, opens, if_true, List.cons_append,
          List.length_cons] at whole ⊢
        have names : ∀ b ∈ more, continuesName b = true := names_of_nameRun (by omega)
        rw [nameRun_append names, ends]
        omega
      · simp [identifierSpan, hyphen, opens] at whole
  · have opens : opensName b = true := by
      cases found : opensName b
      · simp [identifierSpan, hyphen, found] at whole
      · rfl
    simp only [identifierSpan, hyphen, opens, Bool.false_eq_true, if_false, if_true,
      List.cons_append, List.length_cons] at whole ⊢
    have names : ∀ b ∈ rest, continuesName b = true := names_of_nameRun (by omega)
    rw [nameRun_append names, ends]
    omega

/-- The identifier token that opens some bytes is, taken alone, a whole identifier token. -/
theorem identifierSpan_take (bytes : List UInt8) :
    identifierSpan (bytes.take (identifierSpan bytes)) = identifierSpan bytes := by
  match bytes with
  | [] => rfl
  | b :: rest =>
    by_cases hyphen : (b == 0x2D) = true
    · cases rest with
      | nil => simp [identifierSpan, hyphen]
      | cons c more =>
        by_cases opens : (c == 0x2D || opensName c) = true
        · have two : 2 + nameRun more = nameRun more + 1 + 1 := by omega
          simp only [identifierSpan, hyphen, opens, if_true]
          rw [two, List.take_succ_cons, List.take_succ_cons]
          simp only [hyphen, opens, if_true, nameRun_take]
          exact two
        · simp [identifierSpan, hyphen, opens]
    · by_cases opens : opensName b = true
      · have one : 1 + nameRun rest = nameRun rest + 1 := by omega
        simp only [identifierSpan, hyphen, opens, Bool.false_eq_true, if_false, if_true]
        rw [one, List.take_succ_cons]
        simp only [hyphen, opens, Bool.false_eq_true, if_false, if_true, nameRun_take]
        exact one
      · simp [identifierSpan, hyphen, opens]

end Token

/-! ### ASCII case and identifiers -/

theorem asciiLower_toNat (b : UInt8) :
    (asciiLower b).toNat = if 0x41 ≤ b.toNat ∧ b.toNat ≤ 0x5A then b.toNat + 0x20 else b.toNat := by
  unfold asciiLower
  split
  · rename_i capital
    simp only [UInt8.le_iff_toNat_le] at capital
    simp at capital
    rw [if_pos capital, UInt8.toNat_add]
    simp
    omega
  · rename_i notCapital
    simp only [UInt8.le_iff_toNat_le] at notCapital
    simp at notCapital
    rw [if_neg (by omega)]

namespace Token

theorem opensName_asciiLower (b : UInt8) : opensName (asciiLower b) = opensName b := by
  have value := asciiLower_toNat b
  refine Bool.eq_iff_iff.2 ?_
  simp only [opensName, isLetter, Bool.or_eq_true, Bool.and_eq_true, decide_eq_true_eq,
    beq_iff_eq, UInt8.le_iff_toNat_le, ← UInt8.toNat_inj]
  split at value <;> simp <;> omega

theorem continuesName_asciiLower (b : UInt8) : continuesName (asciiLower b) = continuesName b := by
  have value := asciiLower_toNat b
  refine Bool.eq_iff_iff.2 ?_
  simp only [continuesName, opensName, isLetter, isDigit, Bool.or_eq_true, Bool.and_eq_true,
    decide_eq_true_eq, beq_iff_eq, UInt8.le_iff_toNat_le, ← UInt8.toNat_inj]
  split at value <;> simp <;> omega

theorem hyphen_asciiLower (b : UInt8) : (asciiLower b == 0x2D) = (b == 0x2D) := by
  have value := asciiLower_toNat b
  refine Bool.eq_iff_iff.2 ?_
  simp only [beq_iff_eq, ← UInt8.toNat_inj]
  split at value <;> simp <;> omega

theorem nameRun_map_asciiLower (bytes : List UInt8) :
    nameRun (bytes.map asciiLower) = nameRun bytes := by
  unfold nameRun
  rw [List.takeWhile_map, List.length_map]
  congr 2
  funext b
  exact continuesName_asciiLower b

/-- Lowering ASCII capitals keeps identifier tokens where they are. -/
theorem identifierSpan_map_asciiLower (bytes : List UInt8) :
    identifierSpan (bytes.map asciiLower) = identifierSpan bytes := by
  match bytes with
  | [] => rfl
  | [b] => simp [identifierSpan, hyphen_asciiLower, opensName_asciiLower]
  | b :: c :: more =>
    have runs := nameRun_map_asciiLower (c :: more)
    simp only [List.map_cons] at runs
    simp only [List.map_cons, identifierSpan, hyphen_asciiLower, opensName_asciiLower, runs,
      nameRun_map_asciiLower]

end Token

/-- Two spellings of one key under a policy are identifiers together. -/
theorem isWholeIdentifier_of_canonical {policy : CasePolicy} {a b : String}
    (same : policy.canonical a = policy.canonical b) (whole : Token.isWholeIdentifier b = true) :
    Token.isWholeIdentifier a = true := by
  cases policy with
  | sensitive =>
    simp only [CasePolicy.canonical] at same
    rw [same]
    exact whole
  | asciiInsensitive =>
    have lowered : a.toUTF8.toList.map asciiLower = b.toUTF8.toList.map asciiLower := by
      rw [← toUTF8_map_toLower, ← toUTF8_map_toLower]
      simp only [CasePolicy.canonical] at same
      rw [same]
    have spans := congrArg Token.identifierSpan lowered
    have lengths := congrArg List.length lowered
    rw [Token.identifierSpan_map_asciiLower, Token.identifierSpan_map_asciiLower] at spans
    simp only [List.length_map] at lengths
    have empties : a.toUTF8.toList.isEmpty = b.toUTF8.toList.isEmpty := by
      rw [Bool.eq_iff_iff, List.isEmpty_iff_length_eq_zero, List.isEmpty_iff_length_eq_zero,
        lengths]
    simp only [Token.isWholeIdentifier] at whole ⊢
    rw [empties, spans, lengths]
    exact whole

namespace Cursor

theorem identifierSpan_pos_of_takeIdentifier? {c next : Cursor} {name : String}
    (h : c.takeIdentifier? = some (name, next)) : 0 < Token.identifierSpan c.rest := by
  rw [takeIdentifier?_eq] at h
  apply Nat.pos_of_ne_zero
  intro zero
  simp [identifierText, zero, Except.toOption] at h

/-- What the cursor takes as an identifier is one whole identifier token. -/
theorem isWholeIdentifier_of_takeIdentifier? {c next : Cursor} {name : String}
    (h : c.takeIdentifier? = some (name, next)) : Token.isWholeIdentifier name = true := by
  have span := identifierSpan_pos_of_takeIdentifier? h
  obtain ⟨bytes, -⟩ := takeIdentifier?_eq_some h
  have fits := Token.identifierSpan_le c.rest
  have length : name.toUTF8.toList.length = Token.identifierSpan c.rest := by
    rw [bytes, List.length_take]
    omega
  have whole : Token.identifierSpan name.toUTF8.toList = name.toUTF8.toList.length := by
    rw [length, bytes, Token.identifierSpan_take]
  have notEmpty : name.toUTF8.toList.isEmpty = false := by
    cases empty : name.toUTF8.toList with
    | nil =>
      rw [empty] at length
      simp at length
      omega
    | cons b more => rfl
  simp only [Token.isWholeIdentifier, notEmpty, whole, beq_self_eq_true, Bool.not_false,
    Bool.true_and]

/-- A whole identifier followed by a byte that cannot continue a name is taken whole, as its own
text. -/
theorem takeIdentifier?_whole {c : Cursor} {name : String} {after : List UInt8}
    (split : c.rest = name.toUTF8.toList ++ after) (whole : Token.isWholeIdentifier name = true)
    (stops : ∀ b ∈ after.head?, Token.continuesName b = false) :
    ∃ next, c.takeIdentifier? = some (name, next) ∧ next.rest = after := by
  have ⟨nonempty, span⟩ : name.toUTF8.toList ≠ [] ∧
      Token.identifierSpan name.toUTF8.toList = name.toUTF8.toList.length := by
    simpa [Token.isWholeIdentifier] using whole
  have spanRest : Token.identifierSpan c.rest = name.toUTF8.toList.length := by
    rw [split]
    exact Token.identifierSpan_append nonempty span stops
  have fits : name.toUTF8.toList.length ≤ c.rest.length := by simp [split]
  have start : Utf8.isCharBoundary c.text c.pos = true := by
    have := c.isCharBoundary_ahead (Nat.zero_le _) fun b mem => by
      obtain ⟨x, xs, bytes⟩ := List.exists_cons_of_ne_nil nonempty
      rw [List.drop_zero, split, bytes, List.cons_append, List.head?_cons] at mem
      exact toUTF8_head_lead name b (by rw [bytes]; exact mem)
    simpa using this
  have stop := c.isCharBoundary_ahead fits fun b mem => by
    simp only [split, List.drop_left] at mem
    exact Utf8.isContinuation_of_lt (Token.lt_of_continuesName_eq_false (stops b mem))
  have decoded : decodeUtf8? (c.rest.take name.toUTF8.toList.length) = some name := by
    rw [split, List.take_left, decodeUtf8?_toUTF8]
  refine ⟨c.forward (Token.identifierSpan c.rest) (Token.identifierSpan_le _), ?_, ?_⟩
  · rw [takeIdentifier?_eq]
    unfold identifierText
    simp only [spanRest, List.length_eq_zero_iff, nonempty, if_false,
      slice_ahead fits start stop decoded]
    simp only [Except.map, Except.toOption, Option.join_some, Option.map_some]
  · rw [rest_forward, spanRest, split, List.drop_left]

/-! ### Numbers and bytes -/

/-- A plain numeral followed by what cannot continue it is taken as one number token. -/
theorem takeNumberToken?_plain {c : Cursor} {token after : List UInt8}
    (split : c.rest = token ++ after) (plain : PlainNumeral token) (ends : EndsNumber after) :
    ∃ next, c.takeNumberToken? = some (token, next) ∧ next.rest = after := by
  have span : Token.numberSpan c.rest = some token.length := by
    rw [split]
    exact numberSpan_plain plain ends
  have taken : c.rest.take token.length = token := by
    rw [split, List.take_left]
  unfold takeNumberToken?
  split
  · rename_i len found
    rw [span, Option.some.injEq] at found
    subst found
    exact ⟨_, by rw [taken], by simp [split]⟩
  · rename_i missing
    rw [span] at missing
    cases missing

theorem takeByte?_cons {c : Cursor} {b : UInt8} {rest : List UInt8} (split : c.rest = b :: rest) :
    ∃ next, c.takeByte? b = some next ∧ next.rest = rest := by
  unfold takeByte?
  split
  · rename_i x more found
    rw [split, List.cons.injEq] at found
    obtain ⟨rfl, rfl⟩ := found
    exact ⟨c.forward 1 (by simp [split]), by simp, by simp [split]⟩
  · rename_i missing
    rw [split] at missing
    cases missing

/-- Where a delimiter follows, no dimension does. -/
theorem atDimension_eq_false {c : Cursor} (h : Delimits c.rest) : c.atDimension = false := by
  have noName : Token.identifierSpan c.rest = 0 := by
    cases rest : c.rest with
    | nil => rfl
    | cons b more =>
      have stops := h.stopsName b (by simp [rest])
      have notHyphen : (b == 0x2D) = false := by
        cases same : b == 0x2D
        · rfl
        · simp only [beq_iff_eq] at same
          subst same
          cases stops
      have notOpening : Token.opensName b = false := by
        cases opens : Token.opensName b
        · rfl
        · rw [Token.continuesName_of_opensName opens] at stops
          cases stops
      simp [Token.identifierSpan, notHyphen, notOpening]
  have notPercent := h.not_percent
  unfold atDimension identifierAhead byteHere
  rw [noName, bne_self_eq_false, Bool.false_or, beq_eq_false_iff_ne]
  exact notPercent

end Cursor

/-! ### Bytes that open an item, and bytes that open none -/

/-- A byte that can open an item of written text: no blank and no separator. -/
def OpensItem (b : UInt8) : Prop :=
  Token.isBlank b = false ∧ separatorAllowed b = false

theorem opensItem_hyphen : OpensItem 0x2D :=
  ⟨by decide, by decide⟩

theorem opensItem_of_isDigit {b : UInt8} (digit : Token.isDigit b = true) : OpensItem b := by
  simp only [Token.isDigit, Bool.and_eq_true, decide_eq_true_eq, UInt8.le_iff_toNat_le] at digit
  simp only [OpensItem, Token.isBlank, separatorAllowed, isAsciiPunctuation, Bool.or_eq_false_iff,
    Bool.and_eq_false_iff, beq_eq_false_iff_ne, decide_eq_false_iff_not, UInt8.le_iff_toNat_le,
    ne_eq, ← UInt8.toNat_inj]
  simp at digit ⊢
  omega

theorem opensItem_of_opensName {b : UInt8} (opens : Token.opensName b = true) : OpensItem b := by
  simp only [Token.opensName, Token.isLetter, Bool.or_eq_true, Bool.and_eq_true,
    decide_eq_true_eq, beq_iff_eq, UInt8.le_iff_toNat_le, ← UInt8.toNat_inj] at opens
  simp only [OpensItem, Token.isBlank, separatorAllowed, isAsciiPunctuation, Bool.or_eq_false_iff,
    Bool.and_eq_false_iff, beq_eq_false_iff_ne, decide_eq_false_iff_not, UInt8.le_iff_toNat_le,
    ne_eq, ← UInt8.toNat_inj, Bool.not_eq_false', Bool.or_eq_true, beq_iff_eq]
  simp at opens ⊢
  omega

/-- A separator opens no token: it is no digit, no sign, no point, no blank, and opens no name. -/
theorem separatorAllowed_opens_nothing {b : UInt8} (h : separatorAllowed b = true) :
    Token.isDigit b = false ∧ Token.opensName b = false ∧ b ≠ 0x2B ∧ b ≠ 0x2D ∧ b ≠ 0x2E ∧
      Token.isBlank b = false := by
  simp only [separatorAllowed, isAsciiPunctuation, Bool.and_eq_true, Bool.or_eq_true,
    decide_eq_true_eq, Bool.not_eq_true', Bool.or_eq_false_iff, beq_eq_false_iff_ne,
    UInt8.le_iff_toNat_le, ne_eq, ← UInt8.toNat_inj] at h
  simp only [Token.isDigit, Token.opensName, Token.isLetter, Token.isBlank, Bool.and_eq_false_iff,
    Bool.or_eq_false_iff, beq_eq_false_iff_ne, decide_eq_false_iff_not, UInt8.le_iff_toNat_le,
    ne_eq, ← UInt8.toNat_inj]
  simp at h ⊢
  omega

/-- The first byte of a plain numeral opens an item. -/
theorem PlainNumeral.opens {t : List UInt8} (plain : PlainNumeral t) :
    ∃ b rest, t = b :: rest ∧ OpensItem b := by
  obtain ⟨sign, whole, fraction, rfl, signed, ⟨nonempty, digits⟩, -⟩ := plain
  obtain ⟨w, ws, rfl⟩ := List.exists_cons_of_ne_nil nonempty
  rcases signed with rfl | rfl
  · exact ⟨w, ws ++ fraction, by simp, opensItem_of_isDigit (digits w (by simp))⟩
  · exact ⟨0x2D, w :: (ws ++ fraction), by simp, opensItem_hyphen⟩

/-- The first byte of a whole identifier opens an item. -/
theorem opensItem_of_whole {name : String} (whole : Token.isWholeIdentifier name = true) :
    ∃ b rest, name.toUTF8.toList = b :: rest ∧ OpensItem b := by
  simp only [Token.isWholeIdentifier, Bool.and_eq_true, Bool.not_eq_true',
    beq_iff_eq] at whole
  obtain ⟨nonempty, span⟩ := whole
  cases bytes : name.toUTF8.toList with
  | nil => rw [bytes] at nonempty; cases nonempty
  | cons b rest =>
    refine ⟨b, rest, rfl, ?_⟩
    rw [bytes] at span
    by_cases hyphen : (b == 0x2D) = true
    · simp only [beq_iff_eq] at hyphen
      subst hyphen
      exact opensItem_hyphen
    · apply opensItem_of_opensName
      cases opens : Token.opensName b
      · simp [Token.identifierSpan, hyphen, opens] at span
      · rfl

namespace Token

theorem numberSpan_of_separator {bytes : List UInt8}
    (h : ∀ b ∈ bytes.head?, separatorAllowed b = true) : numberSpan bytes = none := by
  cases bytes with
  | nil => rfl
  | cons b more =>
    obtain ⟨digit, -, plus, minus, point, -⟩ := separatorAllowed_opens_nothing (h b (by simp))
    have notSign : (b == 0x2B || b == 0x2D) = false := by simp [plus, minus]
    simp [numberSpan, signLen, notSign, digitRun, digit, fractionLen, point]

theorem identifierSpan_of_separator {bytes : List UInt8}
    (h : ∀ b ∈ bytes.head?, separatorAllowed b = true) : identifierSpan bytes = 0 := by
  cases bytes with
  | nil => rfl
  | cons b more =>
    obtain ⟨-, opens, -, minus, -, -⟩ := separatorAllowed_opens_nothing (h b (by simp))
    simp [identifierSpan, minus, opens]

theorem numberSpan_pos {bytes : List UInt8} {len : Nat} (h : numberSpan bytes = some len) :
    0 < len := by
  simp only [numberSpan] at h
  split at h
  · cases h
  · cases h
    omega

end Token

/-! ### Numbers of values -/

/-- The text of a number is read as the same number. -/
def Binary64.ReadsBack (x : Binary64) : Prop :=
  (Decimal.ofToken x.render.toUTF8.toList).toBinary64? = some x

instance Binary64.decidableReadsBack (x : Binary64) : Decidable x.ReadsBack :=
  inferInstanceAs (Decidable (_ = _))

namespace Value

mutual

/-- The numbers a value holds, those of its numbers, lengths and percentages, at any depth. -/
def numbers : Value → List Binary64
  | number x => [x]
  | integer _ => []
  | length x _ => [x]
  | percentage x => [x]
  | ident _ => []
  | symbol _ => []
  | tuple items => itemNumbers items
  | periodic slots => itemNumbers slots
  | list items _ => itemNumbers items
  | optional value => optionNumbers value

/-- The numbers that items hold. -/
def itemNumbers : List Value → List Binary64
  | [] => []
  | v :: vs => numbers v ++ itemNumbers vs

/-- The numbers that an optional value holds. -/
def optionNumbers : Option Value → List Binary64
  | none => []
  | some v => numbers v

end

theorem mem_itemNumbers {items : List Value} {v : Value} (mem : v ∈ items) {x : Binary64}
    (found : x ∈ v.numbers) : x ∈ itemNumbers items := by
  induction items with
  | nil => cases mem
  | cons w more ih =>
    simp only [itemNumbers, List.mem_append]
    rcases List.mem_cons.1 mem with rfl | later
    · exact .inl found
    · exact .inr (ih later)

end Value

namespace Cursor

/-- The text of a number that reads back is taken as that number. -/
theorem takeNumber?_written {c : Cursor} {x : Binary64} {after : List UInt8}
    (split : c.rest = x.render.toUTF8.toList ++ after) (reads : x.ReadsBack)
    (ends : EndsNumber after) : ∃ next, c.takeNumber? = some (x, next) ∧ next.rest = after := by
  obtain ⟨next, taken, rest⟩ := c.takeNumberToken?_plain split x.render_plain ends
  refine ⟨next, ?_, rest⟩
  unfold Binary64.ReadsBack at reads
  simp only [takeNumber?, taken, reads, Option.map_some]

theorem pos_lt_of_takeNumberToken? {c next : Cursor} {token : List UInt8}
    (h : c.takeNumberToken? = some (token, next)) : c.pos < next.pos := by
  unfold takeNumberToken? at h
  split at h
  · rename_i len found
    cases h
    have := Token.numberSpan_pos found
    simp only [pos_forward]
    omega
  · cases h

theorem pos_lt_of_takeNumber? {c next : Cursor} {x : Binary64}
    (h : c.takeNumber? = some (x, next)) : c.pos < next.pos := by
  unfold takeNumber? at h
  split at h
  · rename_i token found taken
    obtain ⟨y, -, same⟩ := Option.map_eq_some_iff.1 h
    cases same
    exact pos_lt_of_takeNumberToken? taken
  · cases h

theorem pos_lt_of_takeIdentifier? {c next : Cursor} {name : String}
    (h : c.takeIdentifier? = some (name, next)) : c.pos < next.pos := by
  have span := identifierSpan_pos_of_takeIdentifier? h
  rw [takeIdentifier?_eq] at h
  obtain ⟨found, -, same⟩ := Option.map_eq_some_iff.1 h
  cases same
  simp only [pos_forward]
  omega

theorem takeNumberToken?_of_separator {c : Cursor}
    (h : ∀ b ∈ c.rest.head?, separatorAllowed b = true) : c.takeNumberToken? = none := by
  unfold takeNumberToken?
  split
  · rename_i len found
    rw [Token.numberSpan_of_separator h] at found
    cases found
  · rfl

theorem takeIdentifier?_of_separator {c : Cursor}
    (h : ∀ b ∈ c.rest.head?, separatorAllowed b = true) : c.takeIdentifier? = none := by
  rw [takeIdentifier?_eq]
  simp [identifierText, Token.identifierSpan_of_separator h, Except.toOption]

end Cursor

/-! ### Units -/

namespace LengthUnit

/-- Every unit is read back from its own name. -/
theorem named?_name (unit : LengthUnit) : named? unit.name = some unit := by
  cases unit <;> decide +kernel

/-- A unit's name is a run of ASCII letters. -/
theorem name_letters (unit : LengthUnit) :
    unit.name.toUTF8.toList ≠ [] ∧ ∀ b ∈ unit.name.toUTF8.toList, Token.isLetter b = true := by
  have chars : unit.name.toList ≠ [] ∧ (unit.name.toList.all fun ch =>
      decide (ch.toNat < 0x80) && Token.isLetter ch.toUInt8) = true := by
    cases unit <;> decide
  have each := List.all_eq_true.1 chars.2
  have ascii : ∀ ch ∈ unit.name.toList, ch.toNat < 0x80 := fun ch mem => by
    have := each ch mem
    simp only [Bool.and_eq_true, decide_eq_true_eq] at this
    exact this.1
  have bytes : unit.name.toUTF8.toList = unit.name.toList.map Char.toUInt8 := by
    rw [← toUTF8_toList_ofList_ascii ascii, String.ofList_toList]
  rw [bytes]
  refine ⟨by simpa using chars.1, fun b mem => ?_⟩
  obtain ⟨ch, inName, rfl⟩ := List.mem_map.1 mem
  have := each ch inName
  simp only [Bool.and_eq_true] at this
  exact this.2

end LengthUnit

theorem Token.isLetter_not_numeric {b : UInt8} (letter : Token.isLetter b = true) :
    Token.isDigit b = false ∧ b ≠ 0x2E ∧ b ≠ 0x2B ∧ b ≠ 0x2D := by
  simp only [Token.isLetter, Bool.or_eq_true, Bool.and_eq_true, decide_eq_true_eq,
    UInt8.le_iff_toNat_le] at letter
  simp only [Token.isDigit, Bool.and_eq_false_iff, decide_eq_false_iff_not, UInt8.le_iff_toNat_le,
    ne_eq, ← UInt8.toNat_inj]
  simp at letter ⊢
  omega

/-! ### Leaves -/

namespace Leaf

/-- The values a leaf reads: its own kind of token, and for an identifier a whole identifier. -/
def Produces : Leaf → Value → Prop
  | number, v => ∃ x, v = .number x
  | integer, v => ∃ n, v = .integer n
  | length, v => ∃ x unit, v = .length x unit
  | percentage, v => ∃ x, v = .percentage x
  | identifier, v => ∃ name, v = .ident name ∧ Token.isWholeIdentifier name = true

/-- Every value a leaf reads has the leaf's shape. -/
theorem read_produces {kind : Leaf} {c next : Cursor} {v : Value}
    (h : kind.read c = (some v, next)) : kind.Produces v := by
  cases kind with
  | number =>
    simp only [read] at h
    split at h
    · split at h
      · cases h
      · cases h
        exact ⟨_, rfl⟩
    · cases h
  | integer =>
    simp only [read] at h
    split at h
    · split at h
      · cases h
      · split at h
        · split at h
          · cases h
          · cases h
            exact ⟨_, rfl⟩
        · cases h
    · cases h
  | length =>
    simp only [read] at h
    split at h
    · split at h
      · split at h
        · cases h
          exact ⟨_, _, rfl⟩
        · cases h
      · split at h
        · cases h
          exact ⟨_, _, rfl⟩
        · cases h
    · cases h
  | percentage =>
    simp only [read] at h
    split at h
    · split at h
      · cases h
        exact ⟨_, rfl⟩
      · cases h
    · cases h
  | identifier =>
    simp only [read] at h
    split at h
    · rename_i name taken found
      cases h
      exact ⟨name, rfl, Cursor.isWholeIdentifier_of_takeIdentifier? found⟩
    · cases h

variable {c : Cursor} {after : List UInt8}

theorem read_number_written {x : Binary64} (reads : x.ReadsBack)
    (split : c.rest = x.render.toUTF8.toList ++ after) (delimits : Delimits after) :
    ∃ next, number.read c = (some (.number x), next) ∧ next.rest = after := by
  obtain ⟨next, taken, rest⟩ := c.takeNumber?_written split reads delimits.endsNumber
  have alone : next.atDimension = false := Cursor.atDimension_eq_false (by rw [rest]; exact delimits)
  exact ⟨next, by simp only [read, taken, alone, Bool.false_eq_true, if_false], rest⟩

theorem read_integer_written {n : Int32}
    (split : c.rest = (toString n.toInt).toUTF8.toList ++ after) (delimits : Delimits after) :
    ∃ next, integer.read c = (some (.integer n), next) ∧ next.rest = after := by
  obtain ⟨next, taken, rest⟩ :=
    c.takeNumberToken?_plain split (integer_plain _) delimits.endsNumber
  have alone : next.atDimension = false := Cursor.atDimension_eq_false (by rw [rest]; exact delimits)
  refine ⟨next, ?_, rest⟩
  simp only [read, taken, integer_text_whole, integerOfToken?_toString, alone, Bool.false_eq_true,
    if_false]

theorem read_length_written {x : Binary64} {unit : LengthUnit} (reads : x.ReadsBack)
    (split : c.rest = (x.render ++ unit.name).toUTF8.toList ++ after) (delimits : Delimits after) :
    ∃ next, length.read c = (some (.length x unit), next) ∧ next.rest = after := by
  obtain ⟨nonempty, letters⟩ := unit.name_letters
  obtain ⟨u, us, bytes⟩ := List.exists_cons_of_ne_nil nonempty
  -- the unit's letters continue no number, not even as an exponent
  have ends : EndsNumber (unit.name.toUTF8.toList ++ after) := by
    have first := Token.isLetter_not_numeric (letters u (by rw [bytes]; simp))
    rw [bytes, List.cons_append]
    refine ⟨fun b mem => ?_, Token.exponentLen_cons u fun b mem => ?_⟩
    · simp only [List.head?_cons, Option.mem_def, Option.some.injEq] at mem
      subst mem
      exact ⟨first.1, first.2.1⟩
    · cases us with
      | nil => exact delimits.unsigned b (by simpa using mem)
      | cons v vs =>
        simp only [List.cons_append, List.head?_cons, Option.mem_def, Option.some.injEq] at mem
        subst mem
        have := Token.isLetter_not_numeric (letters v (by rw [bytes]; simp))
        exact ⟨this.1, this.2.2⟩
  obtain ⟨next, taken, rest⟩ := c.takeNumber?_written
    (by rw [split, toUTF8_toList_append, List.append_assoc]) reads ends
  obtain ⟨name, nameBytes, named⟩ := next.takeIdentifier?_letters rest nonempty letters
    delimits.stopsName
  obtain rfl : name = unit.name := toUTF8_toList_inj.1 nameBytes
  have fits : unit.name.toUTF8.toList.length ≤ next.rest.length := by
    rw [rest, List.length_append]
    exact Nat.le_add_right _ _
  refine ⟨next.forward unit.name.toUTF8.toList.length fits, ?_, ?_⟩
  · simp only [read, taken, named, LengthUnit.named?_name]
  · rw [Cursor.rest_forward, rest, List.drop_left]

theorem read_percentage_written {x : Binary64} (reads : x.ReadsBack)
    (split : c.rest = (x.render ++ "%").toUTF8.toList ++ after) (delimits : Delimits after) :
    ∃ next, percentage.read c = (some (.percentage x), next) ∧ next.rest = after := by
  have percent : "%".toUTF8.toList = [0x25] := by
    rw [toUTF8_toList, show "%".toList = ['%'] by rfl]
    rfl
  have ends : EndsNumber (0x25 :: after) := by
    refine ⟨fun b mem => ?_, Token.exponentLen_cons 0x25 delimits.unsigned⟩
    simp only [List.head?_cons, Option.mem_def, Option.some.injEq] at mem
    subst mem
    decide
  obtain ⟨next, taken, rest⟩ := c.takeNumber?_written
    (by rw [split, toUTF8_toList_append, percent, List.append_assoc, List.singleton_append]) reads
    ends
  obtain ⟨last, took, lastRest⟩ := next.takeByte?_cons rest
  exact ⟨last, by simp only [read, taken, took], lastRest⟩

theorem read_identifier_written {name : String} (whole : Token.isWholeIdentifier name = true)
    (split : c.rest = name.toUTF8.toList ++ after) (delimits : Delimits after) :
    ∃ next, identifier.read c = (some (.ident name), next) ∧ next.rest = after := by
  obtain ⟨next, taken, rest⟩ := c.takeIdentifier?_whole split whole delimits.stopsName
  exact ⟨next, by simp only [read, taken], rest⟩

/-- A leaf reads the text of every value of its shape back to the value, when a delimiter
follows the text and the value's numbers read back. -/
theorem read_written {kind : Leaf} {v : Value} {text : String} (shape : kind.Produces v)
    (numbers : ∀ x ∈ v.numbers, x.ReadsBack) (rendered : v.render? = some text)
    (split : c.rest = text.toUTF8.toList ++ after) (delimits : Delimits after) :
    ∃ next, kind.read c = (some v, next) ∧ next.rest = after := by
  cases kind with
  | number =>
    obtain ⟨x, rfl⟩ := shape
    obtain rfl : x.render = text := Option.some.inj rendered
    exact read_number_written (numbers x (by simp [Value.numbers])) split delimits
  | integer =>
    obtain ⟨n, rfl⟩ := shape
    obtain rfl : toString n.toInt = text := Option.some.inj rendered
    exact read_integer_written split delimits
  | length =>
    obtain ⟨x, unit, rfl⟩ := shape
    obtain rfl : x.render ++ unit.name = text := Option.some.inj rendered
    exact read_length_written (numbers x (by simp [Value.numbers])) split delimits
  | percentage =>
    obtain ⟨x, rfl⟩ := shape
    obtain rfl : x.render ++ "%" = text := Option.some.inj rendered
    exact read_percentage_written (numbers x (by simp [Value.numbers])) split delimits
  | identifier =>
    obtain ⟨name, rfl, whole⟩ := shape
    obtain rfl : name = text := Option.some.inj rendered
    exact read_identifier_written whole split delimits

/-- The text of a leaf's value opens an item. -/
theorem text_opens {kind : Leaf} {v : Value} {text : String} (shape : kind.Produces v)
    (rendered : v.render? = some text) :
    ∃ b rest, text.toUTF8.toList = b :: rest ∧ OpensItem b := by
  cases kind with
  | number =>
    obtain ⟨x, rfl⟩ := shape
    obtain rfl : x.render = text := Option.some.inj rendered
    exact x.render_plain.opens
  | integer =>
    obtain ⟨n, rfl⟩ := shape
    obtain rfl : toString n.toInt = text := Option.some.inj rendered
    exact (integer_plain _).opens
  | length =>
    obtain ⟨x, unit, rfl⟩ := shape
    obtain rfl : x.render ++ unit.name = text := Option.some.inj rendered
    obtain ⟨b, rest, bytes, opens⟩ := x.render_plain.opens
    exact ⟨b, rest ++ unit.name.toUTF8.toList, by rw [toUTF8_toList_append, bytes]; rfl, opens⟩
  | percentage =>
    obtain ⟨x, rfl⟩ := shape
    obtain rfl : x.render ++ "%" = text := Option.some.inj rendered
    obtain ⟨b, rest, bytes, opens⟩ := x.render_plain.opens
    exact ⟨b, rest ++ "%".toUTF8.toList, by rw [toUTF8_toList_append, bytes]; rfl, opens⟩
  | identifier =>
    obtain ⟨name, rfl, whole⟩ := shape
    obtain rfl : name = text := Option.some.inj rendered
    exact opensItem_of_whole whole

/-- No leaf reads at the end of the text, or where a separator stands. -/
theorem read_none (kind : Leaf) {c : Cursor} (h : ∀ b ∈ c.rest.head?, separatorAllowed b = true) :
    (kind.read c).1 = none := by
  have noNumber : c.takeNumber? = none := by
    simp [Cursor.takeNumber?, Cursor.takeNumberToken?_of_separator h]
  cases kind <;>
    simp [read, noNumber, Cursor.takeNumberToken?_of_separator h,
      Cursor.takeIdentifier?_of_separator h]

/-- A leaf that reads moves the cursor forward. -/
theorem read_advances {kind : Leaf} {c next : Cursor} {v : Value}
    (h : kind.read c = (some v, next)) : c.pos < next.pos := by
  cases kind with
  | number =>
    simp only [read] at h
    split at h
    · rename_i x after taken
      split at h
      · cases h
      · cases h
        exact Cursor.pos_lt_of_takeNumber? taken
    · cases h
  | integer =>
    simp only [read] at h
    split at h
    · rename_i token after taken
      split at h
      · cases h
      · split at h
        · split at h
          · cases h
          · cases h
            exact Cursor.pos_lt_of_takeNumberToken? taken
        · cases h
    · cases h
  | length =>
    simp only [read] at h
    split at h
    · rename_i x after taken
      have moved := Cursor.pos_lt_of_takeNumber? taken
      split at h
      · rename_i name unitEnd named
        split at h
        · cases h
          have := (Cursor.ahead_of_takeIdentifier? named).2
          omega
        · cases h
      · split at h
        · cases h
          exact moved
        · cases h
    · cases h
  | percentage =>
    simp only [read] at h
    split at h
    · rename_i x after taken
      split at h
      · rename_i last took
        cases h
        have := (Cursor.ahead_of_takeByte? took).2
        have := Cursor.pos_lt_of_takeNumber? taken
        omega
      · cases h
    · cases h
  | identifier =>
    simp only [read] at h
    split at h
    · rename_i name after taken
      cases h
      exact Cursor.pos_lt_of_takeIdentifier? taken
    · cases h

end Leaf

/-! ### Keyword tables -/

namespace KeywordTable

/-- Every constant of the table is written as a spelling of its own key. -/
def SelfSpelled (table : KeywordTable) : Prop :=
  ∀ entry ∈ table.entries, ∃ text, entry.2.render? = some text ∧
    table.policy.canonical text = entry.1

/-- The value is written as a whole identifier that the table maps to the value. -/
def Spells (table : KeywordTable) (v : Value) : Prop :=
  ∃ text, v.render? = some text ∧ Token.isWholeIdentifier text = true ∧
    table.lookup? text = some v

theorem lookup?_congr (table : KeywordTable) {a b : String}
    (same : table.policy.canonical a = table.policy.canonical b) :
    table.lookup? a = table.lookup? b := by
  simp only [lookup?, same]

theorem lookup?_eq_some {table : KeywordTable} {name : String} {v : Value}
    (h : table.lookup? name = some v) :
    ∃ entry ∈ table.entries, entry.1 = table.policy.canonical name ∧ entry.2 = v := by
  unfold lookup? at h
  obtain ⟨entry, found, rfl⟩ := Option.map_eq_some_iff.1 h
  exact ⟨entry, List.mem_of_find?_eq_some found, by simpa using List.find?_some found, rfl⟩

/-- A table whose constants spell their keys reads only constants that spell themselves. -/
theorem read_spells {table : KeywordTable} (self : table.SelfSpelled) {c next : Cursor}
    {v : Value} (h : table.read c = (some v, next)) : table.Spells v := by
  unfold read at h
  split at h
  · rename_i name after taken
    split at h
    · rename_i value looked
      cases h
      obtain ⟨entry, mem, key, rfl⟩ := lookup?_eq_some looked
      obtain ⟨text, rendered, spelled⟩ := self entry mem
      refine ⟨text, rendered, isWholeIdentifier_of_canonical (spelled.trans key)
        (Cursor.isWholeIdentifier_of_takeIdentifier? taken), ?_⟩
      rw [lookup?_congr table (spelled.trans key), looked]
    · cases h
  · cases h

/-- A table reads the text of a constant that spells itself back to the constant. -/
theorem read_written {table : KeywordTable} {v : Value} {text : String} {c : Cursor}
    {after : List UInt8} (spells : table.Spells v) (rendered : v.render? = some text)
    (split : c.rest = text.toUTF8.toList ++ after) (delimits : Delimits after) :
    ∃ next, table.read c = (some v, next) ∧ next.rest = after := by
  obtain ⟨spelled, rendered', whole, looked⟩ := spells
  obtain rfl : spelled = text := Option.some.inj (rendered'.symm.trans rendered)
  obtain ⟨next, taken, rest⟩ := c.takeIdentifier?_whole split whole delimits.stopsName
  exact ⟨next, by simp only [read, taken, looked], rest⟩

theorem text_opens {table : KeywordTable} {v : Value} {text : String} (spells : table.Spells v)
    (rendered : v.render? = some text) :
    ∃ b rest, text.toUTF8.toList = b :: rest ∧ OpensItem b := by
  obtain ⟨spelled, rendered', whole, -⟩ := spells
  obtain rfl : spelled = text := Option.some.inj (rendered'.symm.trans rendered)
  exact opensItem_of_whole whole

theorem read_none (table : KeywordTable) {c : Cursor}
    (h : ∀ b ∈ c.rest.head?, separatorAllowed b = true) : (table.read c).1 = none := by
  simp [read, Cursor.takeIdentifier?_of_separator h]

theorem read_advances {table : KeywordTable} {c next : Cursor} {v : Value}
    (h : table.read c = (some v, next)) : c.pos < next.pos := by
  unfold read at h
  split at h
  · rename_i name after taken
    split at h
    · cases h
      exact Cursor.pos_lt_of_takeIdentifier? taken
    · cases h
  · cases h

end KeywordTable

end StyleGrammar
