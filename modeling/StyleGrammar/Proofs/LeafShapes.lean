import StyleGrammar.Proofs.ExactIntegers
import StyleGrammar.Proofs.LeafText
import StyleGrammar.Proofs.Boundary

/-!
**The leaf readers recognise disjoint token shapes.**

Every numeric leaf starts by taking a number token, so none of them reads where an identifier
opens; a percentage leaves a `%` after its number, which every other numeric leaf refuses. The
number and length leaves overlap only on a zero that nothing follows, read as `0px` by the
length leaf, and the integer leaf reads exactly the numbers without point or exponent that fit
in 32 bits, whose binary64 reading is exact.

* `Token.numberSpan_eq_none_of_identifierSpan`: no number token opens where an identifier does;
* `Token.sign_digits_of_numberSpan`: a number token without point or exponent mark is a sign
  followed by digits;
* `Token.whole_value`: such a token's decimal value, its 32-bit reading and its binary64 reading
  agree;
* `Leaf.number_read_eq_some` and the lemmas after it: what each leaf reads, one lemma per
  leaf;
* `Leaf.read_shapes_disjoint`: the five leaves' shapes side by side.
-/

namespace StyleGrammar

/-! ### Number tokens -/

namespace Token

/-- No byte that opens a name is a digit, a sign or a point. -/
theorem opensName_not_numeric {b : UInt8} (opens : opensName b = true) :
    isDigit b = false ∧ b ≠ 0x2E ∧ b ≠ 0x2B ∧ b ≠ 0x2D := by
  simp only [opensName, Bool.or_eq_true, beq_iff_eq, decide_eq_true_eq] at opens
  rcases opens with (letter | rfl) | high
  · obtain ⟨notDigit, notPoint, notPlus, notMinus⟩ := isLetter_not_numeric letter
    exact ⟨notDigit, notPoint, notPlus, notMinus⟩
  · decide
  · rw [UInt8.le_iff_toNat_le] at high
    simp only [isDigit, Bool.and_eq_false_iff, decide_eq_false_iff_not, UInt8.le_iff_toNat_le,
      ne_eq, ← UInt8.toNat_inj]
    simp at high ⊢
    omega

/-- A number token needs a digit or a point right after its optional sign. -/
theorem numberSpan_eq_none_of_body {bytes more : List UInt8} {b : UInt8}
    (body : bytes.drop (signLen bytes) = b :: more) (notDigit : isDigit b = false)
    (notPoint : b ≠ 0x2E) : numberSpan bytes = none := by
  have whole : digitRun (b :: more) = 0 := by simp [digitRun, notDigit]
  have fraction : fractionLen (b :: more) = 0 := by simp [fractionLen, notPoint]
  simp [numberSpan, body, whole, fraction]

/-- No number token opens where an identifier token does: an identifier opens with a name
start, or with a hyphen followed by a hyphen or a name start, and none of these is a digit or a
point. -/
theorem numberSpan_eq_none_of_identifierSpan {bytes : List UInt8}
    (opens : identifierSpan bytes ≠ 0) : numberSpan bytes = none := by
  cases bytes with
  | nil => simp [identifierSpan] at opens
  | cons b rest =>
    by_cases hyphen : b = 0x2D
    · subst hyphen
      cases rest with
      | nil => simp [identifierSpan] at opens
      | cons c more =>
        have next : c = 0x2D ∨ opensName c = true := by
          by_contra neither
          simp only [not_or, Bool.not_eq_true] at neither
          simp [identifierSpan, neither.1, neither.2] at opens
        have signed : signLen (0x2D :: c :: more) = 1 := rfl
        refine numberSpan_eq_none_of_body (by rw [signed]; rfl) ?_ ?_
        · rcases next with rfl | opener
          · decide
          · exact (opensName_not_numeric opener).1
        · rcases next with rfl | opener
          · decide
          · exact (opensName_not_numeric opener).2.1
    · have opener : opensName b = true := by
        by_contra closed
        simp [identifierSpan, hyphen, closed] at opens
      obtain ⟨notDigit, notPoint, notPlus, notMinus⟩ := opensName_not_numeric opener
      have unsigned : signLen (b :: rest) = 0 := by simp [signLen, notPlus, notMinus]
      exact numberSpan_eq_none_of_body (by rw [unsigned]; rfl) notDigit notPoint

/-- The optional sign that opens a number token. -/
theorem take_signLen (bytes : List UInt8) :
    bytes.take (signLen bytes) = [] ∨ bytes.take (signLen bytes) = [0x2B] ∨
      bytes.take (signLen bytes) = [0x2D] := by
  cases bytes with
  | nil => simp [signLen]
  | cons b rest =>
    by_cases plus : b = 0x2B
    · subst plus
      simp [signLen]
    · by_cases minus : b = 0x2D
      · subst minus
        simp [signLen]
      · simp [signLen, plus, minus]

/-- A byte found at a position before `len` is among the first `len` bytes. -/
theorem mem_take_of_drop {bytes rest : List UInt8} {i len : Nat} {m : UInt8}
    (found : bytes.drop i = m :: rest) (before : i < len) : m ∈ bytes.take len := by
  obtain ⟨k, rfl⟩ : ∃ k, len = i + (k + 1) := ⟨len - i - 1, by omega⟩
  rw [List.take_add, found, List.take_succ_cons]
  simp

/-- A fraction opens with a point. -/
theorem point_of_fractionLen {bytes : List UInt8} (present : fractionLen bytes ≠ 0) :
    ∃ more, bytes = 0x2E :: more := by
  cases bytes with
  | nil => simp [fractionLen] at present
  | cons b more =>
    by_cases point : b = 0x2E
    · exact ⟨more, by rw [point]⟩
    · simp [fractionLen, point] at present

/-- An exponent opens with `e` or `E`. -/
theorem mark_of_exponentLen {bytes : List UInt8} (present : exponentLen bytes ≠ 0) :
    ∃ m more, bytes = m :: more ∧ isFractionMark m = true := by
  cases bytes with
  | nil => simp [exponentLen] at present
  | cons b more =>
    by_cases mark : b = 0x65 ∨ b = 0x45
    · refine ⟨b, more, rfl, ?_⟩
      rcases mark with rfl | rfl <;> decide
    · simp only [not_or] at mark
      simp [exponentLen, mark] at present

/-- **A number token without point or exponent mark is a sign and digits**: its fraction and
exponent parts are empty, since each would open with a mark inside the token. -/
theorem sign_digits_of_numberSpan {bytes : List UInt8} {len : Nat}
    (span : numberSpan bytes = some len) (whole : (bytes.take len).any isFractionMark = false) :
    ∃ sign digits, bytes.take len = sign ++ digits ∧
      (sign = [] ∨ sign = [0x2B] ∨ sign = [0x2D]) ∧ DigitRun digits := by
  have noMark : ∀ m ∈ bytes.take len, isFractionMark m = false := by
    simpa using whole
  simp only [numberSpan, List.drop_drop] at span
  generalize signs : signLen bytes = sign at span
  generalize runs : digitRun (bytes.drop sign) = run at span
  split at span
  · cases span
  · rename_i some
    cases span
    have noFraction : fractionLen (bytes.drop (sign + run)) = 0 := by
      apply Classical.byContradiction
      intro present
      obtain ⟨more, found⟩ := point_of_fractionLen present
      have := noMark 0x2E (mem_take_of_drop found (by omega))
      simp [isFractionMark] at this
    have noExponent : exponentLen (bytes.drop (sign + run)) = 0 := by
      apply Classical.byContradiction
      intro present
      obtain ⟨m, more, found, mark⟩ := mark_of_exponentLen present
      have := noMark m (mem_take_of_drop found (by rw [noFraction, Nat.add_zero]; omega))
      rw [mark] at this
      cases this
    simp only [noFraction, Nat.add_zero, noExponent] at some ⊢
    rw [List.take_add]
    have digitsRun : (bytes.drop sign).take run = (bytes.drop sign).takeWhile isDigit := by
      rw [← runs]
      exact (List.prefix_iff_eq_take.1 (List.takeWhile_prefix isDigit)).symm
    refine ⟨_, _, rfl, ?_, ⟨?_, ?_⟩⟩
    · rw [← signs]
      exact take_signLen bytes
    · rw [digitsRun]
      intro empty
      have : digitRun (bytes.drop sign) = 0 := by simp [digitRun, empty]
      omega
    · rw [digitsRun]
      intro b mem
      exact List.mem_takeWhile_imp mem

/-- A sign followed by digits has that sign as its sign part. -/
theorem signLen_sign_digits {sign digits : List UInt8}
    (signed : sign = [] ∨ sign = [0x2B] ∨ sign = [0x2D]) (run : DigitRun digits) :
    signLen (sign ++ digits) = sign.length := by
  obtain ⟨d, more, rfl⟩ := List.exists_cons_of_ne_nil run.1
  rcases signed with rfl | rfl | rfl
  · have digit := run.2 d (by simp)
    have notSign : ¬ (d == 0x2B || d == 0x2D) = true := by
      intro signByte
      simp only [Bool.or_eq_true, beq_iff_eq] at signByte
      rcases signByte with rfl | rfl <;> simp [isDigit] at digit
    simp [signLen, notSign]
  · rfl
  · rfl

end Token

/-! ### The value of a whole number token -/

/-- The decimal a sign and digits write: the sign, the digits' value, no exponent. -/
theorem Decimal.ofToken_sign_digits {sign digits : List UInt8}
    (signed : sign = [] ∨ sign = [0x2B] ∨ sign = [0x2D]) (run : DigitRun digits) :
    Decimal.ofToken (sign ++ digits) =
      ⟨(sign ++ digits).head? == some 0x2D, Token.digitsValue digits, 0⟩ := by
  have body : (sign ++ digits).drop (Token.signLen (sign ++ digits)) = digits := by
    rw [Token.signLen_sign_digits signed run]
    exact List.drop_left
  have whole : Token.digitRun digits = digits.length := by
    simpa [Token.digitRun] using digitRun_append run.2 []
  simp [Decimal.ofToken, body, whole, Token.fractionLen, Token.exponentLen]

/-- The 32-bit reading of a sign and digits: the signed value of the digits, when it fits. -/
theorem integerOfToken?_sign_digits {sign digits : List UInt8}
    (signed : sign = [] ∨ sign = [0x2B] ∨ sign = [0x2D]) (run : DigitRun digits) :
    integerOfToken? (sign ++ digits) =
      let value : Int :=
        if (sign ++ digits).head? == some 0x2D then -(Token.digitsValue digits : Int)
        else Token.digitsValue digits
      if -2147483648 ≤ value ∧ value < 2147483648 then some (Int32.ofInt value) else none := by
  simp only [integerOfToken?, Token.signLen_sign_digits signed run, List.drop_left]

/-- **A number token without point or exponent mark is a whole number, read exactly.** Its
decimal has an integer value; its 32-bit reading is that value exactly when the value fits in
32 bits; and a value that fits reads as a binary64 number of the same value. -/
theorem Token.whole_value {bytes : List UInt8} {len : Nat}
    (span : Token.numberSpan bytes = some len)
    (whole : (bytes.take len).any isFractionMark = false) :
    ∃ value : Int, (Decimal.ofToken (bytes.take len)).toRat = value ∧
      integerOfToken? (bytes.take len) =
        (if -2147483648 ≤ value ∧ value < 2147483648 then some (Int32.ofInt value)
          else none) ∧
      (-2147483648 ≤ value → value < 2147483648 →
        ∃ x, (Decimal.ofToken (bytes.take len)).toBinary64? = some x ∧ x.toRat = value) := by
  obtain ⟨sign, digits, token, signed, run⟩ := Token.sign_digits_of_numberSpan span whole
  rw [token, Decimal.ofToken_sign_digits signed run, integerOfToken?_sign_digits signed run]
  generalize signBit : ((sign ++ digits).head? == some 0x2D) = negative
  refine ⟨if negative then -(Token.digitsValue digits : Int) else Token.digitsValue digits,
    ?_, rfl, ?_⟩
  · cases negative <;> simp [Decimal.toRat]
  · intro low high
    -- a value within 32 bits is far below the 53 bits a binary64 holds exactly
    have small : Token.digitsValue digits < 2 ^ 53 := by
      cases negative <;> simp at low high <;> omega
    obtain ⟨x, found, value⟩ := Decimal.toBinary64?_whole negative small
    refine ⟨x, found, ?_⟩
    rw [value]
    cases negative <;> simp [Decimal.toRat]

/-! ### What follows a token -/

namespace Cursor

theorem takeNumberToken?_span {c next : Cursor} {token : List UInt8}
    (taken : c.takeNumberToken? = some (token, next)) :
    ∃ len, Token.numberSpan c.rest = some len ∧ c.rest.take len = token := by
  unfold takeNumberToken? at taken
  split at taken
  · rename_i len span
    cases taken
    exact ⟨len, span, rfl⟩
  · cases taken

/-- A number is the nearest binary64 to the decimal of the number token, and the cursor moves
to the token's end. -/
theorem takeNumber?_eq_some_iff {c next : Cursor} {x : Binary64} :
    c.takeNumber? = some (x, next) ↔
      ∃ token, c.takeNumberToken? = some (token, next) ∧
        (Decimal.ofToken token).toBinary64? = some x := by
  unfold takeNumber?
  rcases taken : c.takeNumberToken? with _ | ⟨token, after⟩
  · simp
  · simp only [Option.map_eq_some_iff, Prod.mk.injEq, Option.some.injEq]
    constructor
    · rintro ⟨y, found, rfl, rfl⟩
      exact ⟨token, ⟨rfl, rfl⟩, found⟩
    · rintro ⟨token, ⟨rfl, rfl⟩, found⟩
      exact ⟨x, found, rfl, rfl⟩

/-- No number token opens where an identifier does. -/
theorem takeNumberToken?_of_identifierAhead {c : Cursor} (ahead : c.identifierAhead = true) :
    c.takeNumberToken? = none := by
  have span : Token.numberSpan c.rest = none :=
    Token.numberSpan_eq_none_of_identifierSpan (by simpa [identifierAhead] using ahead)
  unfold takeNumberToken?
  split
  · rename_i len found
    rw [span] at found
    cases found
  · rfl

theorem takeIdentifier?_of_identifierAhead {c : Cursor} (plain : c.identifierAhead = false) :
    c.takeIdentifier? = none := by
  rcases taken : c.takeIdentifier? with _ | ⟨name, next⟩
  · rfl
  · have opens := identifierSpan_pos_of_takeIdentifier? taken
    simp [identifierAhead] at plain
    omega

theorem byteHere_of_takeByte? {c d : Cursor} {b : UInt8} (taken : c.takeByte? b = some d) :
    c.byteHere = b := by
  obtain ⟨more, found⟩ := head_of_takeByte? taken
  simp [byteHere, found]

/-- No identifier opens with a percent sign. -/
theorem identifierAhead_of_percent {c : Cursor} (here : c.byteHere = 0x25) :
    c.identifierAhead = false := by
  rcases found : c.rest with _ | ⟨b, more⟩
  · simp [byteHere, found] at here
  · simp only [byteHere, found, List.headD_cons] at here
    subst here
    simp [identifierAhead, found, Token.identifierSpan, Token.opensName]
    decide

end Cursor

/-! ### What each leaf reads -/

namespace Leaf

theorem exists_of_isSome {result : Option Value × Cursor} (found : result.1.isSome) :
    ∃ v next, result = (some v, next) := by
  obtain ⟨_ | v, next⟩ := result
  · cases found
  · exact ⟨v, next, rfl⟩

/-- Where no number token opens, every numeric leaf fails. -/
theorem numeric_read_of_takeNumberToken? {c : Cursor} (missing : c.takeNumberToken? = none) :
    number.read c = (none, c) ∧ integer.read c = (none, c) ∧ length.read c = (none, c) ∧
      percentage.read c = (none, c) := by
  have noNumber : c.takeNumber? = none := by simp [Cursor.takeNumber?, missing]
  simp [read, noNumber, missing]

theorem number_read_of_takeNumber? {c next : Cursor} {x : Binary64}
    (taken : c.takeNumber? = some (x, next)) :
    number.read c = if next.atDimension then (none, c) else (some (.number x), next) := by
  simp only [read, taken]

/-- The number leaf reads a number that no dimension follows. -/
theorem number_read_eq_some {c next : Cursor} {v : Value} (found : number.read c = (some v, next)) :
    ∃ x, v = .number x ∧ c.takeNumber? = some (x, next) ∧ next.atDimension = false := by
  rcases taken : c.takeNumber? with _ | ⟨x, after⟩
  · simp [read, taken] at found
  · rw [number_read_of_takeNumber? taken] at found
    cases dimension : after.atDimension
    · simp only [dimension, Bool.false_eq_true, if_false, Prod.mk.injEq,
        Option.some.injEq] at found
      obtain ⟨rfl, rfl⟩ := found
      exact ⟨x, rfl, rfl, dimension⟩
    · simp [dimension] at found

/-- With no identifier after its number, the length leaf reads only a zero not followed by
`%`, as `0px`. -/
theorem length_read_of_plain {c next : Cursor} {x : Binary64}
    (taken : c.takeNumber? = some (x, next)) (plain : next.identifierAhead = false) :
    length.read c = if x.isZero && next.byteHere != 0x25 then
      (some (.length (Binary64.zero false) .px), next) else (none, c) := by
  simp only [read, taken, Cursor.takeIdentifier?_of_identifierAhead plain]

/-- The percentage leaf reads a number followed by `%`. -/
theorem percentage_read_eq_some {c after : Cursor} {v : Value}
    (found : percentage.read c = (some v, after)) :
    ∃ x next, c.takeNumber? = some (x, next) ∧ next.byteHere = 0x25 := by
  rcases taken : c.takeNumber? with _ | ⟨x, next⟩
  · simp [read, taken] at found
  · simp only [read, taken] at found
    rcases percent : next.takeByte? 0x25 with _ | d
    · simp [percent] at found
    · exact ⟨x, next, rfl, Cursor.byteHere_of_takeByte? percent⟩

theorem integer_read_of_atDimension {c next : Cursor} {token : List UInt8}
    (taken : c.takeNumberToken? = some (token, next)) (dimension : next.atDimension = true) :
    integer.read c = (none, c) := by
  simp only [read, taken, dimension]
  split
  · rfl
  · split <;> simp

/-- The integer leaf on a number token without point or exponent mark: it reads the token's
value when that fits in 32 bits and no dimension follows, and a value that fits is also the
value of the binary64 number that the token reads as. -/
theorem integer_read_whole {c next : Cursor} {token : List UInt8}
    (taken : c.takeNumberToken? = some (token, next)) (whole : token.any isFractionMark = false) :
    ∃ value : Int, (Decimal.ofToken token).toRat = value ∧
      integer.read c =
        (if (-2147483648 ≤ value ∧ value < 2147483648) ∧ next.atDimension = false then
          (some (.integer (Int32.ofInt value)), next) else (none, c)) ∧
      (-2147483648 ≤ value → value < 2147483648 →
        ∃ x, c.takeNumber? = some (x, next) ∧ x.toRat = value) := by
  obtain ⟨len, span, rfl⟩ := Cursor.takeNumberToken?_span taken
  obtain ⟨value, decimal, reading, exact⟩ := Token.whole_value span whole
  refine ⟨value, decimal, ?_, fun low high => ?_⟩
  · simp only [read, taken, whole, reading]
    by_cases fits : -2147483648 ≤ value ∧ value < 2147483648
    · cases next.atDimension <;> simp [fits]
    · simp [fits]
  · obtain ⟨x, found, value⟩ := exact low high
    exact ⟨x, Cursor.takeNumber?_eq_some_iff.2 ⟨_, taken, found⟩, value⟩

/-! ### The shapes side by side -/

/-- Where an identifier opens, no numeric leaf reads: no number token opens there. -/
theorem numeric_read_of_identifier {c : Cursor} (found : (identifier.read c).1.isSome) :
    (number.read c).1 = none ∧ (integer.read c).1 = none ∧ (length.read c).1 = none ∧
      (percentage.read c).1 = none := by
  obtain ⟨v, next, read⟩ := exists_of_isSome found
  have ahead : c.identifierAhead = true := by
    rcases taken : c.takeIdentifier? with _ | ⟨name, after⟩
    · simp [Leaf.read, taken] at read
    · have := Cursor.identifierSpan_pos_of_takeIdentifier? taken
      simp only [Cursor.identifierAhead, bne_iff_ne, ne_eq]
      omega
  obtain ⟨number, integer, length, percentage⟩ :=
    numeric_read_of_takeNumberToken? (Cursor.takeNumberToken?_of_identifierAhead ahead)
  simp [number, integer, length, percentage]

/-- After a percentage's number comes `%`, a dimension that the number and integer leaves refuse
and that is neither a unit nor nothing for the length leaf. -/
theorem numeric_read_of_percentage {c : Cursor} (found : (percentage.read c).1.isSome) :
    (number.read c).1 = none ∧ (integer.read c).1 = none ∧ (length.read c).1 = none := by
  obtain ⟨v, after, read⟩ := exists_of_isSome found
  obtain ⟨x, next, taken, percent⟩ := percentage_read_eq_some read
  have dimension : next.atDimension = true := by simp [Cursor.atDimension, percent]
  obtain ⟨token, tokenTaken, -⟩ := Cursor.takeNumber?_eq_some_iff.1 taken
  refine ⟨?_, ?_, ?_⟩
  · simp [number_read_of_takeNumber? taken, dimension]
  · simp [integer_read_of_atDimension tokenTaken dimension]
  · simp [length_read_of_plain taken (Cursor.identifierAhead_of_percent percent), percent]

/-- A zero that no dimension follows is read by the number leaf as itself and by the length
leaf as `0px`, both ending after it. -/
theorem number_and_length_of_zero {c next : Cursor} {x : Binary64}
    (taken : c.takeNumber? = some (x, next)) (zero : x.toRat = 0)
    (plain : next.identifierAhead = false) (notPercent : next.byteHere ≠ 0x25) :
    number.read c = (some (.number x), next) ∧
      length.read c = (some (.length (Binary64.zero false) .px), next) := by
  have dimension : next.atDimension = false := by
    simp [Cursor.atDimension, plain, notPercent]
  rw [Binary64.toRat_eq_zero_iff] at zero
  constructor
  · simp [number_read_of_takeNumber? taken, dimension]
  · simp [length_read_of_plain taken plain, zero, notPercent]

/-- The number and length leaves both read exactly at a number of value zero that neither an
identifier nor `%` follows: with no identifier after the number, the length leaf reads only a
zero. -/
theorem number_and_length_iff {c : Cursor} :
    (number.read c).1.isSome ∧ (length.read c).1.isSome ↔
      ∃ x next, c.takeNumber? = some (x, next) ∧ x.toRat = 0 ∧
        next.identifierAhead = false ∧ next.byteHere ≠ 0x25 := by
  constructor
  · rintro ⟨numberFound, lengthFound⟩
    obtain ⟨v, next, read⟩ := exists_of_isSome numberFound
    obtain ⟨x, -, taken, dimension⟩ := number_read_eq_some read
    simp only [Cursor.atDimension, Bool.or_eq_false_iff, beq_eq_false_iff_ne] at dimension
    obtain ⟨plain, notPercent⟩ := dimension
    have zero : x.isZero = true := by
      rw [length_read_of_plain taken plain] at lengthFound
      by_contra nonzero
      simp [nonzero] at lengthFound
    exact ⟨x, next, taken, (Binary64.toRat_eq_zero_iff x).2 zero, plain, notPercent⟩
  · rintro ⟨x, next, taken, zero, plain, notPercent⟩
    obtain ⟨number, length⟩ := number_and_length_of_zero taken zero plain notPercent
    simp [number, length]

/-- **What the integer leaf reads.** A number token without point or exponent mark whose value
fits in 32 bits and that no dimension follows; the number leaf reads the same token, ends at
the same place, and its number has the integer's value. -/
theorem integer_read_eq_some {c next : Cursor} {v : Value}
    (found : integer.read c = (some v, next)) :
    ∃ token n x, v = .integer n ∧ c.takeNumberToken? = some (token, next) ∧
      token.any isFractionMark = false ∧ (Decimal.ofToken token).toRat = n.toInt ∧
      number.read c = (some (.number x), next) ∧ x.toRat = n.toInt := by
  obtain ⟨token, after, taken, whole⟩ : ∃ token after,
      c.takeNumberToken? = some (token, after) ∧ token.any isFractionMark = false := by
    rcases taken : c.takeNumberToken? with _ | ⟨token, after⟩
    · simp [read, taken] at found
    · cases whole : token.any isFractionMark
      · exact ⟨token, after, rfl, whole⟩
      · simp [read, taken, whole] at found
  obtain ⟨value, decimal, reading, exact⟩ := integer_read_whole taken whole
  rw [reading] at found
  split at found
  · rename_i fits
    obtain ⟨⟨low, high⟩, dimension⟩ := fits
    simp only [Prod.mk.injEq, Option.some.injEq] at found
    obtain ⟨rfl, rfl⟩ := found
    have toInt : (Int32.ofInt value).toInt = value :=
      Int32.toInt_ofInt_of_le (by omega) (by omega)
    obtain ⟨x, number, numberValue⟩ := exact low high
    refine ⟨token, _, x, rfl, taken, whole, by rw [decimal, toInt], ?_,
      by rw [numberValue, toInt]⟩
    rw [number_read_of_takeNumber? number, dimension]
    rfl
  · simp at found

/-- The integer leaf reads where the number leaf reads a token without point or exponent mark
whose value fits in 32 bits. -/
theorem integer_read_of_number {c next : Cursor} {token : List UInt8} {x : Binary64}
    (taken : c.takeNumberToken? = some (token, next)) (whole : token.any isFractionMark = false)
    (found : number.read c = (some (.number x), next))
    (low : -2147483648 ≤ (Decimal.ofToken token).toRat)
    (high : (Decimal.ofToken token).toRat ≤ 2147483647) :
    (integer.read c).1.isSome := by
  obtain ⟨value, decimal, reading, -⟩ := integer_read_whole taken whole
  obtain ⟨-, -, -, dimension⟩ := number_read_eq_some found
  rw [decimal] at low high
  have fits : -2147483648 ≤ value ∧ value < 2147483648 := by
    constructor
    · exact_mod_cast low
    · have : value ≤ 2147483647 := by exact_mod_cast high
      omega
  simp [reading, fits, dimension]

/-- **The leaves recognise disjoint token shapes.** At every cursor: where the identifier leaf
reads, no numeric leaf does; where the percentage leaf reads, neither the number, the integer
nor the length leaf does; the number and length leaves both read exactly at a number of value
zero followed by neither an identifier nor `%`, and then both end after it, the length leaf
giving `0px`; and the integer leaf reads exactly where the number leaf reads a token without
point or exponent mark whose value lies in `[-2^31, 2^31 - 1]`, ending where it ends, the
number having the integer's value. -/
theorem read_shapes_disjoint (c : Cursor) :
    ((identifier.read c).1.isSome →
      (number.read c).1 = none ∧ (integer.read c).1 = none ∧
        (length.read c).1 = none ∧ (percentage.read c).1 = none) ∧
    ((percentage.read c).1.isSome →
      (number.read c).1 = none ∧ (integer.read c).1 = none ∧ (length.read c).1 = none) ∧
    ((number.read c).1.isSome ∧ (length.read c).1.isSome ↔
      ∃ x next, c.takeNumber? = some (x, next) ∧ x.toRat = 0 ∧
        next.identifierAhead = false ∧ next.byteHere ≠ 0x25) ∧
    (∀ x next, c.takeNumber? = some (x, next) → x.toRat = 0 →
      next.identifierAhead = false → next.byteHere ≠ 0x25 →
        number.read c = (some (.number x), next) ∧
        length.read c = (some (.length (Binary64.zero false) .px), next)) ∧
    ((integer.read c).1.isSome ↔
      ∃ token next x, c.takeNumberToken? = some (token, next) ∧
        token.any isFractionMark = false ∧ number.read c = (some (.number x), next) ∧
        -2147483648 ≤ (Decimal.ofToken token).toRat ∧
        (Decimal.ofToken token).toRat ≤ 2147483647) ∧
    (∀ n next, integer.read c = (some (.integer n), next) →
      ∃ x, number.read c = (some (.number x), next) ∧ x.toRat = n.toInt) := by
  refine ⟨numeric_read_of_identifier, numeric_read_of_percentage, number_and_length_iff,
    fun x next => number_and_length_of_zero, ⟨fun found => ?_, fun found => ?_⟩,
    fun n next found => ?_⟩
  · obtain ⟨v, next, read⟩ := exists_of_isSome found
    obtain ⟨token, n, x, -, taken, whole, decimal, number, -⟩ := integer_read_eq_some read
    have low := n.le_toInt
    have high := n.toInt_lt
    refine ⟨token, next, x, taken, whole, number, ?_, ?_⟩
    · rw [decimal]
      exact_mod_cast (by omega : (-2147483648 : Int) ≤ n.toInt)
    · rw [decimal]
      exact_mod_cast (by omega : n.toInt ≤ (2147483647 : Int))
  · obtain ⟨token, next, x, taken, whole, number, low, high⟩ := found
    exact integer_read_of_number taken whole number low high
  · obtain ⟨token, m, x, same, -, -, -, number, value⟩ := integer_read_eq_some found
    cases same
    exact ⟨x, number, value⟩

end Leaf

end StyleGrammar
