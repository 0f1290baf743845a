import StyleGrammar.Proofs.Keywords
import StyleGrammar.Value

/-!
**The bytes of written values.**

A value is written as text; reading it back works on the text's bytes. This module says what
those bytes are:

* `toUTF8_toList_append`, `toUTF8_toList_ofList_ascii`: texts joined, and texts of ASCII
  characters, byte by byte;
* `natDigits`: the digits of a natural number are digit bytes that spell it;
* `PlainNumeral`, `Binary64.render_plain`: a number is written as an optional minus, digits, and
  an optional point with digits, never with an exponent;
* `numberSpan_plain`: such a numeral is read as one whole number token when nothing that could
  continue a number follows it;
* `integerOfToken?_toString`: the text of a 32-bit integer reads back as the integer;
* `toUTF8_toList_intercalate`, `separatorText_bytes`: how the items of composite values are
  joined.
-/

namespace StyleGrammar

@[simp] theorem toUTF8_toList_append (s t : String) :
    (s ++ t).toUTF8.toList = s.toUTF8.toList ++ t.toUTF8.toList := by
  rw [toUTF8_toList, toUTF8_toList, toUTF8_toList, String.toList_append, List.flatMap_append]

/-- The text of ASCII characters has one byte per character, the character's code. -/
theorem toUTF8_toList_ofList_ascii {cs : List Char} (ascii : ∀ c ∈ cs, c.toNat < 0x80) :
    (String.ofList cs).toUTF8.toList = cs.map Char.toUInt8 := by
  rw [toUTF8_toList, String.toList_ofList]
  induction cs with
  | nil => rfl
  | cons c more ih =>
    have small := ascii c (by simp)
    have one : c.utf8Size = 1 := by
      rw [Char.utf8Size_eq_one_iff, UInt32.le_iff_toNat_le]
      simp only [Char.toNat_val] at small ⊢
      simp
      omega
    rw [List.flatMap_cons, String.utf8EncodeChar_eq_singleton one,
      ih fun d mem => ascii d (by simp [mem])]
    rfl

theorem toUInt8_toNat_of_ascii {c : Char} (ascii : c.toNat < 0x80) : c.toUInt8.toNat = c.toNat := by
  simp only [Char.toUInt8, UInt32.toNat_toUInt8, Char.toNat_val]
  omega

/-! ### Digits -/

/-- The digit characters of a natural number. -/
theorem toNat_of_mem_toDigits {n : Nat} {c : Char} (mem : c ∈ Nat.toDigits 10 n) :
    48 ≤ c.toNat ∧ c.toNat ≤ 57 := by
  have digit := Nat.isDigit_of_mem_toDigits (by decide) (by decide) mem
  simp only [Char.isDigit, Bool.and_eq_true, decide_eq_true_eq, UInt32.le_iff_toNat_le] at digit
  simpa using digit

/-- The bytes of the decimal digits of a natural number. -/
theorem natDigits (n : Nat) :
    (toString n).toUTF8.toList = (Nat.toDigits 10 n).map Char.toUInt8 := by
  rw [Nat.toString_eq_ofList_toDigits, toUTF8_toList_ofList_ascii]
  intro c mem
  have := toNat_of_mem_toDigits mem
  omega

theorem isDigit_of_mem_natDigits {n : Nat} {b : UInt8} (mem : b ∈ (toString n).toUTF8.toList) :
    Token.isDigit b = true := by
  rw [natDigits, List.mem_map] at mem
  obtain ⟨c, mem, rfl⟩ := mem
  have range := toNat_of_mem_toDigits mem
  have byte := toUInt8_toNat_of_ascii (c := c) (by omega)
  simp only [Token.isDigit, Bool.and_eq_true, decide_eq_true_eq, UInt8.le_iff_toNat_le, byte]
  simp
  omega

theorem natDigits_ne_nil (n : Nat) : (toString n).toUTF8.toList ≠ [] := by
  rw [natDigits]
  simp [Nat.toDigits_ne_nil]

/-- Digit bytes of ASCII characters are valued as the characters are. -/
theorem foldl_digitValue (cs : List Char) (ascii : ∀ c ∈ cs, c.toNat < 0x80) (init : Nat) :
    (cs.map Char.toUInt8).foldl (fun acc d => acc * 10 + Token.digitValue d) init =
      Nat.ofDigitChars 10 cs init := by
  induction cs generalizing init with
  | nil => rfl
  | cons c more ih =>
    rw [List.map_cons, List.foldl_cons, ih fun d mem => ascii d (by simp [mem]),
      Nat.ofDigitChars_cons, Token.digitValue, toUInt8_toNat_of_ascii (ascii c (by simp)),
      Nat.mul_comm]
    rfl

/-- The digits of a natural number spell it. -/
theorem digitsValue_natDigits (n : Nat) : Token.digitsValue (toString n).toUTF8.toList = n := by
  rw [natDigits, Token.digitsValue, foldl_digitValue, Nat.ofDigitChars_ten_toDigits]
  intro c mem
  have := toNat_of_mem_toDigits mem
  omega

/-! ### Numerals -/

/-- At least one byte, all of them ASCII digits. -/
def DigitRun (bytes : List UInt8) : Prop :=
  bytes ≠ [] ∧ ∀ b ∈ bytes, Token.isDigit b = true

/-- A numeral without exponent: an optional minus, digits, and an optional point with digits. -/
def PlainNumeral (bytes : List UInt8) : Prop :=
  ∃ sign whole fraction, bytes = sign ++ whole ++ fraction ∧ (sign = [] ∨ sign = [0x2D]) ∧
    DigitRun whole ∧ (fraction = [] ∨ ∃ digits, fraction = 0x2E :: digits ∧ DigitRun digits)

/-- Bytes that cannot continue a number token written before them: no digit, no point, and no
exponent. -/
def EndsNumber (after : List UInt8) : Prop :=
  (∀ b ∈ after.head?, Token.isDigit b = false ∧ b ≠ 0x2E) ∧ Token.exponentLen after = 0

theorem digitRun_append {digits : List UInt8} (all : ∀ b ∈ digits, Token.isDigit b = true)
    (rest : List UInt8) : Token.digitRun (digits ++ rest) = digits.length + Token.digitRun rest := by
  unfold Token.digitRun
  rw [List.takeWhile_append_of_pos all, List.length_append]

theorem digitRun_of_head {rest : List UInt8} (stop : ∀ b ∈ rest.head?, Token.isDigit b = false) :
    Token.digitRun rest = 0 := by
  cases rest with
  | nil => rfl
  | cons b more => simp [Token.digitRun, stop b (by simp)]

/-- A numeral followed by what cannot continue it is one whole number token: the scan takes its
sign, then its whole digits up to the point or to what follows. -/
theorem numberSpan_plain {t after : List UInt8} (plain : PlainNumeral t) (ends : EndsNumber after) :
    Token.numberSpan (t ++ after) = some t.length := by
  obtain ⟨sign, whole, fraction, rfl, signed, ⟨wholeNonempty, wholeDigits⟩, fractional⟩ := plain
  obtain ⟨stop, noExponent⟩ := ends
  obtain ⟨w, ws, rfl⟩ := List.exists_cons_of_ne_nil wholeNonempty
  have wDigit := wholeDigits w (by simp)
  have signLength : Token.signLen (sign ++ (w :: ws) ++ fraction ++ after) = sign.length := by
    rcases signed with rfl | rfl
    · have notSign : ¬ (w == 0x2B || w == 0x2D) = true := by
        intro signByte
        simp only [Bool.or_eq_true, beq_iff_eq] at signByte
        rcases signByte with rfl | rfl <;> simp [Token.isDigit] at wDigit
      simp [Token.signLen, notSign]
    · simp [Token.signLen]
  have body : (sign ++ (w :: ws) ++ fraction ++ after).drop sign.length =
      (w :: ws) ++ (fraction ++ after) := by
    simp [List.append_assoc]
  have wholeLength : Token.digitRun ((w :: ws) ++ (fraction ++ after)) =
      (w :: ws).length := by
    rw [digitRun_append wholeDigits, digitRun_of_head]
    · simp
    · intro b mem
      rcases fractional with rfl | ⟨digits, rfl, _⟩
      · exact (stop b (by simpa using mem)).1
      · simp only [List.cons_append, List.head?_cons, Option.mem_def, Option.some.injEq] at mem
        subst mem
        decide
  have fractionLength : Token.fractionLen (fraction ++ after) = fraction.length := by
    rcases fractional with rfl | ⟨digits, rfl, digitsNonempty, allDigits⟩
    · cases after with
      | nil => rfl
      | cons b more =>
        have point := (stop b (by simp)).2
        simp [Token.fractionLen, point]
    · rw [List.cons_append]
      simp only [Token.fractionLen, digitRun_append allDigits]
      rw [digitRun_of_head (fun b mem => (stop b mem).1)]
      have : digits.length ≠ 0 := by simpa using digitsNonempty
      simp [this]
      omega
  have afterBody : ((w :: ws) ++ (fraction ++ after)).drop (w :: ws).length = fraction ++ after :=
    List.drop_left
  have afterToken : (sign ++ (w :: ws) ++ fraction ++ after).drop
      (sign.length + (w :: ws).length + fraction.length) = after := by
    rw [show sign.length + (w :: ws).length + fraction.length =
      (sign ++ (w :: ws) ++ fraction).length by simp; omega]
    exact List.drop_left
  simp only [Token.numberSpan, signLength, body, wholeLength, afterBody, fractionLength,
    afterToken, noExponent]
  simp
  omega

theorem zeros_bytes (n : Nat) : (zeros n).toUTF8.toList = List.replicate n 0x30 := by
  rw [zeros, toUTF8_toList_ofList_ascii (by simp), List.map_replicate]
  rfl

theorem digitRun_natDigits (n : Nat) : DigitRun (toString n).toUTF8.toList :=
  ⟨natDigits_ne_nil n, fun _ mem => isDigit_of_mem_natDigits mem⟩

/-- The digit characters of a natural number as bytes, in pieces. -/
theorem ofList_take_natDigits (n k : Nat) :
    (String.ofList ((toString n).toList.take k)).toUTF8.toList =
      (toString n).toUTF8.toList.take k := by
  rw [Nat.toString_eq_ofList_toDigits, String.toList_ofList, toUTF8_toList_ofList_ascii,
    ← Nat.toString_eq_ofList_toDigits, natDigits, List.map_take]
  intro c mem
  have := toNat_of_mem_toDigits (List.mem_of_mem_take mem)
  omega

theorem ofList_drop_natDigits (n k : Nat) :
    (String.ofList ((toString n).toList.drop k)).toUTF8.toList =
      (toString n).toUTF8.toList.drop k := by
  rw [Nat.toString_eq_ofList_toDigits, String.toList_ofList, toUTF8_toList_ofList_ascii,
    ← Nat.toString_eq_ofList_toDigits, natDigits, List.map_drop]
  intro c mem
  have := toNat_of_mem_toDigits (List.mem_of_mem_drop mem)
  omega

theorem DigitRun.append {a b : List UInt8} (first : DigitRun a) (second : ∀ x ∈ b, Token.isDigit x = true) :
    DigitRun (a ++ b) :=
  ⟨by simp [first.1], fun x mem => by
    rcases List.mem_append.1 mem with inA | inB
    · exact first.2 x inA
    · exact second x inB⟩

theorem point_bytes : ".".toUTF8.toList = [0x2E] := by
  rw [toUTF8_toList, show ".".toList = ['.'] by rfl]
  rfl

theorem minus_bytes : "-".toUTF8.toList = [0x2D] := by
  rw [toUTF8_toList, show "-".toList = ['-'] by rfl]
  rfl

theorem space_bytes : " ".toUTF8.toList = [0x20] := by
  rw [toUTF8_toList, show " ".toList = [' '] by rfl]
  rfl

theorem zeroPoint_bytes : "0.".toUTF8.toList = [0x30, 0x2E] := by
  rw [toUTF8_toList, show "0.".toList = ['0', '.'] by rfl]
  rfl

/-- The body of a decimal's text, without its sign: whole digits, then trailing zeros, or a point
inside or before the digits. -/
theorem positional_body (d : Decimal) :
    ∃ whole fraction, (if 0 ≤ d.exponent then toString d.digits ++ zeros d.exponent.toNat
      else if (-d.exponent).toNat < (toString d.digits).length then
        String.ofList ((toString d.digits).toList.take
          ((toString d.digits).length - (-d.exponent).toNat)) ++ "." ++
        String.ofList ((toString d.digits).toList.drop
          ((toString d.digits).length - (-d.exponent).toNat))
      else "0." ++ zeros ((-d.exponent).toNat - (toString d.digits).length) ++
        toString d.digits).toUTF8.toList = whole ++ fraction ∧ DigitRun whole ∧
      (fraction = [] ∨ ∃ digits, fraction = 0x2E :: digits ∧ DigitRun digits) := by
  have digits := digitRun_natDigits d.digits
  have count : (toString d.digits).length = (toString d.digits).toUTF8.toList.length := by
    rw [natDigits, List.length_map, ← Nat.toList_repr, String.length_toList]
    rfl
  split
  · refine ⟨(toString d.digits).toUTF8.toList ++ List.replicate d.exponent.toNat 0x30, [], ?_,
      digits.append ?_, .inl rfl⟩
    · rw [toUTF8_toList_append, zeros_bytes, List.append_nil]
    · intro b mem
      rw [List.eq_of_mem_replicate mem]
      rfl
  · rename_i negative
    split
    · rename_i inside
      rw [count] at inside ⊢
      refine ⟨(toString d.digits).toUTF8.toList.take
          ((toString d.digits).toUTF8.toList.length - (-d.exponent).toNat),
        0x2E :: (toString d.digits).toUTF8.toList.drop
          ((toString d.digits).toUTF8.toList.length - (-d.exponent).toNat), ?_, ?_,
        .inr ⟨_, rfl, ?_⟩⟩
      · rw [toUTF8_toList_append, toUTF8_toList_append, ofList_take_natDigits,
          ofList_drop_natDigits, point_bytes, List.append_assoc, List.singleton_append]
      · refine ⟨fun empty => ?_, fun b mem => digits.2 b (List.mem_of_mem_take mem)⟩
        have := congrArg List.length empty
        simp only [List.length_take, List.length_nil] at this
        omega
      · refine ⟨fun empty => ?_, fun b mem => digits.2 b (List.mem_of_mem_drop mem)⟩
        have := congrArg List.length empty
        simp only [List.length_drop, List.length_nil] at this
        omega
    · refine ⟨[0x30], 0x2E :: (List.replicate ((-d.exponent).toNat - (toString d.digits).length)
          0x30 ++ (toString d.digits).toUTF8.toList),
        ?_, ⟨by simp, by simp [Token.isDigit]⟩, .inr ⟨_, rfl, ?_⟩⟩
      · rw [toUTF8_toList_append, toUTF8_toList_append, zeroPoint_bytes, zeros_bytes]
        rfl
      · refine ⟨fun empty => digits.1 (List.append_eq_nil_iff.1 empty).2, fun b mem => ?_⟩
        rcases List.mem_append.1 mem with zero | digit
        · rw [List.eq_of_mem_replicate zero]
          rfl
        · exact digits.2 b digit

/-- A decimal is written as a plain numeral, with a minus when it is negative. -/
theorem positional_plain (d : Decimal) : PlainNumeral d.positional.toUTF8.toList := by
  obtain ⟨whole, fraction, bytes, wholeDigits, fractional⟩ := positional_body d
  simp only [Decimal.positional]
  split
  · refine ⟨[0x2D], whole, fraction, ?_, .inr rfl, wholeDigits, fractional⟩
    rw [toUTF8_toList_append, bytes, minus_bytes, List.append_assoc]
  · exact ⟨[], whole, fraction, by rw [bytes, List.nil_append], .inl rfl, wholeDigits, fractional⟩

/-- A number is written as a plain numeral. -/
theorem Binary64.render_plain (x : Binary64) : PlainNumeral x.render.toUTF8.toList :=
  positional_plain x.shortest

/-! ### Integers -/

theorem toString_int_bytes (i : Int) :
    (toString i).toUTF8.toList =
      (if i < 0 then [0x2D] else []) ++ (toString i.natAbs).toUTF8.toList := by
  cases i with
  | ofNat m => rfl
  | negSucc m =>
    show ("-" ++ Nat.repr (m + 1)).toUTF8.toList = _
    rw [toUTF8_toList_append, minus_bytes, if_pos (Int.negSucc_lt_zero m)]
    rfl

/-- An integer is written as an optional minus and digits. -/
theorem integer_plain (i : Int) :
    PlainNumeral (toString i).toUTF8.toList :=
  ⟨if i < 0 then [0x2D] else [], _, [], by rw [toString_int_bytes, List.append_nil],
    by split <;> simp, digitRun_natDigits i.natAbs, .inl rfl⟩

/-- The text of a 32-bit integer holds no point and no exponent mark. -/
theorem integer_text_whole (n : Int32) :
    (toString n.toInt).toUTF8.toList.any isFractionMark = false := by
  rw [toString_int_bytes, List.any_eq_false]
  intro b mem
  rcases List.mem_append.1 mem with sign | digit
  · split at sign
    · simp only [List.mem_singleton] at sign
      subst sign
      decide
    · simp at sign
  · have := isDigit_of_mem_natDigits digit
    simp only [Token.isDigit, Bool.and_eq_true, decide_eq_true_eq, UInt8.le_iff_toNat_le] at this
    simp only [isFractionMark, Bool.or_eq_true, beq_iff_eq, ← UInt8.toNat_inj]
    simp at this ⊢
    omega

/-- The text of a 32-bit integer reads back as the integer. -/
theorem integerOfToken?_toString (n : Int32) :
    integerOfToken? (toString n.toInt).toUTF8.toList = some n := by
  obtain ⟨d, ds, digits⟩ := List.exists_cons_of_ne_nil (natDigits_ne_nil n.toInt.natAbs)
  have first : Token.isDigit d = true := isDigit_of_mem_natDigits (by rw [digits]; simp)
  have unsigned : Token.signLen (d :: ds) = 0 := by
    simp only [Token.signLen]
    rw [if_neg]
    intro signByte
    simp only [Bool.or_eq_true, beq_iff_eq] at signByte
    rcases signByte with rfl | rfl <;> simp [Token.isDigit] at first
  have magnitude : Token.digitsValue (d :: ds) = n.toInt.natAbs := by
    rw [← digits, digitsValue_natDigits]
  have inRange : -2147483648 ≤ n.toInt ∧ n.toInt < 2147483648 := ⟨n.le_toInt, n.toInt_lt⟩
  unfold integerOfToken?
  rw [toString_int_bytes, digits]
  by_cases negative : n.toInt < 0
  · have signed : Token.signLen (0x2D :: d :: ds) = 1 := rfl
    have value : -((n.toInt.natAbs : Nat) : Int) = n.toInt := by omega
    simp only [if_pos negative, List.singleton_append, signed, List.drop_succ_cons,
      List.drop_zero, magnitude, List.head?_cons, beq_self_eq_true, if_true, value,
      if_pos inRange, Int32.ofInt_toInt]
  · have notMinus : (some d == some (0x2D : UInt8)) = false := by
      rw [beq_eq_false_iff_ne]
      intro same
      cases same
      simp [Token.isDigit] at first
    have value : ((n.toInt.natAbs : Nat) : Int) = n.toInt := by omega
    simp only [if_neg negative, List.nil_append, unsigned, List.drop_zero, magnitude,
      List.head?_cons, notMinus, Bool.false_eq_true, if_false, value, if_pos inRange,
      Int32.ofInt_toInt]

/-! ### Joined items -/

namespace Value

theorem renderList_cons (v : Value) (vs : List Value) :
    renderList (v :: vs) = v.render? :: renderList vs := by
  simp [renderList]

theorem joinAll_singleton (sep : String) (text : Option String) : joinAll sep [text] = text := by
  cases text <;> simp [joinAll, String.intercalate_singleton]

/-- Two texts or more joined: the first, the separator, then the others joined. -/
theorem joinAll_cons_cons {sep joined : String} {first second : Option String}
    {more : List (Option String)} (h : joinAll sep (first :: second :: more) = some joined) :
    ∃ head tail, first = some head ∧ joinAll sep (second :: more) = some tail ∧
      joined = head ++ sep ++ tail := by
  simp only [joinAll, List.mapM_cons, id] at h ⊢
  cases first with
  | none => simp at h
  | some head =>
    cases second with
    | none => simp at h
    | some next =>
      cases others : more.mapM id with
      | none => simp [others] at h
      | some texts =>
        simp only [others, Option.bind_eq_bind, Option.bind_some, Option.map_some,
          Option.some.injEq, Option.pure_def] at h ⊢
        refine ⟨head, _, rfl, rfl, ?_⟩
        rw [← h, String.intercalate_cons_cons]

/-- The bytes between two list items: a comma and a space, or the separator between spaces. -/
theorem separatorText_bytes {s : UInt8} (allowed : separatorAllowed s = true) :
    (separatorText s).toUTF8.toList = if s = 0x2C then [0x2C, 0x20] else [0x20, s, 0x20] := by
  have ascii : s < 0x80 := by
    simp only [separatorAllowed, isAsciiPunctuation, Bool.and_eq_true, Bool.or_eq_true,
      decide_eq_true_eq] at allowed
    rw [UInt8.lt_iff_toNat_lt]
    simp only [UInt8.le_iff_toNat_le] at allowed
    simp at allowed ⊢
    omega
  unfold separatorText
  by_cases comma : s = 0x2C
  · subst comma
    rw [if_pos rfl, if_pos (beq_self_eq_true _), toUTF8_toList,
      show ", ".toList = [',', ' '] by rfl]
    rfl
  · have single : (String.singleton (Char.ofNat s.toNat)).toUTF8.toList = [s] := by
      rw [toUTF8_toList, String.toList_singleton, List.flatMap_singleton,
        utf8EncodeChar_ofNat_of_ascii ascii]
    rw [if_neg (by simpa using comma), if_neg comma, toUTF8_toList_append, toUTF8_toList_append,
      space_bytes, single]
    rfl

end Value

/-- The first byte of a text begins a character. -/
theorem toUTF8_head_lead (s : String) :
    ∀ b ∈ s.toUTF8.toList.head?, Utf8.isContinuation b = false := by
  intro b mem
  rw [toUTF8_toList] at mem
  cases chars : s.toList with
  | nil => simp [chars] at mem
  | cons c more =>
    rw [chars, List.flatMap_cons] at mem
    have lead : ∀ x ∈ (String.utf8EncodeChar c).head?, Utf8.isContinuation x = false := by
      have := c.utf8Size_pos
      have := c.utf8Size_le_four
      have above : ∀ x m : UInt8, 0xC0 ≤ m → Utf8.isContinuation (x ||| m) = false := by
        intro x m high
        have notBelow : ¬ (x ||| m) < 0xC0 := by
          rw [UInt8.le_iff_toNat_le] at high
          rw [UInt8.lt_iff_toNat_lt, UInt8.toNat_or]
          exact Nat.not_lt.2 (Nat.le_trans high Nat.right_le_or)
        simp [Utf8.isContinuation, notBelow]
      rcases (by omega : c.utf8Size = 1 ∨ c.utf8Size = 2 ∨ c.utf8Size = 3 ∨ c.utf8Size = 4)
        with one | two | three | four
      · rw [String.utf8EncodeChar_eq_singleton one]
        intro x found
        simp only [List.head?_cons, Option.mem_def, Option.some.injEq] at found
        subst found
        have small := Char.utf8Size_eq_one_iff.1 one
        rw [UInt32.le_iff_toNat_le] at small
        have byte := toUInt8_toNat_of_ascii (c := c) (by simp at small; omega)
        simp [Utf8.isContinuation, UInt8.le_iff_toNat_le, byte]
        simp at small
        omega
      · rw [String.utf8EncodeChar_eq_cons_cons two]
        intro x found
        simp only [List.head?_cons, Option.mem_def, Option.some.injEq] at found
        subst found
        exact above _ _ (by decide)
      · rw [String.utf8EncodeChar_eq_cons_cons_cons three]
        intro x found
        simp only [List.head?_cons, Option.mem_def, Option.some.injEq] at found
        subst found
        exact above _ _ (by decide)
      · rw [String.utf8EncodeChar_eq_cons_cons_cons_cons four]
        intro x found
        simp only [List.head?_cons, Option.mem_def, Option.some.injEq] at found
        subst found
        exact above _ _ (by decide)
    obtain ⟨x, xs, encoded⟩ := List.exists_cons_of_ne_nil (String.utf8EncodeChar_ne_nil (c := c))
    rw [encoded, List.cons_append, List.head?_cons, Option.mem_def, Option.some.injEq] at mem
    subst mem
    exact lead _ (by simp [encoded])

end StyleGrammar
