import StyleGrammar.Proofs.LongestMatch
import StyleGrammar.Proofs.Overflow
import StyleGrammar.Proofs.LeafShapes

/-!
**The number scan takes the longest number.**

A number token is `[+-]? (D+ ('.' D+)? | '.' D+) ([eE] [+-]? D+)?` over ASCII digits `D`. The
scan decides with one byte of lookahead where the fraction and the exponent stop: a point with no
digit after it, and an `e` with no digits after it and its sign, stay outside the token. Those
choices are exactly the longest match.

* `Token.NumberWord`: the grammar, from `Token.Mantissa` (digits with an optional fraction, or a
  point and digits) and `Token.ExponentPart`;
* `Token.numberWord_take`: what the scan takes is in the grammar;
* `Token.numberSpan_of_prefix`: every number that opens the bytes is found, and is no longer than
  what the scan takes;
* `Token.numberSpan_eq_some_iff`, `Token.numberSpan_eq_none_iff`: the scan gives the longest
  number, and nothing exactly when no prefix is a number;
* `Cursor.numberText_found`, `Cursor.takeNumber?_longest`, `Cursor.takeNumber?_eq_none`: at a
  cursor over valid text the number ahead is that token, taking it moves over it, and taking it
  fails only when there is none or its value reaches the overflow threshold;
* `number_scan_longest`: all of it together.
-/

namespace StyleGrammar.Token

/-- An optional sign: nothing, a plus or a minus. -/
def OptionalSign (sign : List UInt8) : Prop :=
  sign = [] ∨ sign = [0x2B] ∨ sign = [0x2D]

/-- The body of a number: digits with an optional fraction, or a point and digits. -/
inductive Mantissa : List UInt8 → Prop where
  | whole {digits : List UInt8} : DigitRun digits → Mantissa digits
  | fraction {digits decimals : List UInt8} : DigitRun digits → DigitRun decimals →
      Mantissa (digits ++ 0x2E :: decimals)
  | point {decimals : List UInt8} : DigitRun decimals → Mantissa (0x2E :: decimals)

/-- An optional exponent: nothing, or `e` or `E`, an optional sign and digits. -/
inductive ExponentPart : List UInt8 → Prop where
  | none : ExponentPart []
  | mark {m : UInt8} {sign digits : List UInt8} : (m = 0x65 ∨ m = 0x45) → OptionalSign sign →
      DigitRun digits → ExponentPart (m :: (sign ++ digits))

/-- The number grammar `[+-]? (D+ ('.' D+)? | '.' D+) ([eE] [+-]? D+)?`. -/
inductive NumberWord : List UInt8 → Prop where
  | mk {sign body exponent : List UInt8} : OptionalSign sign → Mantissa body →
      ExponentPart exponent → NumberWord (sign ++ body ++ exponent)

/-! ### The parts of the scan -/

/-- A run of digits opens with a digit. -/
theorem head_of_digitRun {bytes : List UInt8} (found : digitRun bytes ≠ 0) :
    ∀ x ∈ bytes.head?, isDigit x = true := by
  cases bytes with
  | nil => simp [digitRun] at found
  | cons b more =>
    intro x mem
    simp only [List.head?_cons, Option.mem_def, Option.some.injEq] at mem
    subst mem
    by_contra notDigit
    simp [digitRun, notDigit] at found

/-- The digits the scan takes, when there are any, are a run of digits. -/
theorem digitRun_take {bytes : List UInt8} (found : digitRun bytes ≠ 0) :
    DigitRun (bytes.take (digitRun bytes)) := by
  refine ⟨fun empty => found ?_, (takeWhile_longest isDigit bytes).accepted⟩
  have := congrArg List.length empty
  rw [List.length_take, List.length_nil] at this
  have := digitRun_le bytes
  omega

/-- No sign is a digit or a point. -/
theorem not_sign_of_numeric {x : UInt8} (numeric : isDigit x = true ∨ x = 0x2E) :
    x ≠ 0x2B ∧ x ≠ 0x2D := by
  rcases numeric with digit | rfl
  · constructor <;> rintro rfl <;> simp [isDigit] at digit
  · decide

/-- An optional sign before something that opens with no sign is the scan's sign. -/
theorem signLen_optionalSign {sign rest : List UInt8} (signed : OptionalSign sign)
    (next : ∀ x ∈ rest.head?, x ≠ 0x2B ∧ x ≠ 0x2D) : signLen (sign ++ rest) = sign.length := by
  rcases signed with rfl | rfl | rfl
  · cases rest with
    | nil => rfl
    | cons x more =>
      obtain ⟨notPlus, notMinus⟩ := next x (by simp)
      simp [signLen, notPlus, notMinus]
  · rfl
  · rfl

/-- A point and digits make a fraction of all of them. -/
theorem fractionLen_point {decimals : List UInt8} (run : DigitRun decimals) (after : List UInt8) :
    fractionLen (0x2E :: (decimals ++ after)) = 1 + decimals.length + digitRun after := by
  have digits : digitRun (decimals ++ after) = decimals.length + digitRun after :=
    digitRun_append run.2 after
  have present : decimals.length + digitRun after ≠ 0 := by
    have := List.length_pos_of_ne_nil run.1
    omega
  simp only [fractionLen, BEq.rfl, if_true, digits, present, if_false]
  omega

/-- A fraction the scan takes is a point and digits. -/
theorem fraction_take {bytes : List UInt8} (present : fractionLen bytes ≠ 0) :
    ∃ decimals, bytes.take (fractionLen bytes) = 0x2E :: decimals ∧ DigitRun decimals := by
  obtain ⟨more, rfl⟩ := point_of_fractionLen present
  have found : digitRun more ≠ 0 := by
    intro zero
    simp [fractionLen, zero] at present
  have length : fractionLen (0x2E :: more) = digitRun more + 1 := by
    simp only [fractionLen, BEq.rfl, if_true, found, if_false]
    omega
  exact ⟨_, by rw [length, List.take_succ_cons], digitRun_take found⟩

/-- A mark, an optional sign and digits make an exponent of all of them. -/
theorem exponentLen_mark {m : UInt8} (mark : m = 0x65 ∨ m = 0x45) {sign digits : List UInt8}
    (signed : OptionalSign sign) (run : DigitRun digits) (after : List UInt8) :
    exponentLen (m :: (sign ++ digits ++ after)) =
      1 + sign.length + digits.length + digitRun after := by
  obtain ⟨d, more, rfl⟩ := List.exists_cons_of_ne_nil run.1
  have unsigned : signLen (sign ++ d :: (more ++ after)) = sign.length :=
    signLen_optionalSign signed fun x mem => by
      simp only [List.head?_cons, Option.mem_def, Option.some.injEq] at mem
      exact not_sign_of_numeric (.inl (mem ▸ run.2 d (by simp)))
  have digitsAfter : digitRun (d :: (more ++ after)) = (d :: more).length + digitRun after :=
    digitRun_append run.2 after
  have isMark : (m == 0x65 || m == 0x45) = true := by
    rcases mark with rfl | rfl <;> decide
  rw [List.append_assoc, List.cons_append]
  simp only [exponentLen, isMark, if_true, unsigned, List.drop_left, digitsAfter,
    List.length_cons]
  split <;> omega

/-- An exponent the scan takes is in the grammar, or is empty. -/
theorem exponentPart_take (bytes : List UInt8) : ExponentPart (bytes.take (exponentLen bytes)) := by
  cases bytes with
  | nil => exact .none
  | cons m rest =>
    by_cases isMark : (m == 0x65 || m == 0x45) = true
    · by_cases found : digitRun (rest.drop (signLen rest)) = 0
      · have zero : exponentLen (m :: rest) = 0 := by simp [exponentLen, isMark, found]
        rw [zero, List.take_zero]
        exact .none
      · have length : exponentLen (m :: rest) =
            (signLen rest + digitRun (rest.drop (signLen rest))) + 1 := by
          simp only [exponentLen, isMark, if_true, found, if_false]
          omega
        rw [length, List.take_succ_cons, List.take_add]
        have mark : m = 0x65 ∨ m = 0x45 := by simpa using isMark
        exact .mark mark (take_signLen rest) (digitRun_take found)
    · have zero : exponentLen (m :: rest) = 0 := by simp [exponentLen, isMark]
      rw [zero, List.take_zero]
      exact .none

/-! ### What the scan takes -/

/-- The length of the digits and the fraction that the number scan takes after the sign. -/
def mantissaSpan (bytes : List UInt8) : Nat :=
  digitRun bytes + fractionLen (bytes.drop (digitRun bytes))

/-- The scan after a sign: the body's digits and fraction, then the exponent after them. -/
theorem numberSpan_after_sign {sign rest : List UInt8}
    (signs : signLen (sign ++ rest) = sign.length) :
    numberSpan (sign ++ rest) =
      if mantissaSpan rest = 0 then none
      else some (sign.length + mantissaSpan rest + exponentLen (rest.drop (mantissaSpan rest))) := by
  simp only [numberSpan, mantissaSpan, signs, List.drop_left]
  rw [Nat.add_assoc sign.length, ← List.drop_drop (j := sign.length), List.drop_left]
  rfl

/-- A number's body opens with a digit or a point. -/
theorem Mantissa.head {body : List UInt8} (h : Mantissa body) :
    ∃ x more, body = x :: more ∧ (isDigit x = true ∨ x = 0x2E) := by
  cases h with
  | whole run =>
    obtain ⟨x, more, rfl⟩ := List.exists_cons_of_ne_nil run.1
    exact ⟨x, more, rfl, .inl (run.2 x (by simp))⟩
  | fraction run _ =>
    obtain ⟨x, more, rfl⟩ := List.exists_cons_of_ne_nil run.1
    exact ⟨x, _, rfl, .inl (run.2 x (by simp))⟩
  | point _ => exact ⟨0x2E, _, rfl, .inr rfl⟩

/-- The digits and the fraction the scan takes make a number's body. -/
theorem mantissa_take {body : List UInt8} (present : mantissaSpan body ≠ 0) :
    Mantissa (body.take (mantissaSpan body)) := by
  unfold mantissaSpan at present ⊢
  rw [List.take_add]
  by_cases fraction : fractionLen (body.drop (digitRun body)) = 0
  · rw [fraction, List.take_zero, List.append_nil]
    exact .whole (digitRun_take (by omega))
  · obtain ⟨decimals, taken, run⟩ := fraction_take fraction
    rw [taken]
    by_cases whole : digitRun body = 0
    · rw [whole, List.take_zero, List.nil_append]
      exact .point run
    · exact .fraction (digitRun_take whole) run

/-- What the number scan takes is in the number grammar: the sign, the body and the exponent,
each as the scan took it. -/
theorem numberWord_take {bytes : List UInt8} {n : Nat} (found : numberSpan bytes = some n) :
    NumberWord (bytes.take n) := by
  set sign := bytes.take (signLen bytes)
  set rest := bytes.drop (signLen bytes)
  have split : bytes = sign ++ rest := (List.take_append_drop _ _).symm
  have signs : signLen (sign ++ rest) = sign.length := by
    rw [← split, List.length_take, Nat.min_eq_left (signLen_le bytes)]
  rw [split, numberSpan_after_sign signs] at found
  split at found
  · cases found
  rename_i present
  rw [Option.some.injEq] at found
  rw [← found, split, Nat.add_assoc, List.take_length_add_append, List.take_add,
    ← List.append_assoc]
  exact .mk (take_signLen bytes) (mantissa_take present) (exponentPart_take _)

/-! ### Every number is found, and none is longer -/

/-- A body that opens `body ++ after` is no longer than the scan's digits and fraction, and stops
short of them only before a digit or a point. Both bodies with a point share one step
(`pointed`): after all-digit bytes, the fraction runs on through the digits of `after`. -/
theorem Mantissa.fits {body : List UInt8} (h : Mantissa body) (after : List UInt8) :
    body.length ≤ mantissaSpan (body ++ after) ∧
      (body.length < mantissaSpan (body ++ after) →
        ∀ x ∈ after.head?, isDigit x = true ∨ x = 0x2E) := by
  unfold mantissaSpan
  have pointed (digits : List UInt8) {decimals : List UInt8}
      (all : ∀ b ∈ digits, isDigit b = true) (run : DigitRun decimals) :
      digitRun (digits ++ 0x2E :: decimals ++ after) = digits.length ∧
        fractionLen ((digits ++ 0x2E :: decimals ++ after).drop digits.length) =
          1 + decimals.length + digitRun after := by
    rw [List.append_assoc, digitRun_append all, List.cons_append, List.drop_left,
      fractionLen_point run]
    exact ⟨by simp [digitRun, isDigit], rfl⟩
  cases h with
  | @whole digits run =>
    rw [digitRun_append run.2, ← List.drop_drop, List.drop_left]
    refine ⟨by omega, fun short => ?_⟩
    by_cases found : digitRun after = 0
    · rw [found, List.drop_zero] at short
      have present : fractionLen after ≠ 0 := by omega
      obtain ⟨more, rfl⟩ := point_of_fractionLen present
      intro x mem
      simp only [List.head?_cons, Option.mem_def, Option.some.injEq] at mem
      exact .inr mem.symm
    · exact fun x mem => .inl (head_of_digitRun found x mem)
  | @fraction digits decimals run run' =>
    obtain ⟨whole, fraction⟩ := pointed digits run.2 run'
    rw [whole, fraction]
    simp only [List.length_append, List.length_cons]
    refine ⟨by omega, fun short x mem => .inl (head_of_digitRun (by omega) x mem)⟩
  | @point decimals run =>
    obtain ⟨whole, fraction⟩ := pointed [] (by simp) run
    simp only [List.nil_append, List.length_nil] at whole fraction
    rw [whole, fraction]
    simp only [List.length_cons]
    refine ⟨by omega, fun short x mem => .inl (head_of_digitRun (by omega) x mem)⟩

/-- **Every number that opens the bytes is found, and is no longer than the scan's token.** The
sign is the scan's sign; the body stops short of the scan's digits and fraction only before a
digit or a point, which no exponent opens with, so an exponent after it starts where the scan's
does and is no longer. -/
theorem numberSpan_of_prefix {pre bytes : List UInt8} (isPrefix : pre <+: bytes)
    (word : NumberWord pre) : ∃ n, numberSpan bytes = some n ∧ pre.length ≤ n := by
  obtain ⟨tail, rfl⟩ := isPrefix
  obtain @⟨sign, body, exponent, signed, mantissa, part⟩ := word
  obtain ⟨x, more, rfl, numeric⟩ := mantissa.head
  have signs : signLen (sign ++ (x :: more ++ (exponent ++ tail))) = sign.length :=
    signLen_optionalSign signed fun y mem => by
      simp only [List.cons_append, List.head?_cons, Option.mem_def, Option.some.injEq] at mem
      exact not_sign_of_numeric (mem ▸ numeric)
  obtain ⟨fits, short⟩ := mantissa.fits (exponent ++ tail)
  have regroup :
      sign ++ x :: more ++ exponent ++ tail = sign ++ (x :: more ++ (exponent ++ tail)) := by
    simp
  rw [regroup, numberSpan_after_sign signs, if_neg (by simp only [List.length_cons] at fits; omega)]
  refine ⟨_, rfl, ?_⟩
  simp only [List.length_append] at fits ⊢
  cases part with
  | none => simp only [List.length_nil]; omega
  | @mark m esign edigits mark esigned run =>
    have ends := Decidable.byContradiction fun long => by
      have := short (Nat.lt_of_le_of_ne fits long) m (by simp)
      rcases mark with rfl | rfl <;> simp [isDigit] at this
    rw [← ends, List.drop_left, List.cons_append, exponentLen_mark mark esigned run tail]
    simp only [List.length_cons, List.length_append]
    omega

/-- The number scan finds nothing exactly when no prefix of the bytes is a number. -/
theorem numberSpan_eq_none_iff {bytes : List UInt8} :
    numberSpan bytes = none ↔ ∀ pre, pre <+: bytes → ¬ NumberWord pre := by
  constructor
  · intro missing pre isPrefix word
    obtain ⟨n, found, _⟩ := numberSpan_of_prefix isPrefix word
    rw [missing] at found
    cases found
  · intro absent
    cases found : numberSpan bytes with
    | none => rfl
    | some n => exact absurd (numberWord_take found) (absent _ (List.take_prefix n bytes))

/-- Where it finds one, the number scan takes the longest number that opens the bytes. -/
theorem numberSpan_longest {bytes : List UInt8} {n : Nat} (found : numberSpan bytes = some n) :
    LongestPrefix NumberWord bytes n where
  fits := numberSpan_le found
  accepted := numberWord_take found
  longest _ isPrefix word := by
    obtain ⟨m, found', bound⟩ := numberSpan_of_prefix isPrefix word
    rw [found, Option.some.injEq] at found'
    rwa [found']

/-- The number scan gives exactly the length of the longest number that opens the bytes. -/
theorem numberSpan_eq_some_iff {bytes : List UInt8} {n : Nat} :
    numberSpan bytes = some n ↔ LongestPrefix NumberWord bytes n := by
  refine ⟨numberSpan_longest, fun longest => ?_⟩
  obtain ⟨m, found, _⟩ := numberSpan_of_prefix (List.take_prefix n bytes) longest.accepted
  rw [found, (numberSpan_longest found).unique longest]

/-- A number opens with an ASCII byte: a sign, a digit or a point. -/
theorem NumberWord.head_lt {word : List UInt8} (h : NumberWord word) :
    ∃ x more, word = x :: more ∧ x < 0x80 := by
  obtain @⟨sign, body, exponent, signed, mantissa, _⟩ := h
  obtain ⟨x, more, rfl, numeric⟩ := mantissa.head
  rcases signed with rfl | rfl | rfl
  · refine ⟨x, more ++ exponent, rfl, ?_⟩
    rcases numeric with digit | rfl
    · exact ascii_of_isDigit digit
    · decide
  · exact ⟨0x2B, _, rfl, by decide⟩
  · exact ⟨0x2D, _, rfl, by decide⟩

end StyleGrammar.Token

namespace StyleGrammar.Cursor

open Token

variable {c : Cursor} {n : Nat}

/-- A cursor with a number token ahead stands on a boundary of valid text: the token opens with
an ASCII byte. -/
theorem onBoundary_of_numberSpan (valid : Utf8.Valid c.text) (found : numberSpan c.rest = some n) :
    c.OnBoundary := by
  obtain ⟨x, more, taken, ascii⟩ := (numberWord_take found).head_lt
  have head : c.rest.head? = some x := by
    have first : (c.rest.take n).head? = some x := by rw [taken]; rfl
    rw [List.head?_take] at first
    split at first
    · cases first
    · exact first
  have start := c.isCharBoundary_ahead (Nat.zero_le _) fun b mem => by
    rw [List.drop_zero, head, Option.mem_def, Option.some.injEq] at mem
    exact Utf8.isContinuation_of_lt (mem ▸ ascii)
  exact ⟨valid, by simpa using start⟩

/-- On valid text, the number ahead is the text of the scanned token. -/
theorem numberText_found (valid : Utf8.Valid c.text) (found : numberSpan c.rest = some n) :
    ∃ s : String, s.toUTF8.toList = c.rest.take n ∧ c.numberText = .ok (some s) := by
  have start := onBoundary_of_numberSpan valid found
  obtain ⟨s, cut⟩ := start.slice_lands (numberSpan_le found) (numberSpan_lands found)
  refine ⟨s, toUTF8_decodeUtf8? (decodeUtf8?_of_slice cut), ?_⟩
  unfold numberText
  rw [found]
  simp [cut, Except.map]

theorem takeNumberToken?_of_span (found : numberSpan c.rest = some n) :
    c.takeNumberToken? = some (c.rest.take n, c.forward n (numberSpan_le found)) := by
  unfold takeNumberToken?
  split
  · rename_i len span
    rw [found, Option.some.injEq] at span
    subst span
    rfl
  · rename_i span
    rw [found] at span
    cases span

/-- Taking a number moves over the longest number ahead and gives the binary64 nearest to it. -/
theorem takeNumber?_longest (longest : LongestPrefix NumberWord c.rest n) (x : Binary64)
    (next : Cursor) :
    c.takeNumber? = some (x, next) ↔ (Decimal.ofToken (c.rest.take n)).toBinary64? = some x ∧
      next.text = c.text ∧ next.pos = c.pos + n := by
  have taken := takeNumberToken?_of_span (numberSpan_eq_some_iff.2 longest)
  rw [takeNumber?_eq_some_iff, taken]
  constructor
  · rintro ⟨token, same, value⟩
    rw [Option.some.injEq, Prod.mk.injEq] at same
    obtain ⟨rfl, rfl⟩ := same
    exact ⟨value, rfl, rfl⟩
  · rintro ⟨value, text, pos⟩
    refine ⟨_, ?_, value⟩
    rw [Option.some.injEq, Prod.mk.injEq]
    exact ⟨rfl, Cursor.ext text.symm pos.symm⟩

/-- **Taking a number fails only past the overflow threshold**, when a number is ahead: the
decimal that the token writes then has a magnitude of at least `2^1024 - 2^970`. -/
theorem takeNumber?_eq_none (longest : LongestPrefix NumberWord c.rest n)
    (missing : c.takeNumber? = none) :
    Binary64.overflowThreshold ≤ |(Decimal.ofToken (c.rest.take n)).toRat| := by
  apply Decimal.toBinary64?_eq_none
  unfold takeNumber? at missing
  rw [takeNumberToken?_of_span (numberSpan_eq_some_iff.2 longest)] at missing
  simpa using missing

/-- With no number ahead, neither looking at one nor taking one finds anything. -/
theorem numberText_of_none (absent : ∀ pre, pre <+: c.rest → ¬ NumberWord pre) :
    c.numberText = .ok none ∧ c.takeNumber? = none := by
  have missing := numberSpan_eq_none_iff.2 absent
  have token : c.takeNumberToken? = none := by
    unfold takeNumberToken?
    split
    · rename_i len span
      rw [missing] at span
      cases span
    · rfl
  refine ⟨?_, ?_⟩
  · unfold numberText
    rw [missing]
  · unfold takeNumber?
    rw [token]

end StyleGrammar.Cursor

namespace StyleGrammar

open Token

/-- **The number scan takes the longest number.** It finds a token exactly when some prefix is a
number, and its length is then that of the longest one. At a cursor over valid text, the number
ahead is the token's text; taking it, when it succeeds, moves over the token and gives the nearest
binary64; and taking it fails only when no number is ahead, or when the token's value reaches the
overflow threshold, past which the nearest binary64 is infinite. -/
theorem number_scan_longest :
    (∀ (bytes : List UInt8) (n : Nat),
      numberSpan bytes = some n ↔ LongestPrefix NumberWord bytes n) ∧
    (∀ bytes : List UInt8, numberSpan bytes = none ↔ ∀ pre, pre <+: bytes → ¬ NumberWord pre) ∧
    (∀ c : Cursor, Utf8.Valid c.text → ∀ n, LongestPrefix NumberWord c.rest n →
      ∃ s : String, s.toUTF8.toList = c.rest.take n ∧ c.numberText = .ok (some s)) ∧
    (∀ (c : Cursor) (n : Nat), LongestPrefix NumberWord c.rest n → ∀ x next,
      c.takeNumber? = some (x, next) ↔ (Decimal.ofToken (c.rest.take n)).toBinary64? = some x ∧
        next.text = c.text ∧ next.pos = c.pos + n) ∧
    (∀ (c : Cursor) (n : Nat), LongestPrefix NumberWord c.rest n → c.takeNumber? = none →
      Binary64.overflowThreshold ≤ |(Decimal.ofToken (c.rest.take n)).toRat|) ∧
    (∀ c : Cursor, (∀ pre, pre <+: c.rest → ¬ NumberWord pre) →
      c.numberText = .ok none ∧ c.takeNumber? = none) :=
  ⟨fun _ _ => numberSpan_eq_some_iff, fun _ => numberSpan_eq_none_iff,
    fun _ valid _ longest => Cursor.numberText_found valid (numberSpan_eq_some_iff.2 longest),
    fun _ _ longest => Cursor.takeNumber?_longest longest,
    fun _ _ longest missing => Cursor.takeNumber?_eq_none longest missing,
    fun _ absent => Cursor.numberText_of_none absent⟩

end StyleGrammar
