import StyleGrammar.Proofs.Rereadable

/-!
**Padding: blanks and closed comments, and what a cursor sees before it.**

Padding is blanks and closed comments, in any order. Put after a text, a scan that reaches the
end of the text sees a blank or a slash where it would have seen the end, and neither continues
a token, opens one, or is a percent sign. The text itself must close every comment it opens, or
a comment left open in it would end inside the padding.

* `Token.Padding`: blanks and closed comments;
* `Token.ClosesComments`: every `/*` is followed by a `*/`;
* `Token.spacingSpan_append_padding`: the scan over a text with padding after it stops where it
  stops in the text, or runs through the padding to the end;
* `Token.numberSpan_append_inert`, `Token.identifierSpan_append_inert`: a token ends where it
  ends in the text;
* `Cursor.Trails`: one cursor reads what another reads, followed by padding, or both have read
  everything; every token taker keeps the relation (`Cursor.Trails.takeNumber?` and the others);
* `Cursor.Trails.stays_iff`: a step takes no text at both cursors or at neither;
* `Cursor.start_trails`: a text with padding on both sides, past its opening insignificant
  content, trails the text alone.
-/

namespace StyleGrammar.Token

/-- Padding: blanks and closed comments in any order. -/
inductive Padding : List UInt8 → Prop where
  | nil : Padding []
  | blank {b : UInt8} {rest : List UInt8} : isBlank b = true → Padding rest → Padding (b :: rest)
  | comment {body rest : List UInt8} :
      CommentBody body → Padding rest →
        Padding (0x2F :: 0x2A :: (body ++ 0x2A :: 0x2F :: rest))

/-- Every comment opened in the bytes is closed: each `/*` is followed by a `*/` that starts
after it. -/
def ClosesComments (bytes : List UInt8) : Prop :=
  ∀ pre post, bytes = pre ++ 0x2F :: 0x2A :: post →
    ∃ body rest, post = body ++ 0x2A :: 0x2F :: rest

/-- What may stand where a reading looks past the end of a token: nothing, a blank or a
slash. -/
def Inert (after : List UInt8) : Prop :=
  ∀ b ∈ after.head?, isBlank b = true ∨ b = 0x2F

namespace Padding

theorem insignificant {bytes : List UInt8} (h : Padding bytes) : Insignificant bytes := by
  induction h with
  | nil => exact .nil
  | blank blank _ ih => exact .blank blank ih
  | comment open_ _ ih => exact .comment open_ ih

theorem inert {bytes : List UInt8} (h : Padding bytes) : Inert bytes := by
  intro b mem
  cases h with
  | nil => cases mem
  | blank blank _ =>
    simp only [List.head?_cons, Option.mem_def, Option.some.injEq] at mem
    exact .inl (mem ▸ blank)
  | comment _ _ =>
    simp only [List.head?_cons, Option.mem_def, Option.some.injEq] at mem
    exact .inr mem.symm

end Padding

/-- No comment opens in bytes without a slash. -/
theorem ClosesComments.of_not_mem {bytes : List UInt8} (h : (0x2F : UInt8) ∉ bytes) :
    ClosesComments bytes := by
  intro pre post split
  rw [split] at h
  simp at h

theorem ClosesComments.drop {bytes : List UInt8} (h : ClosesComments bytes) (n : Nat) :
    ClosesComments (bytes.drop n) := by
  intro pre post split
  apply h (bytes.take n ++ pre) post
  rw [List.append_assoc, ← split, List.take_append_drop]

/-! ### The scan over padding -/

/-- Padding in front is scanned whole, and the scan goes on after it. -/
theorem spacingSpan_padding_append {w : List UInt8} (h : Padding w) (x : List UInt8) :
    spacingSpan (w ++ x) = w.length + spacingSpan x := by
  induction h with
  | nil => simp
  | blank blank _ ih =>
    rw [List.cons_append, spacingSpan_blank blank, ih]
    simp
    omega
  | @comment body rest open_ _ ih =>
    have closed : body ++ 0x2A :: 0x2F :: (rest ++ x) = (body ++ [0x2A, 0x2F]) ++ (rest ++ x) := by
      simp
    rw [List.cons_append, List.cons_append, List.append_assoc, List.cons_append, List.cons_append,
      spacingSpan_comment, commentSpan_close open_, closed, List.drop_left' (by simp), ih]
    simp
    omega

/-- A slash opens no comment where nothing, a blank or another slash follows it. -/
theorem spacingSpan_slash {after : List UInt8} (inert : Inert after) :
    spacingSpan (0x2F :: after) = 0 := by
  rw [spacingSpan.eq_def]
  cases after with
  | nil => simp [isBlank]
  | cons b more =>
    have notStar : b ≠ 0x2A := by
      rcases inert b (by simp) with blank | slash
      · intro star
        subst star
        simp [isBlank] at blank
      · rw [slash]
        decide
    simp [isBlank, notStar]

/-- **The scan over a text with padding after it.** When the text closes its comments, the scan
either stops inside the text, where it stops without the padding, or covers the text and then
the padding: a comment opened in the text ends at its first close, inside the text. -/
theorem spacingSpan_append_padding {r w : List UInt8} (closes : ClosesComments r)
    (pad : Padding w) :
    (spacingSpan r < r.length ∧ spacingSpan (r ++ w) = spacingSpan r) ∨
      (spacingSpan r = r.length ∧ spacingSpan (r ++ w) = r.length + w.length) := by
  fun_induction spacingSpan r with
  | case1 =>
    refine .inr ⟨rfl, ?_⟩
    rw [List.nil_append, spacingSpan_of_insignificant pad.insignificant]
    simp
  | case2 b rest blank ih =>
    have tail := ih (by simpa using closes.drop 1)
    rw [List.cons_append, spacingSpan_blank blank]
    simp only [List.length_cons]
    omega
  | case3 b notBlank slash c body star bounded inner ih =>
    have slash : b = 0x2F := by simpa using slash
    have star : c = 0x2A := by simpa using star
    subst slash star
    obtain ⟨closing, after, closed⟩ := closes [] body rfl
    rcases commentSpan_cases body with ⟨open_, _⟩ | ⟨pre, post, split, open_, span⟩
    · exact absurd closed (open_ closing after)
    · have dropped : body.drop inner = post := by
        simp only [inner, span, split]
        rw [show pre ++ 0x2A :: 0x2F :: post = (pre ++ [0x2A, 0x2F]) ++ post by simp,
          List.drop_left' (by simp)]
      have tail := ih (by rw [dropped]; simpa [split] using closes.drop (pre.length + 4))
      rw [dropped] at tail ⊢
      have extended : spacingSpan (0x2F :: 0x2A :: body ++ w) =
          2 + (pre.length + 2) + spacingSpan (post ++ w) := by
        rw [List.cons_append, List.cons_append, spacingSpan_comment, split, List.append_assoc,
          List.cons_append, List.cons_append, commentSpan_close open_,
          show pre ++ 0x2A :: 0x2F :: (post ++ w) = (pre ++ [0x2A, 0x2F]) ++ (post ++ w) by simp,
          List.drop_left' (by simp)]
      rw [extended]
      simp only [inner, span, split, List.length_cons, List.length_append] at tail ⊢
      omega
  | case4 b notBlank slash c body notStar =>
    have slash : b = 0x2F := by simpa using slash
    subst slash
    refine .inl ⟨by simp, ?_⟩
    rw [spacingSpan.eq_def]
    simp [isBlank, notStar]
  | case5 b notBlank slash =>
    have slash : b = 0x2F := by simpa using slash
    subst slash
    exact .inl ⟨by simp, spacingSpan_slash pad.inert⟩
  | case6 b rest notBlank notSlash =>
    refine .inl ⟨by simp, ?_⟩
    rw [spacingSpan.eq_def]
    simp [notBlank, notSlash]

/-! ### Tokens that reach the end -/

theorem isBlank_cases {b : UInt8} (h : isBlank b = true) :
    b = 0x20 ∨ b = 0x09 ∨ b = 0x0A ∨ b = 0x0D ∨ b = 0x0C := by
  simp only [isBlank, Bool.or_eq_true, beq_iff_eq] at h
  rcases h with (((same | same) | same) | same) | same <;> simp [same]

/-- A blank or a slash continues no token and is no percent sign, no star and no byte of a
multi-byte character. -/
theorem Inert.facts {after : List UInt8} (h : Inert after) :
    ∀ b ∈ after.head?, isDigit b = false ∧ continuesName b = false ∧ b ≠ 0x2E ∧ b ≠ 0x2B ∧
      b ≠ 0x2D ∧ (b == 0x65 || b == 0x45) = false ∧ b ≠ 0x25 ∧ b ≠ 0x2A ∧ b < 0x80 := by
  intro b mem
  rcases h b mem with blank | rfl
  · rcases isBlank_cases blank with rfl | rfl | rfl | rfl | rfl <;> decide
  · decide

/-- A run of bytes of one class is not lengthened by what cannot continue it. -/
theorem takeWhile_length_append {p : UInt8 → Bool} {after : List UInt8}
    (stop : ∀ b ∈ after.head?, p b = false) (bytes : List UInt8) :
    ((bytes ++ after).takeWhile p).length = (bytes.takeWhile p).length := by
  rw [List.takeWhile_append]
  split
  · rename_i whole
    cases after with
    | nil => simpa using whole.symm
    | cons b more =>
      simp [stop b (by simp), whole]
  · rfl

variable {tail : List UInt8}

theorem digitRun_append_inert (inert : Inert tail) (bytes : List UInt8) :
    digitRun (bytes ++ tail) = digitRun bytes :=
  takeWhile_length_append (fun b mem => (inert.facts b mem).1) bytes

theorem nameRun_append_inert (inert : Inert tail) (bytes : List UInt8) :
    nameRun (bytes ++ tail) = nameRun bytes :=
  takeWhile_length_append (fun b mem => (inert.facts b mem).2.1) bytes

theorem signLen_append_inert (inert : Inert tail) (bytes : List UInt8) :
    signLen (bytes ++ tail) = signLen bytes := by
  cases bytes with
  | cons b more => rfl
  | nil =>
    cases tail with
    | nil => rfl
    | cons b more =>
      obtain ⟨-, -, -, plus, minus, -⟩ := inert.facts b (by simp)
      simp [signLen, plus, minus]

theorem fractionLen_append_inert (inert : Inert tail) (bytes : List UInt8) :
    fractionLen (bytes ++ tail) = fractionLen bytes := by
  cases bytes with
  | cons b more => simp only [List.cons_append, fractionLen, digitRun_append_inert inert]
  | nil =>
    cases tail with
    | nil => rfl
    | cons b more =>
      obtain ⟨-, -, point, -⟩ := inert.facts b (by simp)
      simp [fractionLen, point]

theorem exponentLen_append_inert (inert : Inert tail) (bytes : List UInt8) :
    exponentLen (bytes ++ tail) = exponentLen bytes := by
  cases bytes with
  | cons b more =>
    simp only [List.cons_append, exponentLen, signLen_append_inert inert,
      List.drop_append_of_le_length (signLen_le more), digitRun_append_inert inert]
  | nil =>
    cases tail with
    | nil => rfl
    | cons b more =>
      obtain ⟨-, -, -, -, -, mark, -⟩ := inert.facts b (by simp)
      simp [exponentLen, mark]

/-- A number token reads the same whether the bytes end or a blank or slash follows them: each
part of the token, read in the bytes alone, lies within them. -/
theorem numberSpan_append_inert (inert : Inert tail) (bytes : List UInt8) :
    numberSpan (bytes ++ tail) = numberSpan bytes := by
  have signFits := signLen_le bytes
  have wholeFits := digitRun_le (bytes.drop (signLen bytes))
  have fractionFits := fractionLen_le ((bytes.drop (signLen bytes)).drop
    (digitRun (bytes.drop (signLen bytes))))
  simp only [List.length_drop] at wholeFits fractionFits
  have body : (bytes ++ tail).drop (signLen bytes) = bytes.drop (signLen bytes) ++ tail :=
    List.drop_append_of_le_length signFits
  have afterWhole : (bytes.drop (signLen bytes) ++ tail).drop (digitRun (bytes.drop (signLen bytes))) =
      (bytes.drop (signLen bytes)).drop (digitRun (bytes.drop (signLen bytes))) ++ tail :=
    List.drop_append_of_le_length (by simp; omega)
  have afterFraction : ∀ n, n ≤ bytes.length → (bytes ++ tail).drop n = bytes.drop n ++ tail :=
    fun n fits => List.drop_append_of_le_length fits
  simp only [numberSpan]
  rw [signLen_append_inert inert, body, digitRun_append_inert inert, afterWhole,
    fractionLen_append_inert inert, afterFraction _ (by omega), exponentLen_append_inert inert]

/-- An identifier token reads the same whether the bytes end or a blank or slash follows
them. Only a leading hyphen looks at the next byte, which may be the first of the tail. -/
theorem identifierSpan_append_inert (inert : Inert tail) (bytes : List UInt8) :
    identifierSpan (bytes ++ tail) = identifierSpan bytes := by
  cases bytes with
  | nil =>
    cases tail with
    | nil => rfl
    | cons b more =>
      obtain ⟨-, stops, -, -, hyphen, -⟩ := inert.facts b (by simp)
      have opens : opensName b = false := by
        cases same : opensName b
        · rfl
        · rw [continuesName_of_opensName same] at stops
          cases stops
      simp [identifierSpan, hyphen, opens]
  | cons b rest =>
    simp only [List.cons_append, identifierSpan, nameRun_append_inert inert]
    cases rest with
    | cons c more => simp only [List.cons_append, nameRun_append_inert inert]
    | nil =>
      cases tail with
      | nil => rfl
      | cons c more =>
        obtain ⟨-, stops, -, -, hyphen, -⟩ := inert.facts c (by simp)
        have opens : opensName c = false := by
          cases same : opensName c
          · rfl
          · rw [continuesName_of_opensName same] at stops
            cases stops
        have notHyphen : (c == 0x2D) = false := by simpa using hyphen
        simp only [List.nil_append, notHyphen, opens, Bool.or_false, Bool.false_eq_true, if_false]

end StyleGrammar.Token

namespace StyleGrammar

open Token

/-! ### Character boundaries ahead of a cursor -/

namespace Utf8

/-- A character boundary `n` bytes into the unread rest: the rest ends there, or a character
begins there. -/
def startsAt (rest : List UInt8) (n : Nat) : Bool :=
  match (rest.drop n).head? with
  | none => true
  | some b => !isContinuation b

/-- Where the rest goes on with a blank or a slash, its end is still a boundary. -/
theorem startsAt_append_inert {rest tail : List UInt8} (inert : Inert tail) {n : Nat}
    (fits : n ≤ rest.length) : startsAt (rest ++ tail) n = startsAt rest n := by
  unfold startsAt
  rw [List.drop_append_of_le_length fits]
  cases after : rest.drop n with
  | cons b more => rfl
  | nil =>
    cases tail with
    | nil => rfl
    | cons b more =>
      have ascii := (inert.facts b (by simp)).2.2.2.2.2.2.2.2
      simp [Utf8.isContinuation_of_lt ascii]

end Utf8

namespace Cursor

/-- A position ahead of the cursor is a character boundary exactly when the rest ends there or
a character begins there. -/
theorem isCharBoundary_ahead_eq (c : Cursor) {n : Nat} (fits : n ≤ c.rest.length) :
    Utf8.isCharBoundary c.text (c.pos + n) = Utf8.startsAt c.rest n := by
  unfold Utf8.isCharBoundary Utf8.startsAt
  rw [c.drop_text_ahead n]
  cases after : c.rest.drop n with
  | nil =>
    have gone := congrArg List.length after
    have := c.rest_length
    have := c.pos_le
    simp only [List.length_drop, List.length_nil] at gone
    simp only [List.head?_nil, beq_iff_eq]
    omega
  | cons b more => rfl

/-- Cutting the text ahead of the cursor succeeds exactly when both ends are boundaries, and
gives the decoded bytes. -/
theorem slice_ahead_toOption (c : Cursor) {n : Nat} (fits : n ≤ c.rest.length) :
    (Utf8.slice c.text c.pos (c.pos + n)).toOption =
      if Utf8.startsAt c.rest 0 && Utf8.startsAt c.rest n then decodeUtf8? (c.rest.take n)
      else none := by
  have := c.rest_length
  have := c.pos_le
  have start := c.isCharBoundary_ahead_eq (Nat.zero_le _)
  have stop := c.isCharBoundary_ahead_eq fits
  rw [Nat.add_zero] at start
  unfold Utf8.slice
  rw [if_neg (by omega), if_neg (by omega), if_neg (by omega), start, stop, ← c.rest_eq,
    Nat.add_sub_cancel_left]
  cases Utf8.startsAt c.rest 0 <;> cases Utf8.startsAt c.rest n <;>
    simp only [Bool.not_false, Bool.not_true, Bool.false_eq_true, if_true, if_false,
      Bool.and_false, Bool.and_true, Except.toOption]
  all_goals cases decodeUtf8? (c.rest.take n) <;> rfl

/-- The identifier token at the start of the bytes as text, when both its ends are character
boundaries. -/
def identifierWord? (rest : List UInt8) : Option String :=
  if identifierSpan rest = 0 then none
  else if Utf8.startsAt rest 0 && Utf8.startsAt rest (identifierSpan rest) then
    decodeUtf8? (rest.take (identifierSpan rest))
  else none

/-- Taking an identifier looks only at the unread rest. -/
theorem takeIdentifier?_eq_rest (c : Cursor) :
    c.takeIdentifier? = (identifierWord? c.rest).map fun name =>
      (name, c.forward (identifierSpan c.rest) (identifierSpan_le _)) := by
  rw [takeIdentifier?_eq]
  unfold identifierWord?
  by_cases noName : identifierSpan c.rest = 0
  · rw [if_pos noName]
    simp [identifierText, noName, Except.toOption]
  · rw [if_neg noName]
    have text : c.identifierText.toOption.join =
        (Utf8.slice c.text c.pos (c.pos + identifierSpan c.rest)).toOption := by
      simp only [identifierText, noName, if_false]
      cases Utf8.slice c.text c.pos (c.pos + identifierSpan c.rest) <;> rfl
    rw [text, c.slice_ahead_toOption (identifierSpan_le c.rest)]

/-- The identifier word of bytes followed by a blank, a slash or nothing is the word of the
bytes alone. -/
theorem identifierWord?_append_inert {tail : List UInt8} (inert : Inert tail)
    (bytes : List UInt8) : identifierWord? (bytes ++ tail) = identifierWord? bytes := by
  have fits := identifierSpan_le bytes
  unfold identifierWord?
  rw [identifierSpan_append_inert inert, Utf8.startsAt_append_inert inert (Nat.zero_le _),
    Utf8.startsAt_append_inert inert fits, List.take_append_of_le_length fits]

/-! ### Cursors with padding after them -/

/-- `d` reads the bytes `c` reads followed by `w`, or both have read everything. -/
def Trails (w : List UInt8) (c d : Cursor) : Prop :=
  d.rest = c.rest ++ w ∨ (c.rest = [] ∧ d.rest = [])

/-- The same after insignificant content is skipped: where `c` has bytes left, `d` reads them
followed by `w`; where it has none, neither has `d`. -/
def Settles (w : List UInt8) (c d : Cursor) : Prop :=
  (c.rest ≠ [] ∧ d.rest = c.rest ++ w) ∨ (c.rest = [] ∧ d.rest = [])

variable {w : List UInt8} {c d : Cursor}

theorem Settles.trails (h : Settles w c d) : Trails w c d :=
  h.imp And.right id

/-- Skipping insignificant content settles two cursors with padding after one of them. -/
theorem Trails.skipSpacing (h : Trails w c d) (closes : ClosesComments c.rest) (pad : Padding w) :
    Settles w c.skipSpacing d.skipSpacing := by
  simp only [Settles, skipSpacing_rest]
  rcases h with split | ⟨empty, empty'⟩
  · rw [split]
    rcases spacingSpan_append_padding closes pad with ⟨inside, same⟩ | ⟨whole, through⟩
    · refine .inl ⟨?_, ?_⟩
      · intro gone
        have := congrArg List.length gone
        simp only [List.length_drop, List.length_nil] at this
        omega
      · rw [same, List.drop_append_of_le_length (by omega)]
    · refine .inr ⟨?_, ?_⟩
      · rw [whole, List.drop_length]
      · rw [through]
        simp
  · rw [empty, empty']
    exact .inr ⟨by simp, by simp⟩

/-- Where `d` reads what `c` reads followed by a blank, a slash or nothing, both take the same
number token. -/
theorem takeNumberToken?_append {tail : List UInt8} (inert : Inert tail)
    (split : d.rest = c.rest ++ tail) :
    (c.takeNumberToken? = none ∧ d.takeNumberToken? = none) ∨
      ∃ token c' d', c.takeNumberToken? = some (token, c') ∧ d.takeNumberToken? = some (token, d') ∧
        d'.rest = c'.rest ++ tail := by
  have span : numberSpan d.rest = numberSpan c.rest := by
    rw [split, numberSpan_append_inert inert]
  unfold takeNumberToken?
  split
  · rename_i len found
    split
    · rename_i len' found'
      rw [span, found] at found'
      cases found'
      have fits := numberSpan_le found
      refine .inr ⟨_, _, d.forward len (numberSpan_le found'), rfl, ?_, ?_⟩
      · simp only [Option.some.injEq, Prod.mk.injEq, and_true]
        rw [split, List.take_append_of_le_length fits]
      · simp only [rest_forward, split, List.drop_append_of_le_length fits]
    · rename_i missing
      rw [span, found] at missing
      cases missing
  · rename_i missing
    split
    · rename_i len' found'
      rw [span, missing] at found'
      cases found'
    · exact .inl ⟨rfl, rfl⟩

/-- Where `d` reads what `c` reads followed by a blank, a slash or nothing, both take the same
identifier. -/
theorem takeIdentifier?_append {tail : List UInt8} (inert : Inert tail)
    (split : d.rest = c.rest ++ tail) :
    (c.takeIdentifier? = none ∧ d.takeIdentifier? = none) ∨
      ∃ name c' d', c.takeIdentifier? = some (name, c') ∧ d.takeIdentifier? = some (name, d') ∧
        d'.rest = c'.rest ++ tail := by
  have word : identifierWord? d.rest = identifierWord? c.rest := by
    rw [split, identifierWord?_append_inert inert]
  rw [takeIdentifier?_eq_rest, takeIdentifier?_eq_rest, word]
  cases identifierWord? c.rest with
  | none => exact .inl ⟨rfl, rfl⟩
  | some name =>
    refine .inr ⟨name, _, _, rfl, rfl, ?_⟩
    simp only [rest_forward, split, identifierSpan_append_inert inert,
      List.drop_append_of_le_length (identifierSpan_le c.rest)]

/-- Where only a blank, a slash or nothing is left, no number token is there. -/
theorem takeNumberToken?_of_inert (h : Inert c.rest) : c.takeNumberToken? = none := by
  unfold takeNumberToken?
  split
  · rename_i len found
    rw [← List.nil_append c.rest, numberSpan_append_inert h] at found
    cases found
  · rfl

theorem takeNumber?_of_inert (h : Inert c.rest) : c.takeNumber? = none := by
  simp only [takeNumber?, takeNumberToken?_of_inert h]

/-- Where only a blank, a slash or nothing is left, no identifier is there. -/
theorem takeIdentifier?_of_inert (h : Inert c.rest) : c.takeIdentifier? = none := by
  have noWord : identifierWord? c.rest = none := by
    rw [← List.nil_append c.rest, identifierWord?_append_inert h]
    rfl
  rw [takeIdentifier?_eq_rest, noWord]
  rfl

theorem inert_of_nil (empty : c.rest = []) : Inert c.rest := by
  intro b mem
  rw [empty] at mem
  cases mem

/-- Both cursors take the same number token, or neither does. -/
theorem Trails.takeNumberToken? (h : Trails w c d) (inert : Inert w) :
    (c.takeNumberToken? = none ∧ d.takeNumberToken? = none) ∨
      ∃ token c' d', c.takeNumberToken? = some (token, c') ∧
        d.takeNumberToken? = some (token, d') ∧ Trails w c' d' := by
  rcases h with split | ⟨empty, empty'⟩
  · exact (takeNumberToken?_append inert split).imp id
      fun ⟨token, c', d', taken, taken', rest⟩ => ⟨token, c', d', taken, taken', .inl rest⟩
  · exact .inl ⟨takeNumberToken?_of_inert (inert_of_nil empty),
      takeNumberToken?_of_inert (inert_of_nil empty')⟩

/-- Both cursors take the same number, or neither does. -/
theorem Trails.takeNumber? (h : Trails w c d) (inert : Inert w) :
    (c.takeNumber? = none ∧ d.takeNumber? = none) ∨
      ∃ x c' d', c.takeNumber? = some (x, c') ∧ d.takeNumber? = some (x, d') ∧ Trails w c' d' := by
  unfold Cursor.takeNumber?
  rcases h.takeNumberToken? inert with ⟨missing, missing'⟩ | ⟨token, c', d', taken, taken', rest⟩
  · rw [missing, missing']
    exact .inl ⟨rfl, rfl⟩
  · simp only [taken, taken']
    cases (Decimal.ofToken token).toBinary64? with
    | none => exact .inl ⟨rfl, rfl⟩
    | some x => exact .inr ⟨x, c', d', rfl, rfl, rest⟩

/-- Both cursors take the same identifier, or neither does. -/
theorem Trails.takeIdentifier? (h : Trails w c d) (inert : Inert w) :
    (c.takeIdentifier? = none ∧ d.takeIdentifier? = none) ∨
      ∃ name c' d', c.takeIdentifier? = some (name, c') ∧
        d.takeIdentifier? = some (name, d') ∧ Trails w c' d' := by
  rcases h with split | ⟨empty, empty'⟩
  · exact (takeIdentifier?_append inert split).imp id
      fun ⟨name, c', d', taken, taken', rest⟩ => ⟨name, c', d', taken, taken', .inl rest⟩
  · exact .inl ⟨takeIdentifier?_of_inert (inert_of_nil empty),
      takeIdentifier?_of_inert (inert_of_nil empty')⟩

/-- Where `d` reads what `c` reads followed by `tail`, a byte that `c` has is taken from both,
and past the end of `c` a byte is taken only when `tail` opens with it. -/
theorem takeByte?_append {tail : List UInt8} (split : d.rest = c.rest ++ tail) (b : UInt8)
    (beyond : c.rest = [] → d.takeByte? b = none) :
    (c.takeByte? b = none ∧ d.takeByte? b = none) ∨
      ∃ c' d', c.takeByte? b = some c' ∧ d.takeByte? b = some d' ∧ d'.rest = c'.rest ++ tail := by
  cases rest : c.rest with
  | nil => exact .inl ⟨takeByte?_of_nil rest b, beyond rest⟩
  | cons x more =>
    rw [rest] at split
    by_cases same : x = b
    · subst same
      obtain ⟨c', taken, rest'⟩ := takeByte?_cons rest
      obtain ⟨d', taken', rest''⟩ := takeByte?_cons (split.trans List.cons_append)
      exact .inr ⟨c', d', taken, taken', by rw [rest', rest'']⟩
    · exact .inl ⟨takeByte?_of_ne rest same,
        takeByte?_of_ne (split.trans List.cons_append) same⟩

/-- A byte that is no blank and no slash is taken from both cursors, or from neither: past the
end of `c`, `d` stands at the padding, which does not open with the byte. -/
theorem Trails.takeByte? (h : Trails w c d) (inert : Inert w) {b : UInt8}
    (notPadding : isBlank b = false ∧ b ≠ 0x2F) :
    (c.takeByte? b = none ∧ d.takeByte? b = none) ∨
      ∃ c' d', c.takeByte? b = some c' ∧ d.takeByte? b = some d' ∧ Trails w c' d' := by
  rcases h with split | ⟨empty, empty'⟩
  · refine (takeByte?_append split b fun empty => ?_).imp id
      fun ⟨c', d', taken, taken', rest⟩ => ⟨c', d', taken, taken', .inl rest⟩
    rw [empty, List.nil_append] at split
    cases padding : w with
    | nil => exact takeByte?_of_nil (split.trans padding) b
    | cons x more =>
      rw [padding] at split inert
      refine takeByte?_of_ne split fun same => ?_
      subst same
      rcases inert x (by simp) with blank | slash
      · rw [notPadding.1] at blank
        cases blank
      · exact notPadding.2 slash
  · exact .inl ⟨takeByte?_of_nil empty b, takeByte?_of_nil empty' b⟩

/-- After insignificant content is skipped, any byte is taken from both cursors or from
neither. -/
theorem Settles.takeByte? (h : Settles w c d) (b : UInt8) :
    (c.takeByte? b = none ∧ d.takeByte? b = none) ∨
      ∃ c' d', c.takeByte? b = some c' ∧ d.takeByte? b = some d' ∧ Trails w c' d' := by
  rcases h with ⟨nonempty, split⟩ | ⟨empty, empty'⟩
  · exact (takeByte?_append split b fun empty => absurd empty nonempty).imp id
      fun ⟨c', d', taken, taken', rest⟩ => ⟨c', d', taken, taken', .inl rest⟩
  · exact .inl ⟨takeByte?_of_nil empty b, takeByte?_of_nil empty' b⟩

/-- A percent sign is next at both cursors, or at neither. -/
theorem Trails.percent_iff (h : Trails w c d) (inert : Inert w) :
    (c.byteHere == 0x25) = (d.byteHere == 0x25) := by
  unfold byteHere
  rcases h with split | ⟨empty, empty'⟩
  · rw [split]
    cases rest : c.rest with
    | cons x more => rfl
    | nil =>
      cases w with
      | nil => rfl
      | cons x more =>
        have notPercent := (inert.facts x (by simp)).2.2.2.2.2.2.1
        simp [notPercent]
  · rw [empty, empty']

/-- A dimension follows both cursors, or neither. -/
theorem Trails.atDimension (h : Trails w c d) (inert : Inert w) :
    c.atDimension = d.atDimension := by
  have span : identifierSpan d.rest = identifierSpan c.rest := by
    rcases h with split | ⟨empty, empty'⟩
    · rw [split, identifierSpan_append_inert inert]
    · rw [empty, empty']
  unfold Cursor.atDimension Cursor.identifierAhead
  rw [span, h.percent_iff inert]

/-! ### Moving forward over the same text -/

theorem Ahead.rest_eq_drop (h : c.Ahead d) : d.rest = c.rest.drop (d.pos - c.pos) := by
  rw [d.rest_eq, c.rest_eq, List.drop_drop, h.1, Nat.add_sub_cancel' h.2]

theorem Ahead.closesComments (h : c.Ahead d) (closes : ClosesComments c.rest) :
    ClosesComments d.rest := by
  rw [h.rest_eq_drop]
  exact closes.drop _

/-- A cursor that moved forward over the same text stayed exactly when its rest kept its
length. -/
theorem Ahead.pos_eq_iff (h : c.Ahead d) : d.pos = c.pos ↔ d.rest.length = c.rest.length := by
  have within := d.pos_le
  have onward := h.2
  rw [h.1] at within
  rw [d.rest_length, c.rest_length, h.1]
  omega

theorem Ahead.rest_nil (h : c.Ahead d) (empty : c.rest = []) : d.rest = [] := by
  rw [h.rest_eq_drop, empty, List.drop_nil]

/-- **A step stays on both cursors or on neither.** Two cursors related by padding before a
step, and after it; the second does not move over padding where the first has read everything. -/
theorem Trails.stays_iff {c' d' : Cursor} (start : Trails w c d) (finish : Trails w c' d')
    (ahead : c.Ahead c') (ahead' : d.Ahead d') (still : c.rest = [] → d'.rest = d.rest) :
    c'.pos = c.pos ↔ d'.pos = d.pos := by
  rw [ahead.pos_eq_iff, ahead'.pos_eq_iff]
  rcases start with split | ⟨empty, empty'⟩
  · rcases finish with split' | ⟨gone, gone'⟩
    · rw [split, split']
      simp
    · rw [gone, gone', split]
      by_cases ended : c.rest = []
      · have stays := still ended
        rw [gone', split, ended] at stays
        rw [ended, ← stays]
      · have : 0 < c.rest.length := List.length_pos_iff.2 ended
        simp only [List.length_nil, List.length_append]
        omega
  · rw [ahead.rest_nil empty, ahead'.rest_nil empty', empty, empty']

/-! ### Padding at the end -/
/-- Where the first cursor has read everything, only padding is left at the second. -/
theorem Trails.padding_of_nil (h : Trails w c d) (pad : Padding w) (empty : c.rest = []) :
    Padding d.rest := by
  rcases h with split | ⟨-, empty'⟩
  · rw [split, empty, List.nil_append]
    exact pad
  · rw [empty']
    exact .nil

/-- Over padding, skipping insignificant content reaches the end. -/
theorem skipSpacing_rest_of_padding (pad : Padding c.rest) : c.skipSpacing.rest = [] := by
  rw [skipSpacing_rest, spacingSpan_of_insignificant pad.insignificant, List.drop_length]

/-- The cursors where a loop looks for its next item trail each other. -/
theorem Trails.before (h : Trails w c d) (closes : ClosesComments c.rest) (pad : Padding w)
    (skip : Bool) :
    Trails w (if skip then c.skipSpacing else c) (if skip then d.skipSpacing else d) := by
  cases skip
  · exact h
  · exact (h.skipSpacing closes pad).trails

theorem closesComments_before (closes : ClosesComments c.rest) (skip : Bool) :
    ClosesComments (if skip then c.skipSpacing else c).rest := by
  cases skip
  · exact closes
  · exact c.ahead_skipSpacing.closesComments closes

theorem Trails.of_rest_eq {d' : Cursor} (h : Trails w c d) (same : d.rest = d'.rest) :
    Trails w c d' := by
  unfold Trails
  rw [← same]
  exact h

/-- Two cursors with padding between them reach the end of content together. -/
theorem Trails.atEndOfContent (h : Trails w c d) (closes : ClosesComments c.rest)
    (pad : Padding w) : c.atEndOfContent = d.atEndOfContent := by
  unfold Cursor.atEndOfContent atEnd
  rcases h.skipSpacing closes pad with ⟨nonempty, split⟩ | ⟨empty, empty'⟩
  · rw [split]
    cases rest : c.skipSpacing.rest with
    | nil => exact absurd rest nonempty
    | cons x more => rfl
  · rw [empty, empty']

/-- `inherit` stands alone at both cursors or at neither. -/
theorem Trails.inheritAlone (h : Trails w c d) (closes : ClosesComments c.rest)
    (pad : Padding w) : c.inheritAlone = d.inheritAlone := by
  unfold Cursor.inheritAlone
  rw [takeKeyword?_eq, takeKeyword?_eq]
  rcases h.takeIdentifier? pad.inert with
    ⟨missing, missing'⟩ | ⟨name, c', d', taken, taken', after⟩
  · rw [missing, missing']
  · rw [taken, taken']
    by_cases keyword : CasePolicy.equal .asciiInsensitive name "inherit" = true
    · simp only [Option.bind_some, keyword, if_true]
      exact after.atEndOfContent ((ahead_of_takeIdentifier? taken).closesComments closes) pad
    · simp only [Option.bind_some, keyword, Bool.false_eq_true, if_false]

/-- Past the opening padding, a text with padding on both sides stands where the text alone
stands, with the closing padding after it: the opening padding is skipped together with the
spacing that opens the text. -/
theorem start_trails {pre text post : List UInt8} (closes : ClosesComments text)
    (pad₁ : Padding pre) (pad₂ : Padding post) :
    Trails post (ofBytes text).skipSpacing (ofBytes (pre ++ text ++ post)).skipSpacing := by
  have whole : Trails post (ofBytes text) (ofBytes (text ++ post)) := .inl rfl
  have settles := whole.skipSpacing closes pad₂
  refine settles.trails.of_rest_eq ?_
  have span := spacingSpan_padding_append pad₁ (text ++ post)
  rw [skipSpacing_rest, skipSpacing_rest]
  change (text ++ post).drop (spacingSpan (text ++ post)) =
    (pre ++ text ++ post).drop (spacingSpan (pre ++ text ++ post))
  rw [List.append_assoc, span, ← List.drop_drop, List.drop_append_length]

end Cursor

end StyleGrammar
