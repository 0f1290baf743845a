import StyleGrammar.Proofs.Utf8Text
import StyleGrammar.Proofs.Rereadable

/-!
**The cursor stays on character boundaries.**

A cursor over a text stops only where a character begins or the text ends: a number token ends
with a digit, an identifier ends before a byte that continues no name, spacing ends with a blank
or a slash or at the end, and a position the cursor goes back to is one it stood at. So the unread
rest, the text between two positions it stood at, and the identifier or number ahead can always
be cut out. Taking a byte that leads a character of two bytes or more is the one move that
leaves a boundary.

* `Token.Lands`: a scan of `n` bytes stops at a boundary of any valid text that holds them, as
  the number, identifier and spacing scans do;
* `Cursor.OnBoundary`: the cursor reads valid bytes and stands at a boundary of them, kept by
  every token taker and, through `Reader.Keeps`, by every grammar's reader
  (`Grammar.read_onBoundary`); a byte taken keeps it exactly when the byte is below `0xC0`
  (`Cursor.OnBoundary.takeByte?_iff`);
* `Cursor.Move`, `Cursor.Move.runFrom`: the moves a caller makes on a cursor, and a run of them;
* `Cursor.runFrom_stays_on_boundaries`: a run that takes no leading byte and goes back only to
  positions it reached keeps the cursor on boundaries, and every cut succeeds;
* `Cursor.eating_lead_byte_splits_character`: taking the leading byte of `é` leaves the cursor
  inside it.
-/

namespace StyleGrammar.Token

/-- A scan of `n` bytes stops where every valid text that holds them has a character boundary:
it took nothing, its last byte is ASCII, or the byte after it begins a character or the bytes end
there. -/
def Lands (bytes : List UInt8) (n : Nat) : Prop :=
  n = 0 ∨ (∃ b, bytes[n - 1]? = some b ∧ b < 0x80) ∨
    ∀ b ∈ (bytes.drop n).head?, Utf8.isContinuation b = false

namespace Lands

variable {bytes : List UInt8} {k m : Nat}

/-- A scan that stops after another lands where the second one lands, or where the first one
does when the second takes nothing. -/
theorem add (first : m = 0 → Lands bytes k) (second : Lands (bytes.drop k) m) :
    Lands bytes (k + m) := by
  rcases second with zero | ⟨b, found, ascii⟩ | starts
  · subst zero
    exact first rfl
  · cases m with
    | zero => exact first rfl
    | succ m =>
      rw [List.getElem?_drop, Nat.add_sub_cancel] at found
      exact .inr (.inl ⟨b, by rw [← Nat.add_assoc, Nat.add_sub_cancel]; exact found, ascii⟩)
  · rw [List.drop_drop] at starts
    exact .inr (.inr starts)

/-- An ASCII byte and then a scan that lands. -/
theorem cons_ascii {x : UInt8} {rest : List UInt8} {n : Nat} (ascii : x < 0x80)
    (h : Lands rest n) : Lands (x :: rest) (1 + n) :=
  add (fun _ => .inr (.inl ⟨x, rfl, ascii⟩)) (by rwa [List.drop_one, List.tail_cons])

end Lands

theorem ascii_of_isDigit {b : UInt8} (digit : isDigit b = true) : b < 0x80 := by
  simp only [isDigit, Bool.and_eq_true, decide_eq_true_eq, UInt8.le_iff_toNat_le] at digit
  rw [UInt8.lt_iff_toNat_lt]
  simp only [UInt8.reduceToNat] at digit ⊢
  omega

theorem ascii_of_isBlank {b : UInt8} (blank : isBlank b = true) : b < 0x80 := by
  simp only [isBlank, Bool.or_eq_true, beq_iff_eq] at blank
  rcases blank with (((rfl | rfl) | rfl) | rfl) | rfl <;> decide

/-- A run of digits ends with a digit. -/
theorem digitRun_lands (bytes : List UInt8) : Lands bytes (digitRun bytes) := by
  induction bytes with
  | nil => exact .inl rfl
  | cons b rest ih =>
    unfold digitRun at ih ⊢
    by_cases digit : isDigit b = true
    · rw [List.takeWhile_cons_of_pos digit, List.length_cons, Nat.add_comm]
      exact .cons_ascii (ascii_of_isDigit digit) ih
    · rw [List.takeWhile_cons_of_neg digit]
      exact .inl rfl

theorem fractionLen_lands (bytes : List UInt8) : Lands bytes (fractionLen bytes) := by
  cases bytes with
  | nil => exact .inl rfl
  | cons b rest =>
    simp only [fractionLen]
    split
    · split
      · exact .inl rfl
      · rename_i point _
        have point : b = 0x2E := by simpa using point
        subst point
        exact .cons_ascii (by decide) (digitRun_lands rest)
    · exact .inl rfl

/-- An exponent ends with its digits, after its mark and its sign. -/
theorem exponentLen_lands (bytes : List UInt8) : Lands bytes (exponentLen bytes) := by
  cases bytes with
  | nil => exact .inl rfl
  | cons b rest =>
    simp only [exponentLen]
    split
    · split
      · exact .inl rfl
      · rename_i digits
        refine Lands.add (fun zero => absurd zero digits) ?_
        rw [Nat.add_comm, List.drop_succ_cons]
        exact digitRun_lands _
    · exact .inl rfl

/-- **A number token ends with a digit**: one of its exponent, of its fraction, or, without a
fraction, of its whole part. -/
theorem numberSpan_lands {bytes : List UInt8} {n : Nat} (h : numberSpan bytes = some n) :
    Lands bytes n := by
  simp only [numberSpan] at h
  split at h
  · cases h
  · rename_i written
    cases h
    refine Lands.add (fun _ => ?_) (exponentLen_lands _)
    by_cases fraction : fractionLen ((bytes.drop (signLen bytes)).drop
        (digitRun (bytes.drop (signLen bytes)))) = 0
    · rw [fraction, Nat.add_zero]
      refine Lands.add (fun zero => absurd (by omega) written) (digitRun_lands _)
    · refine Lands.add (fun zero => absurd zero fraction) ?_
      rw [← List.drop_drop]
      exact fractionLen_lands _

/-- A name ends before a byte that continues no name, and such a byte is ASCII. -/
theorem nameRun_stops (bytes : List UInt8) :
    ∀ b ∈ (bytes.drop (nameRun bytes)).head?, Utf8.isContinuation b = false := by
  induction bytes with
  | nil => intro b mem; cases mem
  | cons b rest ih =>
    unfold nameRun at ih ⊢
    by_cases continues : continuesName b = true
    · rw [List.takeWhile_cons_of_pos continues, List.length_cons, List.drop_succ_cons]
      exact ih
    · rw [List.takeWhile_cons_of_neg continues]
      intro x mem
      simp only [List.length_nil, List.drop_zero, List.head?_cons, Option.mem_def,
        Option.some.injEq] at mem
      subst mem
      exact Utf8.isContinuation_of_lt (lt_of_continuesName_eq_false (by simpa using continues))

/-- **An identifier token ends before a byte that begins a character.** -/
theorem identifierSpan_lands (bytes : List UInt8) : Lands bytes (identifierSpan bytes) := by
  cases bytes with
  | nil => exact .inl rfl
  | cons b rest =>
    simp only [identifierSpan]
    split
    · cases rest with
      | nil => exact .inl rfl
      | cons c more =>
        simp only
        split
        · refine .inr (.inr ?_)
          rw [Nat.add_comm, List.drop_succ_cons, List.drop_succ_cons]
          exact nameRun_stops more
        · exact .inl rfl
    · split
      · refine .inr (.inr ?_)
        rw [Nat.add_comm, List.drop_succ_cons]
        exact nameRun_stops rest
      · exact .inl rfl

theorem commentSpan_ne_zero (b : UInt8) (rest : List UInt8) : commentSpan (b :: rest) ≠ 0 := by
  unfold commentSpan
  split
  · split <;> omega
  · omega

/-- A comment body ends with its closing slash, or at the end of the bytes. -/
theorem commentSpan_lands (bytes : List UInt8) : Lands bytes (commentSpan bytes) := by
  induction bytes with
  | nil => exact .inl rfl
  | cons b rest ih =>
    cases rest with
    | nil => exact .inr (.inr (by simp [commentSpan]))
    | cons c more =>
      rw [commentSpan_cons_cons]
      split
      · rename_i close
        have slash : c = 0x2F := by simp at close; exact close.2
        exact .inr (.inl ⟨c, by simp, by rw [slash]; decide⟩)
      · exact Lands.add (fun zero => absurd zero (commentSpan_ne_zero c more)) ih

/-- **Spacing ends with a blank, with a closing slash, or at the end of the bytes.** A comment's
opener is ASCII, so a comment lands where its body does. -/
theorem spacingSpan_lands (bytes : List UInt8) : Lands bytes (spacingSpan bytes) := by
  fun_induction spacingSpan bytes with
  | case1 => exact .inl rfl
  | case2 b rest blank ih => exact .cons_ascii (ascii_of_isBlank blank) ih
  | case3 b notBlank slash c body star bounded inner ih =>
    have slash : b = 0x2F := by simpa using slash
    have star : c = 0x2A := by simpa using star
    subst slash star
    have tail :
        Lands ((0x2F :: 0x2A :: body).drop (2 + inner)) (spacingSpan (body.drop inner)) := by
      rwa [show 2 + inner = inner + 1 + 1 by omega, List.drop_succ_cons, List.drop_succ_cons]
    refine Lands.add (fun _ => ?_) tail
    rw [show 2 + inner = 1 + (1 + inner) by omega]
    exact .cons_ascii (by decide) (.cons_ascii (by decide) (commentSpan_lands body))
  | _ => exact .inl rfl

end StyleGrammar.Token

namespace StyleGrammar

open Token

theorem Utf8.lt_of_isContinuation_eq_false {b : UInt8} (lead : Utf8.isContinuation b = false)
    (low : b < 0xC0) : b < 0x80 := by
  simp only [Utf8.isContinuation, Bool.and_eq_false_iff, decide_eq_false_iff_not,
    UInt8.le_iff_toNat_le, UInt8.lt_iff_toNat_lt] at lead low ⊢
  simp only [UInt8.reduceToNat] at lead low ⊢
  omega

theorem Separator.byte_lt (separator : Separator) : separator.byte < 0x80 := by
  have allowed := separator.valid
  simp only [separatorAllowed, isAsciiPunctuation, Bool.and_eq_true, Bool.or_eq_true,
    decide_eq_true_eq, UInt8.le_iff_toNat_le] at allowed
  rw [UInt8.lt_iff_toNat_lt]
  simp only [UInt8.reduceToNat] at allowed ⊢
  omega

namespace Cursor

/-- The cursor reads valid UTF-8 and stands at a character boundary of it. -/
def OnBoundary (c : Cursor) : Prop :=
  Utf8.Valid c.text ∧ Utf8.isCharBoundary c.text c.pos = true

variable {c d : Cursor}

/-- A keyword taken is an identifier taken. -/
theorem takeIdentifier?_of_takeKeyword? {policy : CasePolicy} {keyword : String}
    (taken : c.takeKeyword? policy keyword = some d) :
    ∃ name, c.takeIdentifier? = some (name, d) := by
  rw [takeKeyword?_eq] at taken
  obtain ⟨⟨name, next⟩, found, kept⟩ := Option.bind_eq_some_iff.1 taken
  simp only [Option.ite_none_right_eq_some] at kept
  obtain ⟨_, same⟩ := kept
  cases same
  exact ⟨name, found⟩

namespace OnBoundary

/-- The byte at a boundary begins a character. -/
theorem head_lead (h : c.OnBoundary) {x : UInt8} {more : List UInt8} (found : c.rest = x :: more) :
    Utf8.isContinuation x = false := by
  have bound := h.2
  unfold Utf8.isCharBoundary at bound
  rw [← c.rest_eq, found] at bound
  simpa using bound

/-- A scan that lands, made from a boundary, ends on a boundary: the scan's last byte is ASCII,
so a character begins right after it. -/
theorem isCharBoundary_of_lands (h : c.OnBoundary) {n : Nat} (fits : n ≤ c.rest.length)
    (lands : Lands c.rest n) : Utf8.isCharBoundary c.text (c.pos + n) = true := by
  rcases lands with zero | ⟨b, found, ascii⟩ | starts
  · rw [zero, Nat.add_zero]
    exact h.2
  · cases n with
    | zero => exact h.2
    | succ m =>
      rw [c.rest_eq, List.getElem?_drop, Nat.add_sub_cancel] at found
      rw [← Nat.add_assoc]
      exact h.1.isCharBoundary_succ found ascii
  · exact c.isCharBoundary_ahead fits starts

theorem forward (h : c.OnBoundary) {n : Nat} (fits : n ≤ c.rest.length) (lands : Lands c.rest n) :
    (c.forward n fits).OnBoundary :=
  ⟨h.1, h.isCharBoundary_of_lands fits lands⟩

theorem skipSpacing (h : c.OnBoundary) : c.skipSpacing.OnBoundary :=
  h.forward _ (spacingSpan_lands c.rest)

theorem of_takeNumberToken? (h : c.OnBoundary) {token : List UInt8}
    (taken : c.takeNumberToken? = some (token, d)) : d.OnBoundary := by
  unfold takeNumberToken? at taken
  split at taken
  · rename_i len found
    cases taken
    exact h.forward _ (numberSpan_lands found)
  · cases taken

theorem of_takeNumber? (h : c.OnBoundary) {x : Binary64} (taken : c.takeNumber? = some (x, d)) :
    d.OnBoundary := by
  unfold takeNumber? at taken
  split at taken
  · rename_i token next found
    obtain ⟨y, _, same⟩ := Option.map_eq_some_iff.1 taken
    cases same
    exact h.of_takeNumberToken? found
  · cases taken

theorem of_takeIdentifier? (h : c.OnBoundary) {name : String}
    (taken : c.takeIdentifier? = some (name, d)) : d.OnBoundary := by
  rw [(takeIdentifier?_eq_some taken).2]
  exact h.forward _ (identifierSpan_lands c.rest)

theorem of_takeKeyword? (h : c.OnBoundary) {policy : CasePolicy} {keyword : String}
    (taken : c.takeKeyword? policy keyword = some d) : d.OnBoundary := by
  obtain ⟨name, found⟩ := takeIdentifier?_of_takeKeyword? taken
  exact h.of_takeIdentifier? found

/-- Taking a byte keeps the cursor on a boundary unless the byte leads a character of two bytes
or more: at a boundary a continuation byte is never next, and an ASCII byte is a whole
character. -/
theorem of_takeByte? (h : c.OnBoundary) {b : UInt8} (low : b < 0xC0)
    (taken : c.takeByte? b = some d) : d.OnBoundary := by
  unfold takeByte? at taken
  split at taken
  · rename_i x more found
    split at taken
    · rename_i same
      cases taken
      have same : x = b := by simpa using same
      have ascii : x < 0x80 :=
        Utf8.lt_of_isContinuation_eq_false (h.head_lead found) (same ▸ low)
      exact h.forward _ (.inr (.inl ⟨x, by simp [found], ascii⟩))
    · cases taken
  · cases taken

end OnBoundary

theorem head_of_takeByte? {b : UInt8} (taken : c.takeByte? b = some d) :
    ∃ more, c.rest = b :: more := by
  unfold takeByte? at taken
  split at taken
  · rename_i x more found
    split at taken
    · rename_i same
      exact ⟨more, by rw [found, show x = b by simpa using same]⟩
    · cases taken
  · cases taken

/-- **Taking a byte from a boundary keeps the cursor on one exactly when the byte is below
`0xC0`**: a byte from `0xC0` up leads a character of two bytes or more, and the cursor stops
inside that character. -/
theorem OnBoundary.takeByte?_iff (h : c.OnBoundary) {b : UInt8} (taken : c.takeByte? b = some d) :
    d.OnBoundary ↔ b < 0xC0 := by
  refine ⟨fun on => ?_, fun low => h.of_takeByte? low taken⟩
  obtain ⟨more, found⟩ := head_of_takeByte? taken
  have head : c.text[c.pos]? = some b := by
    have first : c.rest[0]? = some b := by rw [found]; rfl
    rwa [c.rest_eq, List.getElem?_drop, Nat.add_zero] at first
  refine Decidable.byContradiction fun high => ?_
  have lead : 0x80 ≤ b := by
    rw [UInt8.lt_iff_toNat_lt] at high
    rw [UInt8.le_iff_toNat_le]
    simp only [UInt8.reduceToNat] at high ⊢
    omega
  have bound := on.2
  rw [pos_of_takeByte? taken, (ahead_of_takeByte? taken).1,
    h.1.isCharBoundary_succ_lead h.2 head lead] at bound
  cases bound

theorem returnTo_of_isCharBoundary {pos : Nat} (fits : pos ≤ c.text.length)
    (bound : Utf8.isCharBoundary c.text pos = true) : c.returnTo pos = .ok (c.moveTo pos fits) := by
  unfold returnTo
  rw [dif_neg (by omega), if_neg (by simp [bound])]

/-! ### Cuts from a boundary -/

namespace OnBoundary

theorem restText_ok (h : c.OnBoundary) : ∃ s, c.restText = .ok s :=
  h.1.slice_ok h.2 (Utf8.isCharBoundary_length _) c.pos_le (Nat.le_refl _)

/-- A cut ahead of the cursor to where a landing scan stops is a piece of text. -/
theorem slice_lands (h : c.OnBoundary) {n : Nat} (fits : n ≤ c.rest.length)
    (lands : Lands c.rest n) : ∃ s, Utf8.slice c.text c.pos (c.pos + n) = .ok s :=
  h.1.slice_ok h.2 (h.isCharBoundary_of_lands fits lands) (Nat.le_add_right _ _)
    (by have := c.rest_length; have := c.pos_le; omega)

theorem identifierText_ok (h : c.OnBoundary) : ∃ found, c.identifierText = .ok found := by
  simp only [identifierText]
  split
  · exact ⟨none, rfl⟩
  · obtain ⟨s, cut⟩ := h.slice_lands (identifierSpan_le _) (identifierSpan_lands c.rest)
    exact ⟨some s, by simp [cut, Except.map]⟩

theorem numberText_ok (h : c.OnBoundary) : ∃ found, c.numberText = .ok found := by
  unfold numberText
  split
  · rename_i len found
    obtain ⟨s, cut⟩ := h.slice_lands (numberSpan_le found) (numberSpan_lands found)
    exact ⟨some s, by simp [cut, Except.map]⟩
  · exact ⟨none, rfl⟩

theorem takeIdentifierText_ok (h : c.OnBoundary) : ∃ found, c.takeIdentifierText = .ok found := by
  obtain ⟨found, text⟩ := h.identifierText_ok
  refine ⟨found.map fun name => (name, c.forward _ (identifierSpan_le _)), ?_⟩
  rw [takeIdentifierText, text]
  rfl

theorem takeKeywordText_ok (h : c.OnBoundary) (policy : CasePolicy) (keyword : String) :
    ∃ found, c.takeKeywordText policy keyword = .ok found := by
  obtain ⟨found, taken⟩ := h.takeIdentifierText_ok
  rw [takeKeywordText, taken]
  exact ⟨_, rfl⟩

end OnBoundary

/-- The text between two boundaries of valid bytes, given in either order, is a piece of text. -/
theorem sliceText_ok (valid : Utf8.Valid c.text) {a b : Nat} (fitsA : a ≤ c.text.length)
    (fitsB : b ≤ c.text.length) (boundA : Utf8.isCharBoundary c.text a = true)
    (boundB : Utf8.isCharBoundary c.text b = true) : ∃ s, c.sliceText a b = .ok s := by
  rcases Nat.le_total a b with ordered | ordered
  · rw [c.sliceText_of_le ordered]
    exact valid.slice_ok boundA boundB ordered fitsB
  · rw [c.sliceText_comm, c.sliceText_of_le ordered]
    exact valid.slice_ok boundB boundA ordered fitsA

end Cursor

end StyleGrammar

namespace StyleGrammar

/-! ### Readers keep the cursor on boundaries -/

/-- The reader keeps a property of cursors: from a cursor that has it, it leaves one that has
it, whether it reads a value or not. -/
def Reader.Keeps (P : Cursor → Prop) (step : Reader) : Prop :=
  ∀ c, P c → P (step c).2

section Keeps

variable {P : Cursor → Prop} {step : Reader}

theorem readRunFrom_keeps (skips : ∀ c, P c → P c.skipSpacing) (keeps : step.Keeps P) :
    ∀ (limit : Nat) (skip : Bool) (c : Cursor), P c → P (readRunFrom step limit skip c).2 := by
  intro limit
  induction limit with
  | zero => exact fun _ _ h => h
  | succ limit ih =>
    intro skip c h
    have start : P (if skip then c.skipSpacing else c) := by
      cases skip
      · exact h
      · exact skips c h
    simp only [readRunFrom]
    generalize (if skip then c.skipSpacing else c) = before at start ⊢
    have next := keeps before start
    cases reading : step before with
    | mk result d =>
      rw [reading] at next
      cases result with
      | none => exact h
      | some v =>
        simp only
        split
        · exact next
        · exact ih true d next

theorem readSeparated_keeps (skips : ∀ c, P c → P c.skipSpacing) {separator : UInt8}
    (takes : ∀ c d, P c → c.takeByte? separator = some d → P d) (keeps : step.Keeps P) :
    ∀ (fuel : Nat) (c : Cursor), P c → P (readSeparated step separator fuel c).2 := by
  intro fuel
  induction fuel with
  | zero => exact fun _ h => h
  | succ fuel ih =>
    intro c h
    simp only [readSeparated]
    cases taken : c.skipSpacing.takeByte? separator with
    | none => exact h
    | some after =>
      have next := keeps _ (skips _ (takes _ _ (skips c h) taken))
      simp only
      cases reading : step after.skipSpacing with
      | mk result d =>
        rw [reading] at next
        cases result with
        | none => exact h
        | some v => exact ih d next

namespace Reader

theorem repetition_keeps (skips : ∀ c, P c → P c.skipSpacing) (keeps : step.Keeps P)
    (bounds : Bounds) : (Reader.repetition step bounds).Keeps P := by
  intro c h
  simp only [Reader.repetition]
  split
  · exact h
  · exact readRunFrom_keeps skips keeps _ _ c h

theorem shorthand_keeps (skips : ∀ c, P c → P c.skipSpacing) (keeps : step.Keeps P)
    (arity : Nat) : (Reader.shorthand step arity).Keeps P := by
  intro c h
  simp only [Reader.shorthand]
  split
  · exact readRunFrom_keeps skips keeps _ _ c h
  · exact h

theorem separated_keeps (skips : ∀ c, P c → P c.skipSpacing) {separator : Separator}
    (takes : ∀ c d, P c → c.takeByte? separator.byte = some d → P d) (keeps : step.Keeps P) :
    (Reader.separated step separator).Keeps P := by
  intro c h
  have first := keeps c h
  simp only [Reader.separated]
  split
  · rename_i v afterFirst found
    rw [found] at first
    exact readSeparated_keeps skips takes keeps _ afterFirst first
  · exact h

theorem maybe_keeps (keeps : step.Keeps P) : (Reader.maybe step).Keeps P := by
  intro c h
  have next := keeps c h
  simp only [Reader.maybe]
  split
  · rename_i v d found
    rw [found] at next
    exact next
  · exact h

theorem orDefault_keeps (keeps : step.Keeps P) (default : Value) :
    (Reader.orDefault step default).Keeps P := by
  intro c h
  have next := keeps c h
  simp only [Reader.orDefault]
  split
  · rename_i v d found
    rw [found] at next
    exact next
  · exact h

/-- An alternative keeps a property of cursors that both readers keep: the second reader starts
wherever the first one left the cursor. -/
theorem orElse_keeps {first second : Reader} (keeps : first.Keeps P) (keeps' : second.Keeps P) :
    (Reader.orElse first second).Keeps P := by
  intro c h
  have next := keeps c h
  simp only [Reader.orElse]
  split
  · rename_i v d found
    rw [found] at next
    exact next
  · rename_i after found
    rw [found] at next
    exact keeps' after next

theorem fail_keeps : Reader.fail.Keeps P :=
  fun _ h => h

end Reader

end Keeps

namespace Grammar

mutual

/-- **A property that spacing, separators and every leaf keep, every grammar's reader keeps.** -/
theorem read_keeps {P : Cursor → Prop} (skips : ∀ c, P c → P c.skipSpacing)
    (takes : ∀ (separator : Separator) c d, P c → c.takeByte? separator.byte = some d → P d)
    (leaves : ∀ kind : Leaf, kind.read.Keeps P)
    (tables : ∀ table : KeywordTable, table.read.Keeps P) : (g : Grammar) → g.read.Keeps P
  | leaf kind => leaves kind
  | keyword table => tables table
  | repetition inner _ =>
    Reader.repetition_keeps skips (read_keeps skips takes leaves tables inner) _
  | shorthand inner _ => Reader.shorthand_keeps skips (read_keeps skips takes leaves tables inner) _
  | separated inner separator =>
    Reader.separated_keeps skips (takes separator) (read_keeps skips takes leaves tables inner)
  | maybe inner => Reader.maybe_keeps (read_keeps skips takes leaves tables inner)
  | orDefault inner _ => Reader.orDefault_keeps (read_keeps skips takes leaves tables inner) _
  | named inner _ => read_keeps skips takes leaves tables inner
  | choice alternatives => readFirst_keeps skips takes leaves tables alternatives

theorem readFirst_keeps {P : Cursor → Prop} (skips : ∀ c, P c → P c.skipSpacing)
    (takes : ∀ (separator : Separator) c d, P c → c.takeByte? separator.byte = some d → P d)
    (leaves : ∀ kind : Leaf, kind.read.Keeps P)
    (tables : ∀ table : KeywordTable, table.read.Keeps P) :
    (gs : List Grammar) → (readFirst gs).Keeps P
  | [] => Reader.fail_keeps
  | g :: gs => Reader.orElse_keeps (read_keeps skips takes leaves tables g)
    (readFirst_keeps skips takes leaves tables gs)

end

end Grammar

open Cursor

theorem Leaf.read_onBoundary (kind : Leaf) : kind.read.Keeps OnBoundary := by
  intro c h
  cases kind with
  | number =>
    simp only [Leaf.read]
    split
    · rename_i x next taken
      split
      · exact h
      · exact h.of_takeNumber? taken
    · exact h
  | integer =>
    simp only [Leaf.read]
    split
    · rename_i token next taken
      split
      · exact h
      · split
        · split
          · exact h
          · exact h.of_takeNumberToken? taken
        · exact h
    · exact h
  | length =>
    simp only [Leaf.read]
    split
    · rename_i x next taken
      have next_on := h.of_takeNumber? taken
      split
      · rename_i name after unit
        split
        · exact next_on.of_takeIdentifier? unit
        · exact h
      · split
        · exact next_on
        · exact h
    · exact h
  | percentage =>
    simp only [Leaf.read]
    split
    · rename_i x next taken
      split
      · rename_i after percent
        exact (h.of_takeNumber? taken).of_takeByte? (by decide) percent
      · exact h
    · exact h
  | identifier =>
    simp only [Leaf.read]
    split
    · rename_i name next taken
      exact h.of_takeIdentifier? taken
    · exact h

theorem KeywordTable.read_onBoundary (table : KeywordTable) : table.read.Keeps OnBoundary := by
  intro c h
  simp only [KeywordTable.read]
  split
  · rename_i name next taken
    split
    · exact h.of_takeIdentifier? taken
    · exact h
  · exact h

/-- **Every grammar's reader leaves the cursor on a boundary when it starts on one.** -/
theorem Grammar.read_onBoundary (g : Grammar) : g.read.Keeps OnBoundary :=
  g.read_keeps (fun _ h => h.skipSpacing)
    (fun separator _ _ h taken =>
      h.of_takeByte? (UInt8.lt_trans separator.byte_lt (by decide)) taken)
    Leaf.read_onBoundary KeywordTable.read_onBoundary

end StyleGrammar

namespace StyleGrammar

namespace Cursor

/-! ### Sessions: a caller's moves on one cursor -/

/-- One move a caller makes on a cursor: skip spacing, take an identifier, a number, a byte or a
keyword, go back to a position, or read a grammar's value. -/
inductive Move where
  | skip
  | identifier
  | number
  | byte (b : UInt8)
  | keyword (policy : CasePolicy) (word : String)
  | rewind (pos : Nat)
  | attempt (g : Grammar)

/-- Why a move fails: a cut of the text that is no piece of text, or a refused position. -/
inductive Fault where
  | cut (e : SliceError)
  | moved (e : MoveError)
  deriving DecidableEq, Repr

namespace Move

/-- The cursor after a move; a move that finds nothing leaves the cursor where it was. -/
def perform (c : Cursor) : Move → Except Fault Cursor
  | skip => .ok c.skipSpacing
  | identifier =>
    match c.takeIdentifierText with
    | .ok (some (_, next)) => .ok next
    | .ok none => .ok c
    | .error e => .error (.cut e)
  | number => .ok ((c.takeNumber?.map Prod.snd).getD c)
  | byte b => .ok ((c.takeByte? b).getD c)
  | keyword policy word =>
    match c.takeKeywordText policy word with
    | .ok (some next) => .ok next
    | .ok none => .ok c
    | .error e => .error (.cut e)
  | rewind pos => (c.returnTo pos).mapError .moved
  | attempt g => .ok (g.read c).2

/-- The moves made in order from `c`, each position the cursor reaches put in front of `seen`;
the first fault ends the run. -/
def runFrom (seen : List Nat) (c : Cursor) : List Move → Except Fault (Cursor × List Nat)
  | [] => .ok (c, seen)
  | m :: ms =>
    match m.perform c with
    | .ok d => runFrom (d.pos :: seen) d ms
    | .error e => .error e

/-- A move that takes no byte leading a character of two bytes or more, and goes back only to
a position in `seen`. -/
def Fair (seen : List Nat) : Move → Prop
  | byte b => b < 0xC0
  | rewind pos => pos ∈ seen
  | _ => True

/-- Each move of the run is fair when it is made, against the positions reached so far. -/
def FairRun (seen : List Nat) (c : Cursor) : List Move → Prop
  | [] => True
  | m :: ms => m.Fair seen ∧ ∀ d, m.perform c = .ok d → FairRun (d.pos :: seen) d ms

end Move

/-- The cursor reads valid bytes, stands at one of the positions `seen`, and each of them is a
character boundary within the text. -/
def Anchored (c : Cursor) (seen : List Nat) : Prop :=
  Utf8.Valid c.text ∧ c.pos ∈ seen ∧
    ∀ p ∈ seen, p ≤ c.text.length ∧ Utf8.isCharBoundary c.text p = true

variable {c : Cursor} {seen : List Nat}

theorem Anchored.onBoundary (h : c.Anchored seen) : c.OnBoundary :=
  ⟨h.1, (h.2.2 _ h.2.1).2⟩

theorem anchored_start (text : String) : (Cursor.ofString text).Anchored [0] := by
  refine ⟨Utf8.valid_toUTF8 text, List.mem_singleton_self 0, ?_⟩
  intro p mem
  rw [List.mem_singleton.1 mem]
  exact ⟨Nat.zero_le _, (Utf8.valid_toUTF8 text).isCharBoundary_zero⟩

namespace Move

/-- **One fair move from an anchored cursor.** It does not fail, keeps the text, and leaves the
cursor on a boundary; a move back goes to a position reached before, a boundary of the same
text. -/
theorem perform_onBoundary (m : Move) (h : c.Anchored seen) (fair : m.Fair seen) :
    ∃ d, m.perform c = .ok d ∧ d.text = c.text ∧ d.OnBoundary := by
  have on := h.onBoundary
  cases m with
  | skip => exact ⟨_, rfl, rfl, on.skipSpacing⟩
  | identifier =>
    obtain ⟨found, taken⟩ := on.takeIdentifierText_ok
    cases found with
    | none => exact ⟨c, by simp [perform, taken], rfl, on⟩
    | some found =>
      obtain ⟨name, d⟩ := found
      have taken' : c.takeIdentifier? = some (name, d) := by
        simp [takeIdentifier?, taken, Except.toOption]
      exact ⟨d, by simp [perform, taken], (ahead_of_takeIdentifier? taken').1,
        on.of_takeIdentifier? taken'⟩
  | number =>
    cases taken : c.takeNumber? with
    | none => exact ⟨c, by simp [perform, taken], rfl, on⟩
    | some found =>
      obtain ⟨x, d⟩ := found
      exact ⟨d, by simp [perform, taken], (ahead_of_takeNumber? taken).1,
        on.of_takeNumber? taken⟩
  | byte b =>
    cases taken : c.takeByte? b with
    | none => exact ⟨c, by simp [perform, taken], rfl, on⟩
    | some d => exact ⟨d, by simp [perform, taken], (ahead_of_takeByte? taken).1,
        on.of_takeByte? fair taken⟩
  | keyword policy word =>
    obtain ⟨found, taken⟩ := on.takeKeywordText_ok policy word
    cases found with
    | none => exact ⟨c, by simp [perform, taken], rfl, on⟩
    | some d =>
      have taken' : c.takeKeyword? policy word = some d := by
        simp [takeKeyword?, taken, Except.toOption]
      obtain ⟨name, found⟩ := takeIdentifier?_of_takeKeyword? taken'
      exact ⟨d, by simp [perform, taken], (ahead_of_takeIdentifier? found).1,
        on.of_takeKeyword? taken'⟩
  | rewind pos =>
    obtain ⟨fits, bound⟩ := h.2.2 pos fair
    refine ⟨c.moveTo pos fits, ?_, rfl, ⟨h.1, bound⟩⟩
    simp only [perform, returnTo_of_isCharBoundary fits bound]
    rfl
  | attempt g =>
    exact ⟨_, rfl, (Grammar.read_disciplined g c).ahead.1, g.read_onBoundary c on⟩

/-- One fair move keeps the cursor anchored, with its new position among those reached. -/
theorem perform_anchored (m : Move) (h : c.Anchored seen) (fair : m.Fair seen) :
    ∃ d, m.perform c = .ok d ∧ d.text = c.text ∧ d.Anchored (d.pos :: seen) := by
  obtain ⟨d, done, text, on⟩ := m.perform_onBoundary h fair
  refine ⟨d, done, text, on.1, List.mem_cons_self, ?_⟩
  intro p mem
  rcases List.mem_cons.1 mem with here | before
  · rw [here]
    exact ⟨d.pos_le, on.2⟩
  · rw [text]
    exact h.2.2 p before

/-- **A fair run from an anchored cursor.** No move fails, the text stays, and the cursor stays
anchored to every position the run reaches. -/
theorem runFrom_anchored :
    ∀ (moves : List Move) {seen : List Nat} {c : Cursor}, c.Anchored seen →
      FairRun seen c moves →
        ∃ last seen', runFrom seen c moves = .ok (last, seen') ∧ last.text = c.text ∧
          last.Anchored seen'
  | [], _, _, h, _ => ⟨_, _, rfl, rfl, h⟩
  | m :: ms, _, _, h, ⟨fair, rest⟩ => by
    obtain ⟨d, done, text, anchored⟩ := m.perform_anchored h fair
    obtain ⟨last, seen', run, text', anchored'⟩ := runFrom_anchored ms anchored (rest d done)
    refine ⟨last, seen', ?_, text'.trans text, anchored'⟩
    simp only [runFrom, done, run]

end Move

/-- **The cursor stays on character boundaries.** A run of moves over a text that takes no byte
leading a character of two bytes or more, and goes back only to positions it reached, never
fails; every position it reaches is a character boundary within the text, and the unread rest,
the text between any two of those positions (cut from the earlier to the later, as
`Cursor.sliceText_of_le` and `Cursor.sliceText_comm` say), and the identifier and number ahead
can all be cut out. -/
theorem runFrom_stays_on_boundaries (text : String) (moves : List Move)
    (fair : Move.FairRun [0] (Cursor.ofString text) moves) :
    ∃ last seen, Move.runFrom [0] (Cursor.ofString text) moves = .ok (last, seen) ∧
      last.text = text.toUTF8.toList ∧ last.pos ∈ seen ∧
      (∀ p ∈ seen, p ≤ last.text.length ∧ Utf8.isCharBoundary last.text p = true) ∧
      (∃ s, last.restText = .ok s) ∧
      (∀ a ∈ seen, ∀ b ∈ seen, ∃ s, last.sliceText a b = .ok s) ∧
      (∃ found, last.identifierText = .ok found) ∧
      (∃ found, last.numberText = .ok found) := by
  obtain ⟨last, seen, run, text', anchored⟩ :=
    Move.runFrom_anchored moves (anchored_start text) fair
  have on := anchored.onBoundary
  refine ⟨last, seen, run, text', anchored.2.1, anchored.2.2, on.restText_ok, ?_,
    on.identifierText_ok, on.numberText_ok⟩
  intro a memA b memB
  obtain ⟨fitsA, boundA⟩ := anchored.2.2 a memA
  obtain ⟨fitsB, boundB⟩ := anchored.2.2 b memB
  exact sliceText_ok anchored.1 fitsA fitsB boundA boundB

theorem identifier_rewind_run_cuts_rest :
    ∃ last seen, Move.runFrom [0] (Cursor.ofString "é 1")
        [.identifier, .skip, .number, .rewind 0] = .ok (last, seen) ∧
      ∃ s, last.restText = .ok s := by
  obtain ⟨last, seen, run, -, -, -, rest, -⟩ :=
    runFrom_stays_on_boundaries "é 1" [.identifier, .skip, .number, .rewind 0]
      (by simp [Move.FairRun, Move.Fair])
  exact ⟨last, seen, run, rest⟩

/-- Taking the leading byte of `é` leaves the cursor inside the character, where the unread rest
can no longer be cut out. -/
theorem eating_lead_byte_splits_character :
    ∃ last, Move.runFrom [0] (Cursor.ofString "é") [.byte 0xC3] = .ok (last, [1, 0]) ∧
      Utf8.isCharBoundary last.text last.pos = false ∧
      last.restText = .error (.startInside 1 'é' 0 2) := by
  have bytes : Cursor.ofString "é" = Cursor.ofBytes [0xC3, 0xA9] := by
    rw [Cursor.ofString, toUTF8_toList, show "é".toList = ['é'] from rfl]
    rfl
  rw [bytes]
  refine ⟨(Cursor.ofBytes [0xC3, 0xA9]).forward 1 (by decide), ?_, ?_, ?_⟩
  · rfl
  · decide
  · rfl

end Cursor

end StyleGrammar
