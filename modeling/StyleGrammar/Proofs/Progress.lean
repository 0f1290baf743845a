import StyleGrammar.Proofs.Discipline

/-!
**Progress: every loop of a reading ends within the text.**

A grammar's reader is a structural recursion over the grammar, so it is a total function; what
can run long is its two loops. The repetition loop is bounded by the repetition's greatest count,
which may be as large as a machine word; the list loop has no bound at all. Both end because of
progress, not because of their bounds:

* a round of the repetition loop ends the loop when its item fails or takes no text, so every
  round that goes on leaves the cursor strictly further on (`readRunFrom_round_advances`); the
  loop runs at most one round more than there are bytes left, and cutting its count there reads
  the same (`readRunFrom_limit_congr`);
* a round of the list loop that goes on has taken its separator byte
  (`readSeparated_round_advances`), so the loop never runs out of its fuel of one round per byte
  left (`readSeparated_fuel_congr`).

Both rest on the discipline: no reader of the library moves the cursor back when it succeeds.
`Grammar.read_loops_end_within_text` states both bounds for the items of every grammar.
-/

namespace StyleGrammar

namespace Cursor

/-- Moving strictly forward shortens the unread rest. -/
theorem Ahead.rest_length_lt {c d : Cursor} (h : c.Ahead d) (moved : c.pos < d.pos) :
    d.rest.length < c.rest.length := by
  have := d.pos_le
  rw [d.rest_length, c.rest_length, h.1] at *
  omega

/-- Taking a byte moves over exactly one byte. -/
theorem pos_of_takeByte? {c d : Cursor} {b : UInt8} (h : c.takeByte? b = some d) :
    d.pos = c.pos + 1 := by
  unfold takeByte? at h
  split at h
  · split at h
    · cases h
      rfl
    · cases h
  · cases h

end Cursor

variable {step : Reader}

/-! ### The repetition loop -/

/-- A round of the repetition loop that goes on, its item found away from where it was looked
for, ends strictly after the cursor the round started from. -/
theorem readRunFrom_round_advances (h : step.Disciplined) {c before next : Cursor} {v : Value}
    (start : c.Ahead before) (found : step before = (some v, next)) (moved : next.pos ≠ before.pos) :
    c.Ahead next ∧ c.pos < next.pos := by
  have obeys := h before
  rw [found] at obeys
  exact ⟨start.trans obeys, by have := start.2; have := obeys.2; omega⟩

/-- Two greatest counts that agree up to one past the bytes left give the same loop: every round
that goes on moves the cursor, so the rest of the loop runs on a shorter text. -/
theorem readRunFrom_limit_congr (h : step.Disciplined) (n : Nat) :
    ∀ (c : Cursor), c.rest.length = n → ∀ (a b : Nat) (skip : Bool),
      min a (n + 1) = min b (n + 1) → readRunFrom step a skip c = readRunFrom step b skip c := by
  induction n using Nat.strongRecOn with
  | ind n ih =>
    intro c rest a b skip same
    match a, b with
    | 0, 0 => rfl
    | 0, _ + 1 => omega
    | _ + 1, 0 => omega
    | a + 1, b + 1 =>
      have start : c.Ahead (if skip then c.skipSpacing else c) := by
        cases skip
        · exact Cursor.Ahead.refl c
        · exact c.ahead_skipSpacing
      simp only [readRunFrom]
      generalize (if skip then c.skipSpacing else c) = before at start ⊢
      split
      · rfl
      · rename_i v next found
        split
        · rfl
        · rename_i moved
          obtain ⟨ahead, forward⟩ := readRunFrom_round_advances h start found moved
          have shorter := ahead.rest_length_lt forward
          rw [ih next.rest.length (by omega) next rfl a b true (by omega)]

/-! ### The list loop -/

/-- At the end of the text no separator follows. -/
theorem takeByte?_skipSpacing_of_rest_nil {c : Cursor} (empty : c.rest.length = 0) (b : UInt8) :
    c.skipSpacing.takeByte? b = none := by
  cases found : c.skipSpacing.takeByte? b with
  | none => rfl
  | some d =>
    have onward := Cursor.pos_of_takeByte? found
    have same := (c.ahead_skipSpacing.trans (Cursor.ahead_of_takeByte? found)).1
    have within := d.pos_le
    have skipped := c.ahead_skipSpacing.2
    rw [same] at within
    rw [c.rest_length] at empty
    omega

/-- A round of the list loop that goes on ends strictly after the cursor it started from: it
took the separator. -/
theorem readSeparated_round_advances (h : step.Disciplined) {c afterSeparator next : Cursor}
    {separator : UInt8} {v : Value} (taken : c.skipSpacing.takeByte? separator = some afterSeparator)
    (found : step afterSeparator.skipSpacing = (some v, next)) :
    c.Ahead next ∧ c.pos < next.pos := by
  have obeys := h afterSeparator.skipSpacing
  rw [found] at obeys
  have separatorAhead := c.ahead_skipSpacing.trans (Cursor.ahead_of_takeByte? taken)
  have ahead := (separatorAhead.trans afterSeparator.ahead_skipSpacing).trans obeys
  have onward := Cursor.pos_of_takeByte? taken
  have := c.ahead_skipSpacing.2
  have := afterSeparator.ahead_skipSpacing.2
  have := obeys.2
  exact ⟨ahead, by omega⟩

/-- Any two fuels that cover the bytes left give the same loop. -/
theorem readSeparated_fuel_congr (h : step.Disciplined) (separator : UInt8) (fuel : Nat) :
    ∀ (fuel' : Nat) (c : Cursor), c.rest.length ≤ fuel → c.rest.length ≤ fuel' →
      readSeparated step separator fuel c = readSeparated step separator fuel' c := by
  induction fuel with
  | zero =>
    intro fuel' c enough _
    cases fuel' with
    | zero => rfl
    | succ fuel' =>
      simp only [readSeparated, takeByte?_skipSpacing_of_rest_nil (by omega : c.rest.length = 0)]
  | succ fuel ih =>
    intro fuel' c enough enough'
    cases fuel' with
    | zero =>
      simp only [readSeparated, takeByte?_skipSpacing_of_rest_nil (by omega : c.rest.length = 0)]
    | succ fuel' =>
      simp only [readSeparated]
      split
      · rfl
      · rename_i afterSeparator taken
        split
        · rename_i v next found
          obtain ⟨ahead, forward⟩ := readSeparated_round_advances h taken found
          have shorter := ahead.rest_length_lt forward
          rw [ih fuel' next (by omega) (by omega)]
        · rfl

/-! ### Item counts -/

theorem readRunFrom_length_le (step : Reader) (limit : Nat) :
    ∀ (skip : Bool) (c : Cursor), (readRunFrom step limit skip c).1.length ≤ limit := by
  induction limit with
  | zero =>
    intro skip c
    simp [readRunFrom]
  | succ limit ih =>
    intro skip c
    simp only [readRunFrom]
    generalize (if skip then c.skipSpacing else c) = before
    split
    · simp
    · split
      · simp
      · rename_i v next _ _
        simpa using ih true next

theorem readSeparated_length_le (h : step.Disciplined) (separator : UInt8) (fuel : Nat) :
    ∀ (c : Cursor), (readSeparated step separator fuel c).1.length ≤ c.rest.length := by
  induction fuel with
  | zero =>
    intro c
    simp [readSeparated]
  | succ fuel ih =>
    intro c
    simp only [readSeparated]
    split
    · simp
    · rename_i afterSeparator taken
      split
      · rename_i v next found
        obtain ⟨ahead, forward⟩ := readSeparated_round_advances h taken found
        have shorter := ahead.rest_length_lt forward
        have more := ih next
        simp only [List.length_cons]
        omega
      · simp

namespace Grammar

/-- **Every loop of a grammar's reading ends within the text.** The repetition loop over a
grammar's items runs at most one round more than there are bytes left, whatever its greatest
count: cutting that count down to the bytes left plus one reads the same, and keeps at most that
many items. The list loop takes at least its separator byte every round it goes on, so it never
runs out of its fuel of one round per byte left: more fuel reads the same, and every item after
the first takes a byte. -/
theorem read_loops_end_within_text (g : Grammar) (c : Cursor) :
    (∀ (limit : Nat) (skip : Bool),
      readRunFrom g.read limit skip c =
          readRunFrom g.read (min limit (c.rest.length + 1)) skip c ∧
        (readRunFrom g.read limit skip c).1.length ≤ c.rest.length + 1) ∧
    (∀ (separator : UInt8) (extra : Nat),
      readSeparated g.read separator (c.rest.length + extra) c =
          readSeparated g.read separator c.rest.length c ∧
        (readSeparated g.read separator (c.rest.length + extra) c).1.length ≤ c.rest.length) := by
  have h := g.read_disciplined
  refine ⟨fun limit skip => ?_, fun separator extra => ?_⟩
  · have cut := readRunFrom_limit_congr h c.rest.length c rfl limit
      (min limit (c.rest.length + 1)) skip (by omega)
    refine ⟨cut, ?_⟩
    rw [cut]
    exact Nat.le_trans (readRunFrom_length_le _ _ skip c) (Nat.min_le_right _ _)
  · exact ⟨readSeparated_fuel_congr h separator _ _ c (by omega) (Nat.le_refl _),
      readSeparated_length_le h separator _ c⟩

end Grammar

end StyleGrammar
