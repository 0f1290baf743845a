import StyleGrammar.Proofs.Progress

/-!
**The two loops, item by item.**

Both loops read items one after another: a run leaves insignificant content between two items, a
list insignificant content, its separator and more insignificant content. `Chained` records such
a sequence of readings, each item's reading starting where the gap after the one before puts it,
and this module ties each loop to it in both directions, so that facts about a loop become facts
about single readings of its item.

* `Chained`: items read one after another across a gap;
* `readRunFrom_chained`, `readRunFrom_stops`: what a run read, and why it stopped before its
  limit: the item does not read after the last one;
* `readRunFrom_of_chained`: a chain of items that stops there is what the run reads;
* `readSeparated_chained`, `readSeparated_of_chained`: the same for the items of a list after
  its first, where the loop stops when no separator follows or no item follows the separator.
-/

namespace StyleGrammar

/-- Items read one after another: each by the step, the next one where `gap` puts it after the
end of the one before, the last one ending at `last`. -/
inductive Chained (step : Reader) (gap : Cursor → Cursor → Prop) :
    Cursor → List Value → Cursor → Prop where
  | one {c last : Cursor} {v : Value} : step c = (some v, last) → Chained step gap c [v] last
  | cons {c e s last : Cursor} {v : Value} {more : List Value} :
      step c = (some v, e) → gap e s → Chained step gap s more last →
        Chained step gap c (v :: more) last

/-- Between two items of a run: insignificant content. -/
def runGap (e s : Cursor) : Prop :=
  s = e.skipSpacing

/-- Between two items of a list: insignificant content, the separator, insignificant content. -/
def listGap (separator : UInt8) (e s : Cursor) : Prop :=
  ∃ d, e.skipSpacing.takeByte? separator = some d ∧ s = d.skipSpacing

namespace Chained

variable {step : Reader} {gap : Cursor → Cursor → Prop}

theorem ne_nil {c last : Cursor} {items : List Value} (h : Chained step gap c items last) :
    items ≠ [] := by
  cases h <;> simp

/-- The first item of a chain is read where the chain starts. -/
theorem first {c last : Cursor} {v : Value} {more : List Value}
    (h : Chained step gap c (v :: more) last) : ∃ e, step c = (some v, e) := by
  cases h with
  | one found => exact ⟨last, found⟩
  | cons found _ _ => exact ⟨_, found⟩

end Chained

variable {step : Reader}

/-! ### The run -/

/-- The cursor where a run looks for its first item. -/
def runStart (skip : Bool) (c : Cursor) : Cursor :=
  if skip then c.skipSpacing else c

/-- A run that reads nothing stays where it started; its item was not there to read. -/
theorem readRunFrom_eq_nil {limit : Nat} {skip : Bool} {c last : Cursor}
    (h : readRunFrom step (limit + 1) skip c = ([], last)) :
    (step (runStart skip c)).1 = none ∧ last = c := by
  simp only [readRunFrom] at h
  unfold runStart
  generalize (if skip then c.skipSpacing else c) = before at h ⊢
  split at h
  · rename_i after found
    simp only [Prod.mk.injEq] at h
    exact ⟨by simp [found], h.2.symm⟩
  · split at h
    · simp at h
    · simp at h

/-- The items of a run are read one after another, from where the run looks for its first. -/
theorem readRunFrom_chained : ∀ (limit : Nat) (skip : Bool) (c : Cursor) (items : List Value)
    (last : Cursor), readRunFrom step limit skip c = (items, last) →
      (items = [] ∧ last = c) ∨ Chained step runGap (runStart skip c) items last := by
  intro limit
  induction limit with
  | zero =>
    intro skip c items last h
    simp only [readRunFrom, Prod.mk.injEq] at h
    exact .inl ⟨h.1.symm, h.2.symm⟩
  | succ limit ih =>
    intro skip c items last h
    simp only [readRunFrom] at h
    unfold runStart
    generalize (if skip then c.skipSpacing else c) = before at h ⊢
    split at h
    · simp only [Prod.mk.injEq] at h
      exact .inl ⟨h.1.symm, h.2.symm⟩
    · rename_i v next found
      split at h
      · simp only [Prod.mk.injEq] at h
        obtain ⟨rfl, rfl⟩ := h
        exact .inr (.one found)
      · rcases inner : readRunFrom step limit true next with ⟨more, rest⟩
        rw [inner] at h
        simp only [Prod.mk.injEq] at h
        obtain ⟨rfl, rfl⟩ := h
        rcases ih true next more rest inner with ⟨rfl, rfl⟩ | chain
        · exact .inr (.one found)
        · exact .inr (.cons found rfl chain)

/-- A run of items that each move the cursor stops before its limit only where its item does not
read after the last one: when the last item is the run's last, the next round found nothing. -/
theorem readRunFrom_stops (advancing : ∀ c v n, step c = (some v, n) → c.pos < n.pos) :
    ∀ (limit : Nat) (skip : Bool) (c : Cursor) (items : List Value) (last : Cursor),
      readRunFrom step limit skip c = (items, last) → items ≠ [] → items.length < limit →
        (step last.skipSpacing).1 = none := by
  intro limit
  induction limit with
  | zero =>
    intro skip c items last _ _ short
    simp at short
  | succ limit ih =>
    intro skip c items last h nonempty short
    simp only [readRunFrom] at h
    generalize (if skip then c.skipSpacing else c) = before at h
    split at h
    · simp only [Prod.mk.injEq] at h
      exact absurd h.1.symm nonempty
    · rename_i v next found
      have moved := advancing before v next found
      rw [if_neg (by omega)] at h
      rcases inner : readRunFrom step limit true next with ⟨more, rest⟩
      rw [inner] at h
      simp only [Prod.mk.injEq] at h
      obtain ⟨rfl, rfl⟩ := h
      cases more with
      | nil =>
        obtain ⟨limit, rfl⟩ : ∃ k, limit = k + 1 := ⟨limit - 1, by simp at short; omega⟩
        obtain ⟨missing, rfl⟩ := readRunFrom_eq_nil inner
        exact missing
      | cons w more =>
        exact ih true next (w :: more) rest inner (by simp) (by simp at short ⊢; omega)

/-- A chain of items that each move the cursor, as long as the limit allows and stopping where
the item does not read, is what the run reads; after the chain's last item the run stops at its
limit or where the item fails. -/
theorem readRunFrom_of_chained (advancing : ∀ c v n, step c = (some v, n) → c.pos < n.pos) :
    ∀ (items : List Value) (limit : Nat) (skip : Bool) (c last : Cursor),
      Chained step runGap (runStart skip c) items last → items.length ≤ limit →
        (items.length < limit → (step last.skipSpacing).1 = none) →
          readRunFrom step limit skip c = (items, last) := by
  intro items
  induction items with
  | nil =>
    intro limit skip c last chain
    exact absurd rfl chain.ne_nil
  | cons v more ih =>
    intro limit skip c last chain fits stops
    obtain ⟨limit, rfl⟩ : ∃ k, limit = k + 1 := ⟨limit - 1, by simp at fits; omega⟩
    obtain ⟨e, found⟩ := chain.first
    unfold runStart at found chain
    simp only [readRunFrom]
    generalize (if skip then c.skipSpacing else c) = before at found chain ⊢
    have moved := advancing before v e found
    rw [found]
    simp only
    rw [if_neg (by omega)]
    cases chain with
    | one found' =>
      rw [found] at found'
      have same : e = last := (Prod.mk.inj found').2
      subst same
      cases limit with
      | zero => rfl
      | succ limit =>
        have missing := stops (by simp)
        cases next : step e.skipSpacing with
        | mk result after =>
          rw [next] at missing
          simp only at missing
          subst missing
          simp only [readRunFrom, if_true, next]
    | cons found' gap rest =>
      rw [found] at found'
      simp only [Prod.mk.injEq] at found'
      obtain ⟨-, rfl⟩ := found'
      rw [ih limit true _ last (by unfold runStart; rw [← gap]; exact rest)
        (by simp at fits; omega) (fun short => stops (by simp; omega))]

/-! ### The list -/

/-- The items of a list after its first are read one after another across separators, and the
loop stops where no separator follows the last item or no item follows that separator. A round
that takes a separator and an item leaves a shorter rest, so the fuel never runs out first. -/
theorem readSeparated_chained (h : step.Disciplined) (separator : UInt8) :
    ∀ (fuel : Nat) (start c : Cursor) (first : Value) (more : List Value) (last : Cursor),
      step start = (some first, c) → c.rest.length ≤ fuel →
        readSeparated step separator fuel c = (more, last) →
          Chained step (listGap separator) start (first :: more) last ∧
            ∀ d, last.skipSpacing.takeByte? separator = some d → (step d.skipSpacing).1 = none := by
  intro fuel
  induction fuel with
  | zero =>
    intro start c first more last found enough loop
    simp only [readSeparated, Prod.mk.injEq] at loop
    obtain ⟨rfl, rfl⟩ := loop
    refine ⟨.one found, fun d taken => ?_⟩
    rw [takeByte?_skipSpacing_of_rest_nil (by omega)] at taken
    cases taken
  | succ fuel ih =>
    intro start c first more last found enough loop
    simp only [readSeparated] at loop
    split at loop
    · rename_i missing
      simp only [Prod.mk.injEq] at loop
      obtain ⟨rfl, rfl⟩ := loop
      refine ⟨.one found, fun d taken => ?_⟩
      rw [missing] at taken
      cases taken
    · rename_i afterSeparator taken
      split at loop
      · rename_i v next found'
        obtain ⟨ahead, forward⟩ := readSeparated_round_advances h taken found'
        have shorter := ahead.rest_length_lt forward
        rcases inner : readSeparated step separator fuel next with ⟨rest, stop⟩
        rw [inner] at loop
        simp only [Prod.mk.injEq] at loop
        obtain ⟨rfl, rfl⟩ := loop
        obtain ⟨chain, stops⟩ := ih _ next v rest stop found' (by omega) inner
        exact ⟨.cons found ⟨afterSeparator, taken, rfl⟩ chain, stops⟩
      · rename_i missing
        simp only [Prod.mk.injEq] at loop
        obtain ⟨rfl, rfl⟩ := loop
        refine ⟨.one found, fun d taken' => ?_⟩
        rw [taken] at taken'
        cases taken'
        rw [missing]

/-- A chain of list items that stops where no separator and item follow is what the list loop
reads after the first item, with any fuel that covers the bytes left. -/
theorem readSeparated_of_chained (h : step.Disciplined) (separator : UInt8) :
    ∀ (more : List Value) (start c : Cursor) (first : Value) (last : Cursor),
      step start = (some first, c) → Chained step (listGap separator) start (first :: more) last →
        (∀ d, last.skipSpacing.takeByte? separator = some d → (step d.skipSpacing).1 = none) →
          ∀ fuel, c.rest.length ≤ fuel → readSeparated step separator fuel c = (more, last) := by
  intro more
  induction more with
  | nil =>
    intro start c first last found chain stops fuel enough
    cases chain with
    | one found' =>
      rw [found] at found'
      have same : c = last := (Prod.mk.inj found').2
      subst same
      cases fuel with
      | zero => rfl
      | succ fuel =>
        simp only [readSeparated]
        cases taken : c.skipSpacing.takeByte? separator with
        | none => rfl
        | some d =>
          have missing := stops d taken
          cases next : step d.skipSpacing with
          | mk result after =>
            rw [next] at missing
            simp only at missing
            subst missing
            simp only [next]
    | cons _ _ rest => exact absurd rfl rest.ne_nil
  | cons v more ih =>
    intro start c first last found chain stops fuel enough
    cases chain with
    | cons found' gap rest =>
      rw [found] at found'
      simp only [Prod.mk.injEq] at found'
      obtain ⟨-, rfl⟩ := found'
      obtain ⟨d, taken, rfl⟩ := gap
      obtain ⟨next, found''⟩ := rest.first
      obtain ⟨ahead, forward⟩ := readSeparated_round_advances h taken found''
      have shorter := ahead.rest_length_lt forward
      obtain ⟨fuel, rfl⟩ : ∃ k, fuel = k + 1 := ⟨fuel - 1, by omega⟩
      simp only [readSeparated, taken, found'']
      rw [ih _ next v last found'' rest stops fuel (by omega)]

end StyleGrammar
