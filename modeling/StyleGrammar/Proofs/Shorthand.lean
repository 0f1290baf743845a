import StyleGrammar.Shorthand
import StyleGrammar.Proofs.Greedy

/-!
**Periodic values: which slot a missing slot copies, and the shortest written form.**

A periodic value fills its missing slots by copying written ones. `copiedSlot_two_back` says
which slot each missing slot copies, and `shortWidth_expands_back` that the shortest written form
of a value fills back to it, no shorter form does, and no form written is shorter.
-/

/-! ## Which written slot a missing slot copies

With `written` slots given, `written ≥ 1`, slot `slot` copies:

* itself, when it was written;
* the first slot, when only one was written;
* otherwise the last written slot of its own parity, which is what the slot two before it
  copies.

`copiedSlot_two_back` states all of it, and that the copied slot is always a written one, so
expansion never reads past the written slots.
-/

namespace StyleGrammar.Shorthand

/-- The slot that a slot copies is itself, the first slot, or the last written slot of its
parity, which is what the slot two before it copies; it is always a written slot. -/
theorem copiedSlot_two_back {written : Nat} (h : 0 < written) (slot : Nat) :
    (slot < written → copiedSlot written slot = slot) ∧
    (written = 1 → copiedSlot written slot = 0) ∧
    (2 ≤ written → written ≤ slot →
      copiedSlot written slot % 2 = slot % 2 ∧
      ∀ j, j < written → j % 2 = slot % 2 → j ≤ copiedSlot written slot) ∧
    copiedSlot written slot < written ∧
    (2 ≤ written → written ≤ slot → copiedSlot written slot = copiedSlot written (slot - 2)) := by
  refine ⟨copiedSlot_of_lt, ?_, ?_, copiedSlot_lt h slot, ?_⟩
  · intro one
    subst one
    exact copiedSlot_one slot
  · intro two above
    refine ⟨copiedSlot_mod_two two slot, ?_⟩
    intro j below parity
    have low := sub_two_le_copiedSlot two above
    have high := copiedSlot_lt h slot
    have same := copiedSlot_mod_two two slot
    omega
  · intro two above
    exact copiedSlot_sub_two above (by omega)

/-- With two slots written, slot 7 copies slot 1, the last written odd slot. -/
theorem copiedSlot_seven_of_two :
    0 < 2 ∧
    ((7 < 2 → copiedSlot 2 7 = 7) ∧
    (2 = 1 → copiedSlot 2 7 = 0) ∧
    (2 ≤ 2 → 2 ≤ 7 →
      copiedSlot 2 7 % 2 = 7 % 2 ∧
      ∀ j, j < 2 → j % 2 = 7 % 2 → j ≤ copiedSlot 2 7) ∧
    copiedSlot 2 7 < 2 ∧
    (2 ≤ 2 → 2 ≤ 7 → copiedSlot 2 7 = copiedSlot 2 (7 - 2))) :=
  ⟨by decide, copiedSlot_two_back (by decide) 7⟩

/-! ## The shortest written form of a periodic value

`shortWidth` tries the widths `1, 2, …` in turn and stops at the first whose leading slots fill
all slots back, comparing each slot with the slot it would copy; `fill?` builds all slots from a
written form by the same copying rule. When the comparison of slots is an equivalence the two are
inverse to each other:

* `fill?_take_beq_iff`: filling from the first `w` slots gives back slots that compare equal to
  all of them exactly when the width check `fillsFrom` passes at `w`;
* `shortWidth_least`, `shortWidth_le`: the search returns the least width that passes, the full
  width when no shorter one does;
* `fillsFrom_fill?`: slots filled from a written form pass the check at the written width;
* `shortWidth_expands_back`: the shortest form fills back to the slots, no shorter leading form
  does, and a value filled from `k` written slots has a shortest form of at most `k` slots.
-/

variable {α : Type}

/-! ### Comparing lists slot by slot -/

/-- Two lists compare equal when they have one length and compare equal slot by slot. -/
theorem beq_iff_getElem? [BEq α] : ∀ {xs ys : List α},
    (xs == ys) = true ↔ xs.length = ys.length ∧ ∀ i < xs.length, (xs[i]? == ys[i]?) = true
  | [], [] => by simp
  | [], y :: ys => by simp
  | x :: xs, [] => by simp
  | x :: xs, y :: ys => by
    rw [List.cons_beq_cons, Bool.and_eq_true, beq_iff_getElem?]
    constructor
    · rintro ⟨head, same, rest⟩
      refine ⟨by simp [same], fun i inside => ?_⟩
      cases i with
      | zero => simpa using head
      | succ i => simpa using rest i (by simp at inside; omega)
    · rintro ⟨same, each⟩
      refine ⟨by simpa using each 0 (by simp), by simpa using same, fun i inside => ?_⟩
      simpa using each (i + 1) (by simp; omega)

/-- Comparing two slots of a list does not depend on their order. -/
theorem getElem?_beq_comm [BEq α] [PartialEquivBEq α] {xs : List α} {i j : Nat}
    (hi : i < xs.length) (hj : j < xs.length) : (xs[i]? == xs[j]?) = (xs[j]? == xs[i]?) := by
  rw [List.getElem?_eq_getElem hi, List.getElem?_eq_getElem hj, Option.some_beq_some,
    Option.some_beq_some, Bool.eq_iff_iff]
  exact ⟨BEq.symm, BEq.symm⟩

/-! ### Filling from leading slots -/

/-- Filling succeeds exactly on one to `arity` written values. -/
theorem exists_fill?_iff {arity : Nat} {written : List α} :
    (∃ slots, fill? arity written = some slots) ↔
      0 < written.length ∧ written.length ≤ arity := by
  rw [← Option.ne_none_iff_exists', Ne, fill?_eq_none_iff, not_or, Nat.not_lt,
    List.length_pos_iff]

/-- Filled from the first `w` slots, each slot holds the slot of the list that it copies. -/
theorem fill?_take_getElem? {slots filled : List α} {w : Nat} (positive : 0 < w)
    (fits : w ≤ slots.length) (h : fill? slots.length (slots.take w) = some filled) {slot : Nat}
    (inside : slot < slots.length) : filled[slot]? = slots[copiedSlot w slot]? := by
  have taken : (slots.take w).length = w := by simp; omega
  rw [fill?_getElem? h inside, taken, List.getElem?_take, if_pos (copiedSlot_lt positive slot)]

/-- The first `w` slots fill back to slots that compare equal to all slots exactly when every
slot compares equal to the slot it copies; the two sides make the same comparisons, in opposite
orders. -/
theorem fill?_take_beq_iff [BEq α] [PartialEquivBEq α] {slots : List α} {w : Nat}
    (positive : 0 < w) (fits : w ≤ slots.length) :
    (fill? slots.length (slots.take w) == some slots) = true ↔ fillsFrom slots w = true := by
  obtain ⟨filled, h⟩ : ∃ filled, fill? slots.length (slots.take w) = some filled :=
    exists_fill?_iff.2 (by rw [List.length_take]; omega)
  have length := length_of_fill? h
  rw [h, Option.some_beq_some, beq_iff_getElem?, length, fillsFrom, List.all_eq_true]
  simp only [List.mem_range, true_and]
  have copied : ∀ slot, copiedSlot w slot < slots.length := fun slot =>
    Nat.lt_of_lt_of_le (copiedSlot_lt positive slot) fits
  constructor
  · intro each slot inside
    have := each slot inside
    rwa [fill?_take_getElem? positive fits h inside, getElem?_beq_comm (copied slot) inside] at this
  · intro each slot inside
    rw [fill?_take_getElem? positive fits h inside, getElem?_beq_comm (copied slot) inside]
    exact each slot inside

/-- All slots fill back from all of them. -/
theorem fillsFrom_length [BEq α] [ReflBEq α] (slots : List α) :
    fillsFrom slots slots.length = true := by
  simp only [fillsFrom, List.all_eq_true, List.mem_range]
  intro slot inside
  rw [copiedSlot_of_lt inside]
  exact BEq.refl _

/-- Slots filled from a written form fill back from as many leading slots as were written: a
copied slot is a written one, which copies itself. -/
theorem fillsFrom_fill? [BEq α] [ReflBEq α] {arity : Nat} {written slots : List α}
    (h : fill? arity written = some slots) : fillsFrom slots written.length = true := by
  obtain ⟨positive, fits⟩ := exists_fill?_iff.1 ⟨slots, h⟩
  simp only [fillsFrom, List.all_eq_true, List.mem_range, length_of_fill? h]
  intro slot inside
  have copied := copiedSlot_lt positive slot
  rw [fill?_getElem? h inside, fill?_getElem? h (by omega), copiedSlot_of_lt copied]
  exact BEq.refl _

/-! ### The search for the shortest form -/

/-- The search returns a width from one to the count of slots at which the check passes, and
the check fails at every smaller width from one. -/
theorem shortWidth_least [BEq α] [ReflBEq α] {slots : List α} (nonempty : 0 < slots.length) :
    1 ≤ shortWidth slots ∧ shortWidth slots ≤ slots.length ∧
      fillsFrom slots (shortWidth slots) = true ∧
      ∀ w, 1 ≤ w → w < shortWidth slots → fillsFrom slots w = false := by
  unfold shortWidth
  cases found : (List.range' 1 (slots.length - 1)).find? (fillsFrom slots) with
  | none =>
    rw [List.find?_range'_eq_none] at found
    refine ⟨nonempty, Nat.le_refl _, fillsFrom_length slots, fun w one below => ?_⟩
    simpa using found w one (by simp at below; omega)
  | some w =>
    rw [List.find?_range'_eq_some, List.mem_range'_1] at found
    obtain ⟨passes, ⟨one, below⟩, earlier⟩ := found
    refine ⟨one, by simp; omega, passes, fun v one' below' => ?_⟩
    simpa using earlier v one' below'

/-- The shortest form is no longer than any width at which the check passes. -/
theorem shortWidth_le [BEq α] [ReflBEq α] {slots : List α} {w : Nat} (one : 1 ≤ w)
    (fits : w ≤ slots.length) (passes : fillsFrom slots w = true) : shortWidth slots ≤ w := by
  obtain ⟨-, -, -, earlier⟩ := shortWidth_least (Nat.lt_of_lt_of_le one fits)
  rcases Nat.lt_or_ge w (shortWidth slots) with longer | within
  · have := earlier w one longer
    rw [passes] at this
    cases this
  · exact within

/-- **The shortest form and filling are inverse.** For every arity from one and every slots of
that arity, compared by an equivalence: the shortest form has one to `arity` slots, it fills
back to slots that compare equal to the given ones, and no shorter leading form does (an empty
one fills nothing). Conversely every written form of one to `arity` values fills to slots
whose shortest form is no longer than what was written. -/
theorem shortWidth_expands_back [BEq α] [EquivBEq α] (arity : Nat) (positive : 0 < arity) :
    (∀ slots : List α, slots.length = arity →
      1 ≤ shortWidth slots ∧ shortWidth slots ≤ arity ∧
      (fill? arity (slots.take (shortWidth slots)) == some slots) = true ∧
      ∀ w, w < shortWidth slots → (fill? arity (slots.take w) == some slots) = false) ∧
    (∀ written : List α, 1 ≤ written.length → written.length ≤ arity →
      ∃ slots, fill? arity written = some slots ∧ shortWidth slots ≤ written.length) := by
  refine ⟨fun slots length => ?_, fun written one fits => ?_⟩
  · subst length
    obtain ⟨one, fits, passes, earlier⟩ := shortWidth_least positive
    refine ⟨one, fits, (fill?_take_beq_iff (by omega) fits).2 passes, fun w below => ?_⟩
    cases w with
    | zero => simp [fill?]
    | succ w =>
      rw [Bool.eq_false_iff]
      intro back
      have fails := earlier (w + 1) (by omega) below
      rw [(fill?_take_beq_iff (by omega) (by omega)).1 back] at fails
      cases fails
  · obtain ⟨slots, filled⟩ := exists_fill?_iff.2 ⟨one, fits⟩
    refine ⟨slots, filled, shortWidth_le one ?_ (fillsFrom_fill? filled)⟩
    rw [length_of_fill? filled]
    exact fits

/-- `1 1 1 2` keeps all four slots: its three leading slots fill to `1 1 1 1`. -/
theorem three_ones_and_two_keep_all_slots :
    shortWidth [1, 1, 1, 2] = 4 ∧ (fill? 4 [1, 1, 1] == some [1, 1, 1, 2]) = false := by
  have width : shortWidth [1, 1, 1, 2] = 4 := by
    -- `copiedSlot` recurses on `slot - 2`, so it is evaluated through its unfolding lemmas
    simp (disch := omega) [shortWidth, fillsFrom, List.range', List.find?, List.range,
      List.range.loop, copiedSlot_of_lt, copiedSlot_of_lt_two, copiedSlot_sub_two]
    rfl
  refine ⟨width, ?_⟩
  have shorter := ((@shortWidth_expands_back Nat _ _ 4 (by decide)).1 [1, 1, 1, 2] rfl).2.2.2 3
  rw [width] at shorter
  exact shorter (by decide)

end StyleGrammar.Shorthand
