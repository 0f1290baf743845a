import StyleGrammar.Proofs.Rereadable

/-!
**Greedy runs: what a repetition and a shorthand read.**

Both combinators collect items with the same loop. Said without the loop, the items form a
greedy chain: the first item is read where the run starts, each next one after the
insignificant content that follows the one before, and the chain stops at the first item that
does not read, right after an item that took no text, or when it holds as many items as the
run allows. The run leaves the cursor right after its last item, or where it started when it
read none.

* `GreedyChain`: the chain, one rule per way of going on or stopping;
* `readRun_eq_iff_greedyChain`: the run loop reads exactly the greedy chain;
* `Reader.repetition_of_greedyChain`, `Reader.shorthand_of_greedyChain`: each combinator in
  terms of the chain;
* `Shorthand.fill?_getElem?`, `Shorthand.fill?_eq_none_iff`: the slots of a filled shorthand;
* `Reader.shorthand_mirrors`: a shorthand reads the greedy chain of at most `arity` items and
  fills it out by the mirroring rule.
-/

namespace StyleGrammar

/-- The items a run reads greedily from a cursor, at most `limit` of them, and the cursor it
leaves: the first item is read at the cursor, each next one after the insignificant content that
follows the one before, and the run stops at the first item that does not read, after an item
that took no text, or at the limit. -/
inductive GreedyChain (step : Reader) : Nat → Cursor → List Value → Cursor → Prop where
  /-- No room for an item: nothing is read. -/
  | full (c : Cursor) : GreedyChain step 0 c [] c
  /-- The first item does not read: nothing is read. -/
  | missing {limit : Nat} {c : Cursor} : (step c).1 = none → GreedyChain step (limit + 1) c [] c
  /-- The last item: after it the run is full, the item took no text, or no item follows. -/
  | last {limit : Nat} {c e : Cursor} {v : Value} : step c = (some v, e) →
      (limit = 0 ∨ e.pos = c.pos ∨ (step e.skipSpacing).1 = none) →
      GreedyChain step (limit + 1) c [v] e
  /-- An item that took text, and more items after the insignificant content that follows. -/
  | more {limit : Nat} {c e last : Cursor} {v w : Value} {items : List Value} :
      step c = (some v, e) → e.pos ≠ c.pos →
      GreedyChain step limit e.skipSpacing (w :: items) last →
      GreedyChain step (limit + 1) c (v :: w :: items) last

namespace GreedyChain

variable {step : Reader}

/-- A chain holds at most as many items as the run allows. -/
theorem length_le {limit : Nat} {c last : Cursor} {items : List Value}
    (h : GreedyChain step limit c items last) : items.length ≤ limit := by
  induction h with
  | full => exact Nat.le_refl 0
  | missing => exact Nat.zero_le _
  | last => simp
  | more _ _ _ ih =>
    simp only [List.length_cons] at ih ⊢
    omega

/-- An empty chain leaves the cursor where it started; the run was full or its first item did
not read. -/
theorem nil_cases {limit : Nat} {c last : Cursor} (h : GreedyChain step limit c [] last) :
    last = c ∧ (limit = 0 ∨ (step c).1 = none) := by
  cases h with
  | full => exact ⟨rfl, .inl rfl⟩
  | missing missing => exact ⟨rfl, .inr missing⟩

end GreedyChain

/-! ### The run loop reads the greedy chain -/

variable {step : Reader}

/-- A round after the first skips insignificant content; when it reads nothing, the cursor
stays before that content. -/
theorem readRunFrom_true (step : Reader) (limit : Nat) (c : Cursor) :
    readRunFrom step limit true c =
      match readRun step limit c.skipSpacing with
      | ([], _) => ([], c)
      | found => found := by
  cases limit with
  | zero => rfl
  | succ limit =>
    simp only [readRun, readRunFrom, if_true, Bool.false_eq_true, if_false]
    split
    · rfl
    · rename_i v next _
      split
      · rfl
      · rfl

/-- What the run reads is a greedy chain; after an item that moved, the rest of the run starts
after the spacing that follows it. -/
theorem greedyChain_readRun (step : Reader) :
    ∀ (limit : Nat) (c : Cursor),
      GreedyChain step limit c (readRun step limit c).1 (readRun step limit c).2 := by
  intro limit
  induction limit with
  | zero => exact GreedyChain.full
  | succ limit ih =>
    intro c
    simp only [readRun, readRunFrom, Bool.false_eq_true, if_false]
    split
    · rename_i after missing
      exact .missing (by rw [missing])
    · rename_i v e found
      split
      · rename_i still
        exact .last found (.inr (.inl still))
      · rename_i moved
        rw [readRunFrom_true]
        have rest := ih e.skipSpacing
        revert rest
        rcases readRun step limit e.skipSpacing with ⟨_ | ⟨w, items⟩, last⟩
        · intro rest
          obtain ⟨-, stops⟩ := rest.nil_cases
          exact .last found (stops.imp id .inr)
        · intro rest
          exact .more found moved rest

/-- A greedy chain is what the run reads: a last item that moved ends the run because it was full
or no item followed. -/
theorem readRun_of_greedyChain {limit : Nat} {c last : Cursor} {items : List Value}
    (h : GreedyChain step limit c items last) : readRun step limit c = (items, last) := by
  induction h with
  | full => rfl
  | missing missing => exact readRun_of_none missing _
  | @last limit c e v found stops =>
    simp only [readRun, readRunFrom, Bool.false_eq_true, if_false, found]
    split
    · rfl
    · rename_i moved
      rcases stops with rfl | still | missing
      · rfl
      · exact absurd still moved
      · rw [readRunFrom_true, readRun_of_none missing]
  | @more limit c e last v w items found moved _ ih =>
    simp only [readRun, readRunFrom, Bool.false_eq_true, if_false, found, if_neg moved]
    rw [readRunFrom_true, ih]

/-- **The run loop reads the greedy chain**, and nothing else. -/
theorem readRun_eq_iff_greedyChain {limit : Nat} {c last : Cursor} {items : List Value} :
    readRun step limit c = (items, last) ↔ GreedyChain step limit c items last := by
  constructor
  · intro h
    have chain := greedyChain_readRun step limit c
    rw [h] at chain
    exact chain
  · exact readRun_of_greedyChain

/-! ### Repetitions and shorthands -/

namespace Reader

/-- A repetition reads its greedy chain, as a tuple when it holds at least the least count;
otherwise it reads nothing and puts the cursor back. -/
theorem repetition_of_greedyChain {bounds : Bounds} {c last : Cursor} {items : List Value}
    (chain : GreedyChain step bounds.max c items last) :
    Reader.repetition step bounds c =
      if bounds.min ≤ items.length then (some (.tuple items), last) else (none, c) := by
  simp only [Reader.repetition, readRun_of_greedyChain chain]
  by_cases enough : bounds.min ≤ items.length
  · rw [if_pos enough, if_neg (by omega)]
  · rw [if_neg enough, if_pos (by omega)]

/-- A shorthand reads its greedy chain and fills the slots from it; without a slot filled it
reads nothing and puts the cursor back. -/
theorem shorthand_of_greedyChain {arity : Nat} {c last : Cursor} {items : List Value}
    (chain : GreedyChain step arity c items last) :
    Reader.shorthand step arity c =
      match Shorthand.fill? arity items with
      | some slots => (some (.periodic slots), last)
      | none => (none, c) := by
  cases filled : Shorthand.fill? arity items <;>
    simp only [Reader.shorthand, readRun_of_greedyChain chain, filled]

end Reader

/-! ### Filling the slots -/

namespace Shorthand

variable {α : Type}

/-- Filling fails exactly when nothing, or more than there are slots, was written. -/
theorem fill?_eq_none_iff {arity : Nat} {written : List α} :
    fill? arity written = none ↔ written = [] ∨ arity < written.length := by
  unfold fill?
  split
  · rename_i fits
    simp only [reduceCtorEq, false_iff, not_or]
    exact ⟨List.ne_nil_of_length_pos fits.1, by omega⟩
  · rename_i outside
    simp only [true_iff]
    rcases written with _ | ⟨v, more⟩
    · exact .inl rfl
    · exact .inr (by simp at outside ⊢; omega)

/-- Each filled slot holds the written slot it copies. -/
theorem fill?_getElem? {arity : Nat} {written slots : List α}
    (h : fill? arity written = some slots) {slot : Nat} (inside : slot < arity) :
    slots[slot]? = written[copiedSlot written.length slot]? := by
  unfold fill? at h
  split at h
  · rename_i fits
    cases h
    rw [List.getElem?_map, List.getElem?_range inside, Option.map_some,
      List.getElem?_eq_getElem (copiedSlot_lt fits.1 slot)]
    rfl
  · cases h

theorem length_of_fill? {arity : Nat} {written slots : List α}
    (h : fill? arity written = some slots) : slots.length = arity := by
  unfold fill? at h
  split at h
  · cases h
    simp
  · cases h

/-- The mirroring rule on filled slots: a written slot holds its value, a later slot the value
of the slot two before it, and a missing second slot the value of the first. -/
theorem fill?_mirrors {arity : Nat} {written slots : List α}
    (h : fill? arity written = some slots) {slot : Nat} (inside : slot < arity) :
    (slot < written.length → slots[slot]? = written[slot]?) ∧
    (written.length ≤ slot → 2 ≤ slot → slots[slot]? = slots[slot - 2]?) ∧
    (slot = 1 → written.length ≤ 1 → slots[1]? = slots[0]?) := by
  have some : 0 < written.length := by
    rcases written with _ | ⟨v, more⟩
    · exact absurd h (by simp [fill?])
    · simp
  refine ⟨fun below => ?_, fun above two => ?_, fun one few => ?_⟩
  · rw [fill?_getElem? h inside, copiedSlot_of_lt below]
  · rw [fill?_getElem? h inside, fill?_getElem? h (by omega), copiedSlot_sub_two above two]
  · subst one
    rw [fill?_getElem? h inside, fill?_getElem? h (by omega), copiedSlot_of_lt_two few (by omega),
      copiedSlot_of_lt some]

end Shorthand

namespace Reader

/-- **A shorthand reads the greedy chain and fills the slots by mirroring.** For every item
reader, arity and start, the items of the greedy chain of at most `arity` items decide the
reading: with none the shorthand reads nothing and the cursor stays at the start; otherwise it
reads the slots filled from them, and leaves the cursor right after the last item, whatever
follows. Filling fails exactly when nothing or more than `arity` values are written; filled,
there are `arity` slots, a written slot holds its value, an unwritten slot from the third on
holds the value two slots before it, and an unwritten second slot the value of the first. -/
theorem shorthand_mirrors (step : Reader) (arity : Nat) (c : Cursor) :
    (∃ items last, GreedyChain step arity c items last ∧
      (items = [] → Reader.shorthand step arity c = (none, c)) ∧
      (items ≠ [] → ∃ slots, Shorthand.fill? arity items = some slots ∧
        Reader.shorthand step arity c = (some (.periodic slots), last))) ∧
    (∀ (α : Type) (written : List α),
      Shorthand.fill? arity written = none ↔ written = [] ∨ arity < written.length) ∧
    (∀ (α : Type) (written slots : List α), Shorthand.fill? arity written = some slots →
      slots.length = arity ∧ ∀ slot, slot < arity →
        (slot < written.length → slots[slot]? = written[slot]?) ∧
        (written.length ≤ slot → 2 ≤ slot → slots[slot]? = slots[slot - 2]?) ∧
        (slot = 1 → written.length ≤ 1 → slots[1]? = slots[0]?)) := by
  refine ⟨?_, fun α written => Shorthand.fill?_eq_none_iff,
    fun α written slots h => ⟨Shorthand.length_of_fill? h, fun slot inside =>
      Shorthand.fill?_mirrors h inside⟩⟩
  have chain := greedyChain_readRun step arity c
  refine ⟨_, _, chain, fun empty => ?_, fun nonempty => ?_⟩
  · rw [shorthand_of_greedyChain chain, empty]
    rfl
  · have fits := chain.length_le
    cases filled : Shorthand.fill? arity (readRun step arity c).1 with
    | none =>
      rcases Shorthand.fill?_eq_none_iff.1 filled with empty | tooMany
      · exact absurd empty nonempty
      · omega
    | some slots =>
      refine ⟨slots, rfl, ?_⟩
      rw [shorthand_of_greedyChain chain, filled]

end Reader

end StyleGrammar
