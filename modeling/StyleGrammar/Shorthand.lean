/-!
**Shorthand expansion of periodic values.**

A periodic value has a fixed number of slots, and a shorter form may be written: a missing slot
copies the slot two before it, and a missing second slot copies the first. For four slots this
is the box-edge rule (`a` is `a a a a`, `a b` is `a b a b`, `a b c` is `a b c b`).

* `boxEdges`: the slot count of the box shorthand;
* `copiedSlot`: the written slot that a slot copies;
* `fill?`: all slots from a written form of one up to all of them;
* `shortWidth`: the fewest leading slots that fill all slots back.
-/

namespace StyleGrammar.Shorthand

/-- The slot count of a box shorthand: the top, right, bottom and left edges. -/
def boxEdges : Nat := 4

/-- The slot among the first `written` that slot `slot` copies: itself when it was written,
else the slot two before it, the second slot falling back to the first. -/
def copiedSlot (written : Nat) (slot : Nat) : Nat :=
  if slot < written then slot
  else if slot < 2 then 0
  else copiedSlot written (slot - 2)

theorem copiedSlot_of_lt {written slot : Nat} (below : slot < written) :
    copiedSlot written slot = slot := by
  rw [copiedSlot, if_pos below]

theorem copiedSlot_of_lt_two {written slot : Nat} (above : written ≤ slot) (small : slot < 2) :
    copiedSlot written slot = 0 := by
  rw [copiedSlot, if_neg (by omega), if_pos small]

/-- A slot that was not written copies what the slot two before it copies. -/
theorem copiedSlot_sub_two {written slot : Nat} (above : written ≤ slot) (large : 2 ≤ slot) :
    copiedSlot written slot = copiedSlot written (slot - 2) := by
  rw [copiedSlot, if_neg (by omega), if_neg (by omega)]

theorem copiedSlot_lt {written : Nat} (h : 0 < written) (slot : Nat) :
    copiedSlot written slot < written := by
  induction slot using Nat.strongRecOn with
  | ind slot ih =>
    by_cases below : slot < written
    · rw [copiedSlot_of_lt below]
      exact below
    · by_cases small : slot < 2
      · rw [copiedSlot_of_lt_two (by omega) small]
        exact h
      · rw [copiedSlot_sub_two (by omega) (by omega)]
        exact ih (slot - 2) (by omega)

/-- With one written slot, every slot copies it. -/
theorem copiedSlot_one (slot : Nat) : copiedSlot 1 slot = 0 := by
  have := @copiedSlot_lt 1 (by decide) slot
  omega

/-- With two written slots or more, a slot copies a slot of its own parity. -/
theorem copiedSlot_mod_two {written : Nat} (two : 2 ≤ written) (slot : Nat) :
    copiedSlot written slot % 2 = slot % 2 := by
  induction slot using Nat.strongRecOn with
  | ind slot ih =>
    by_cases below : slot < written
    · rw [copiedSlot_of_lt below]
    · rw [copiedSlot_sub_two (by omega) (by omega), ih (slot - 2) (by omega)]
      omega

/-- A slot that was not written copies one of the last two written slots. -/
theorem sub_two_le_copiedSlot {written slot : Nat} (two : 2 ≤ written) (above : written ≤ slot) :
    written - 2 ≤ copiedSlot written slot := by
  induction slot using Nat.strongRecOn with
  | ind slot ih =>
    rw [copiedSlot_sub_two above (by omega)]
    by_cases below : slot - 2 < written
    · rw [copiedSlot_of_lt below]
      omega
    · exact ih (slot - 2) (by omega) (by omega)

/-- All `arity` slots filled from the written ones; `none` when nothing or more than `arity`
values are written. -/
def fill? {α : Type} (arity : Nat) (written : List α) : Option (List α) :=
  if h : 0 < written.length ∧ written.length ≤ arity then
    some ((List.range arity).map fun slot =>
      written.get ⟨copiedSlot written.length slot, copiedSlot_lt h.1 slot⟩)
  else none

/-- The first `written` slots expand back to all slots. -/
def fillsFrom {α : Type} [BEq α] (slots : List α) (written : Nat) : Bool :=
  (List.range slots.length).all fun slot =>
    slots[slot]? == slots[copiedSlot written slot]?

/-- The fewest leading slots from which all slots expand; all of them when no fewer do. -/
def shortWidth {α : Type} [BEq α] (slots : List α) : Nat :=
  ((List.range' 1 (slots.length - 1)).find? (fillsFrom slots)).getD slots.length

end StyleGrammar.Shorthand
