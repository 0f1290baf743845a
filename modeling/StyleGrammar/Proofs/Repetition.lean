import StyleGrammar.Proofs.Greedy
import StyleGrammar.Proofs.PaddingInvariance

/-!
**Bounded repetition.**

Bounds are built from both counts, refusing inverted ones, or from a least count alone, with the
implicit greatest count raised to it where it is larger. A repetition reads its greedy chain of at
most the greatest count of items, and keeps it when it holds at least the least count. Over integer
tokens with gaps of padding between them, the chain is the first integers, as many as the bounds
allow, and the whole text reads exactly when the count of tokens lies within the bounds.

* `Bounds.make?_eq_error_iff`, `Bounds.make?_of_le`: bounds from both counts;
* `Reader.repetition_admits`: a tuple that a repetition reads has a count within its bounds;
* `IntegerToken`, `IntegerRun`: bytes that the integer leaf reads whole, and such tokens with
  non-empty gaps of padding between them;
* `IntegerRun.greedyChain`: over a run, the integer reader's greedy chain is the first integers;
* `repetition_within_bounds`: the bounds, the chain and the integer runs together.
-/

namespace StyleGrammar

open Token

/-! ### Bounds -/

namespace Bounds

/-- Building bounds fails, naming both counts, exactly when they are inverted. -/
theorem make?_eq_error_iff {lo hi : Nat} :
    make? lo hi = .error (.boundsInverted lo hi) ↔ hi < lo := by
  unfold make?
  split
  · rename_i fits
    simp only [reduceCtorEq, false_iff, Nat.not_lt]
    exact fits
  · rename_i inverted
    simp only [true_iff]
    omega

theorem make?_of_le {lo hi : Nat} (fits : lo ≤ hi) : make? lo hi = .ok ⟨lo, hi, fits⟩ := by
  unfold make?
  rw [dif_pos fits]

end Bounds

/-- A tuple that a repetition reads has a count within the bounds. -/
theorem Reader.repetition_admits {step : Reader} {bounds : Bounds} {c next : Cursor}
    {items : List Value} (h : Reader.repetition step bounds c = (some (.tuple items), next)) :
    bounds.admits items.length = true := by
  have chain := greedyChain_readRun step bounds.max c
  have atMost := chain.length_le
  rw [repetition_of_greedyChain chain] at h
  split at h
  · rename_i enough
    simp only [Option.some.injEq, Value.tuple.injEq, Prod.mk.injEq] at h
    rw [← h.1]
    simp only [Bounds.admits, Bool.and_eq_true, decide_eq_true_eq]
    exact ⟨enough, atMost⟩
  · cases h

/-! ### Integer tokens -/

/-- Bytes that the integer leaf reads whole, as the integer `k`. -/
def IntegerToken (token : List UInt8) (k : Int32) : Prop :=
  ∃ e, Leaf.integer.read (Cursor.ofBytes token) = (some (.integer k), e) ∧ e.rest = []

/-- Integer tokens with a non-empty gap of padding between each two, and the integers they
write, in order. -/
inductive IntegerRun : List UInt8 → List Int32 → Prop where
  | nil : IntegerRun [] []
  | last {token : List UInt8} {k : Int32} : IntegerToken token k → IntegerRun token [k]
  | cons {token gap rest : List UInt8} {k k' : Int32} {ks : List Int32} :
      IntegerToken token k → Padding gap → gap ≠ [] → IntegerRun rest (k' :: ks) →
      IntegerRun (token ++ gap ++ rest) (k :: k' :: ks)

theorem Leaf.integer_read_of_inert {c : Cursor} (inert : Inert c.rest) :
    Leaf.integer.read c = (none, c) := by
  simp [Leaf.read, Cursor.takeNumberToken?_of_inert inert]

theorem inert_nil : Inert [] :=
  fun _ mem => by cases mem

/-- Bytes that do not start with a blank or a slash open no insignificant content. -/
theorem spacingSpan_of_not_inert {bytes : List UInt8} (h : ¬ Inert bytes) :
    spacingSpan bytes = 0 := by
  cases bytes with
  | nil => exact absurd inert_nil h
  | cons b more =>
    have opens : isBlank b = false ∧ b ≠ 0x2F := by
      simp only [Inert, List.head?_cons, Option.mem_def, Option.some.injEq, forall_eq',
        not_or, Bool.not_eq_true] at h
      exact h
    rw [spacingSpan.eq_def]
    simp [opens.1, opens.2]

theorem not_inert_append {bytes : List UInt8} (h : ¬ Inert bytes) (more : List UInt8) :
    ¬ Inert (bytes ++ more) := by
  cases bytes with
  | nil => exact absurd inert_nil h
  | cons b rest => exact h

namespace IntegerToken

variable {token : List UInt8} {k : Int32}

/-- A token opens with neither a blank nor a slash. -/
theorem not_inert (tok : IntegerToken token k) : ¬ Inert token := by
  intro inert
  obtain ⟨e, found, -⟩ := tok
  have nothing : Leaf.integer.read (Cursor.ofBytes token) = (none, Cursor.ofBytes token) :=
    Leaf.integer_read_of_inert inert
  rw [nothing] at found
  cases found

/-- A token reads as its integer wherever inert bytes follow it, and the cursor stops right
after it: each test of the leaf passed on the token alone, so it passes here. -/
theorem read (tok : IntegerToken token k) {c : Cursor} {after : List UInt8}
    (split : c.rest = token ++ after) (inert : Inert after) :
    ∃ e, Leaf.integer.read c = (some (.integer k), e) ∧ e.rest = after := by
  obtain ⟨e₀, found, ended⟩ := tok
  have split' : c.rest = (Cursor.ofBytes token).rest ++ after := split
  rcases Cursor.takeNumberToken?_append inert split' with
    ⟨missing, -⟩ | ⟨t, c', d', taken, taken', rest⟩
  · simp [Leaf.read, missing] at found
  · have dimension := Cursor.Trails.atDimension (Or.inl rest) inert
    simp only [Leaf.read, taken] at found
    simp only [Leaf.read, taken', ← dimension]
    by_cases fraction : t.any isFractionMark = true
    · simp [fraction] at found
    cases value : integerOfToken? t with
    | none => simp [fraction, value] at found
    | some n =>
      by_cases unit : c'.atDimension = true
      · simp [fraction, value, unit] at found
      simp only [fraction, value, unit, Bool.false_eq_true, if_false, Prod.mk.injEq] at found ⊢
      obtain ⟨same, rfl⟩ := found
      exact ⟨d', ⟨same, rfl⟩, by rw [rest, ended, List.nil_append]⟩

end IntegerToken

/-! ### Integer runs -/

namespace IntegerRun

variable {bytes : List UInt8} {ks : List Int32}

/-- A run of one token or more opens with neither a blank nor a slash. -/
theorem not_inert {k : Int32} (run : IntegerRun bytes (k :: ks)) : ¬ Inert bytes := by
  cases run with
  | last tok => exact tok.not_inert
  | cons tok _ _ _ => exact not_inert_append (not_inert_append tok.not_inert _) _

/-- Nothing insignificant opens a run. -/
theorem spacingSpan_eq_zero (run : IntegerRun bytes ks) : spacingSpan bytes = 0 := by
  cases ks with
  | nil =>
    cases run
    simp [spacingSpan]
  | cons k ks => exact spacingSpan_of_not_inert run.not_inert

/-- At the start of a run of one token or more, content is not over. -/
theorem atEndOfContent_eq_false {k : Int32} (run : IntegerRun bytes (k :: ks)) {c : Cursor}
    (split : c.skipSpacing.rest = bytes) : c.atEndOfContent = false := by
  unfold Cursor.atEndOfContent Cursor.atEnd
  rw [split]
  cases bytes with
  | nil => exact absurd inert_nil run.not_inert
  | cons b more => rfl

/-- **The integer reader's greedy chain over a run is its first integers.** Reading at most
`limit` items, the chain holds the first `limit` integers of the run; when it holds them all the
cursor has reached the end, and otherwise more content follows it. The induction is on the run:
its only token is read whole with nothing after it, and a first token is read up to its gap,
which is skipped up to the next token. -/
theorem greedyChain (run : IntegerRun bytes ks) :
    ∀ (limit : Nat) (c : Cursor), c.rest = bytes →
      ∃ last, GreedyChain Leaf.integer.read limit c ((ks.take limit).map .integer) last ∧
        (ks.length ≤ limit → last.rest = []) ∧
        (limit < ks.length → last.atEndOfContent = false) := by
  induction run with
  | nil =>
    intro limit c empty
    have missing : (Leaf.integer.read c).1 = none := by
      rw [Leaf.integer_read_of_inert (Cursor.inert_of_nil empty)]
    cases limit with
    | zero => exact ⟨c, .full c, fun _ => empty, fun short => absurd short (Nat.lt_irrefl 0)⟩
    | succ limit => exact ⟨c, .missing missing, fun _ => empty, fun short => by cases short⟩
  | @last token k tok =>
    intro limit c split
    have opens : c.skipSpacing.rest = token := by
      rw [Cursor.skipSpacing_rest, split, spacingSpan_of_not_inert tok.not_inert, List.drop_zero]
    cases limit with
    | zero =>
      exact ⟨c, .full c, (fun long => by cases long), fun _ =>
        (IntegerRun.last tok).atEndOfContent_eq_false opens⟩
    | succ limit =>
      have whole : c.rest = token ++ [] := by rw [split, List.append_nil]
      obtain ⟨e, found, ended⟩ := tok.read whole inert_nil
      have missing : (Leaf.integer.read e.skipSpacing).1 = none := by
        rw [Leaf.integer_read_of_inert (Cursor.inert_of_nil (e.skipSpacing_rest_of_padding
          (ended ▸ .nil)))]
      have items : ([k].take (limit + 1)).map Value.integer = [.integer k] := by simp
      rw [items]
      exact ⟨e, .last found (.inr (.inr missing)), fun _ => ended, fun short => by
        simp at short⟩
  | @cons token gap rest k k' ks tok pad nonempty runRest ih =>
    intro limit c split
    have opens : c.skipSpacing.rest = token ++ gap ++ rest := by
      rw [Cursor.skipSpacing_rest, split,
        spacingSpan_of_not_inert (not_inert_append (not_inert_append tok.not_inert _) _),
        List.drop_zero]
    cases limit with
    | zero =>
      exact ⟨c, .full c, (fun long => by cases long), fun _ =>
        (IntegerRun.cons tok pad nonempty runRest).atEndOfContent_eq_false opens⟩
    | succ limit =>
      have inert : Inert (gap ++ rest) := by
        cases gap with
        | nil => exact absurd rfl nonempty
        | cons b more => exact pad.inert
      obtain ⟨e, found, after⟩ := tok.read (by rw [split, List.append_assoc]) inert
      have skipped : e.skipSpacing.rest = rest := by
        rw [Cursor.skipSpacing_rest, after, spacingSpan_padding_append pad,
          runRest.spacingSpan_eq_zero, Nat.add_zero, List.drop_left]
      have moved : e.pos ≠ c.pos := by
        have ahead : c.Ahead e := by
          have obeys := Leaf.read_disciplined .integer c
          rw [found] at obeys
          exact obeys
        rw [Ne, ahead.pos_eq_iff, after, split]
        have filled : token ≠ [] := fun empty => tok.not_inert (empty ▸ inert_nil)
        have : 0 < token.length := List.length_pos_iff.2 filled
        simp only [List.length_append]
        omega
      obtain ⟨last, chain, full, short⟩ := ih limit e.skipSpacing skipped
      cases limit with
      | zero =>
        exact ⟨e, .last found (.inl rfl), fun long => by simp at long, fun _ =>
          runRest.atEndOfContent_eq_false skipped⟩
      | succ limit =>
        refine ⟨last, .more found moved chain, fun long => full ?_, fun long => short ?_⟩
        · simp only [List.length_cons] at long ⊢
          omega
        · simp only [List.length_cons] at long ⊢
          omega

/-- The count that a repetition keeps from a run: at least the least count exactly when the run
holds that many. -/
theorem min_le_take_length_iff {bounds : Bounds} :
    bounds.min ≤ ((ks.take bounds.max).map Value.integer).length ↔ bounds.min ≤ ks.length := by
  have fits := bounds.min_le_max
  simp only [List.length_map, List.length_take]
  omega

/-- **A repetition of integers over a run** reads the first integers, as many as the greatest
count allows, when the run holds at least the least count, and otherwise nothing, with the cursor
back at the start. -/
theorem repetition_read (run : IntegerRun bytes ks) (bounds : Bounds) {c : Cursor}
    (split : c.rest = bytes) :
    ∃ last, (Grammar.repetition (.leaf .integer) bounds).read c =
      if bounds.min ≤ ks.length then (some (.tuple ((ks.take bounds.max).map .integer)), last)
      else (none, c) := by
  obtain ⟨last, chain, -, -⟩ := run.greedyChain bounds.max c split
  refine ⟨last, ?_⟩
  simp only [Grammar.read, Reader.repetition_of_greedyChain chain]
  by_cases enough : bounds.min ≤ ks.length
  · rw [if_pos (min_le_take_length_iff.2 enough), if_pos enough]
  · rw [if_neg (mt min_le_take_length_iff.1 enough), if_neg enough]

/-- **A text that is a run reads whole** exactly when its count of tokens lies within the bounds:
with fewer the repetition reads nothing, and with more it stops before the end. -/
theorem parse_repetition {text : String} (run : IntegerRun text.toUTF8.toList ks)
    (bounds : Bounds) :
    (Grammar.repetition (.leaf .integer) bounds).parse? text =
      if bounds.min ≤ ks.length ∧ ks.length ≤ bounds.max then some (.tuple (ks.map .integer))
      else none := by
  have bytes : (Cursor.ofString text).rest = text.toUTF8.toList := rfl
  have start : (Cursor.ofString text).skipSpacing.rest = text.toUTF8.toList := by
    rw [Cursor.skipSpacing_rest, bytes, run.spacingSpan_eq_zero, List.drop_zero]
  obtain ⟨last, chain, full, short⟩ := run.greedyChain bounds.max _ start
  simp only [Grammar.parse?, Grammar.read, Reader.repetition_of_greedyChain chain]
  by_cases enough : bounds.min ≤ ks.length
  · rw [if_pos (min_le_take_length_iff.2 enough)]
    by_cases fits : ks.length ≤ bounds.max
    · have ended : last.atEndOfContent = true := by
        rw [Cursor.atEndOfContent_iff, full fits]
        exact .nil
      simp only [ended, if_true, List.take_of_length_le fits, enough, fits, and_self]
    · have more := short (by omega)
      simp only [more, Bool.false_eq_true, if_false, fits, and_false]
  · rw [if_neg (mt min_le_take_length_iff.1 enough)]
    simp only [enough, false_and, if_false]

end IntegerRun

/-! ### The specification of bounded repetition -/

/-- **Bounded repetition meets its specification.** Bounds from both counts are refused, naming
both, exactly when they are inverted, and are otherwise those counts; bounds from a least count `m`
allow up to the larger of `65535` and `m`. For every item reader, bounds and start, the repetition
reads its greedy chain of at most the greatest count: the items, with the cursor right after the
last (at the start when there is none), when there are at least the least count, and otherwise
nothing with the cursor at the start; so what it reads has a count within the bounds. Over integer
tokens with non-empty gaps of padding between them, the repetition of integers reads the first
integers, as many as the greatest count allows, exactly when there are at least the least count,
and the whole text reads as all of them exactly when their count lies within the bounds. -/
theorem repetition_within_bounds :
    (∀ lo hi : Nat, Bounds.make? lo hi = .error (.boundsInverted lo hi) ↔ hi < lo) ∧
    (∀ (lo hi : Nat) (fits : lo ≤ hi), Bounds.make? lo hi = .ok ⟨lo, hi, fits⟩) ∧
    (∀ m : Nat, (Bounds.fromMin m).min = m ∧ (Bounds.fromMin m).max = max 65535 m ∧
      m ≤ (Bounds.fromMin m).max) ∧
    (∀ (step : Reader) (bounds : Bounds) (c : Cursor),
      (∃ items last, GreedyChain step bounds.max c items last) ∧
      ∀ items last, GreedyChain step bounds.max c items last →
        (items = [] → last = c) ∧
        Reader.repetition step bounds c =
          if bounds.min ≤ items.length then (some (.tuple items), last) else (none, c)) ∧
    (∀ (step : Reader) (bounds : Bounds) (c next : Cursor) (items : List Value),
      Reader.repetition step bounds c = (some (.tuple items), next) →
        bounds.admits items.length = true) ∧
    (∀ (bounds : Bounds) (bytes : List UInt8) (ks : List Int32) (c : Cursor),
      IntegerRun bytes ks → c.rest = bytes →
      ∃ last, (Grammar.repetition (.leaf .integer) bounds).read c =
        if bounds.min ≤ ks.length then (some (.tuple ((ks.take bounds.max).map .integer)), last)
        else (none, c)) ∧
    (∀ (bounds : Bounds) (text : String) (ks : List Int32), IntegerRun text.toUTF8.toList ks →
      (Grammar.repetition (.leaf .integer) bounds).parse? text =
        if bounds.min ≤ ks.length ∧ ks.length ≤ bounds.max then some (.tuple (ks.map .integer))
        else none) :=
  ⟨fun _ _ => Bounds.make?_eq_error_iff,
    fun _ _ fits => Bounds.make?_of_le fits,
    fun _ => ⟨rfl, rfl, Nat.le_max_right _ _⟩,
    fun step bounds c => ⟨⟨_, _, greedyChain_readRun step bounds.max c⟩,
      fun _ _ chain => ⟨fun empty => (empty ▸ chain).nil_cases.1,
        Reader.repetition_of_greedyChain chain⟩⟩,
    fun _ _ _ _ _ read => Reader.repetition_admits read,
    fun bounds _ _ _ run split => run.repetition_read bounds split,
    fun bounds _ _ run => run.parse_repetition bounds⟩

/-- Three integers with blanks between them read whole as one or more integers. -/
theorem three_integers_read_whole :
    (Grammar.repetition (.leaf .integer) .plus).parse? "1 2 3" =
      some (.tuple [.integer 1, .integer 2, .integer 3]) := by
  have bytes : "1 2 3".toUTF8.toList = [0x31] ++ [0x20] ++ ([0x32] ++ [0x20] ++ [0x33]) := by
    rw [toUTF8_toList, show "1 2 3".toList = ['1', ' ', '2', ' ', '3'] from rfl]
    rfl
  have run : IntegerRun "1 2 3".toUTF8.toList [1, 2, 3] := by
    rw [bytes]
    exact .cons ⟨_, rfl, rfl⟩ (.blank rfl .nil) (List.cons_ne_nil _ _)
      (.cons ⟨_, rfl, rfl⟩ (.blank rfl .nil) (List.cons_ne_nil _ _) (.last ⟨_, rfl, rfl⟩))
  rw [repetition_within_bounds.2.2.2.2.2.2 .plus "1 2 3" [1, 2, 3] run]
  rfl

end StyleGrammar
