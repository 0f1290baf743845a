import Mathlib
import StyleGrammar.Proofs.Rereadable

/-!
**Written values read back.**

A grammar of the round trip (`Grammar.RoundTrips`) reads a whole text to a value; the value is
written as text; the text is read again. The second reading gives the same value, as long as the
numbers of the value read back from their own text, which is a fact of the number format and
not of the grammar.

The proof goes in two directions over the grammar, both by recursion on it:

* `Grammar.read_produces`: what a reading finds is a value that the grammar produces, and the
  end of the value allows whatever followed it in the text (`Grammar.Trail`, `Follow.Found`);
* `Grammar.read_written`: a value that the grammar produces is read back from its text at any
  cursor, whatever follows the text that its end allows (`Follow.Written`).

The items of repetitions, shorthands and lists go through the loops' chains of readings
(`Chained`): `chained_produces` reads a chain item by item, and `chained_of_joined` builds the
chain of the written items (`chained_of_written` for the items of a solid grammar).

### The theorem

`Grammar.parse_render_parse`: for a grammar of the round trip and a text that it reads to a
value whose numbers read back, the value has a text, and that text reads to the same value.

Without the conditions of `Grammar.RoundTrips` the round trip fails:
`repeated_default_reads_twice` is a run of integers with a default whose empty text reads as the
default alone, written `7`, which reads as the default twice.
-/

namespace StyleGrammar

/-- The reader reads the value back from its text wherever the text stands, when `next` may
follow the text. -/
def Rereads (step : Reader) (v : Value) (next : Follow) : Prop :=
  ∀ (text : String) (c : Cursor) (after : List UInt8), v.render? = some text →
    next.Written after → c.rest = text.toUTF8.toList ++ after →
      ∃ last, step c = (some v, last) ∧ last.rest = after

theorem Leaf.render_of_produces {kind : Leaf} {v : Value} (shape : kind.Produces v) :
    ∃ text, v.render? = some text := by
  cases kind with
  | number => obtain ⟨_, rfl⟩ := shape; exact ⟨_, rfl⟩
  | integer => obtain ⟨_, rfl⟩ := shape; exact ⟨_, rfl⟩
  | length => obtain ⟨_, _, rfl⟩ := shape; exact ⟨_, rfl⟩
  | percentage => obtain ⟨_, rfl⟩ := shape; exact ⟨_, rfl⟩
  | identifier => obtain ⟨_, rfl, -⟩ := shape; exact ⟨_, rfl⟩

namespace Value

theorem render_tuple_nil : (tuple []).render? = some "" :=
  rfl

/-- Items that each have a text have a joined text. -/
theorem joinAll_of_renders {sep : String} {items : List Value}
    (renders : ∀ w ∈ items, ∃ text, w.render? = some text) :
    ∃ text, joinAll sep (renderList items) = some text := by
  induction items with
  | nil => exact ⟨"", rfl⟩
  | cons w more ih =>
    obtain ⟨head, rendered⟩ := renders w (by simp)
    obtain ⟨tail, joined⟩ := ih fun u mem => renders u (List.mem_cons_of_mem w mem)
    simp only [joinAll, Option.map_eq_some_iff] at joined
    obtain ⟨parts, all, -⟩ := joined
    exact ⟨sep.intercalate (head :: parts), by
      simp only [joinAll, renderList, List.mapM_cons, id, rendered, all]; rfl⟩

end Value

theorem Cursor.atEndOfContent_of_nil {c : Cursor} (empty : c.rest = []) :
    c.atEndOfContent = true :=
  (c.atEndOfContent_iff).2 (empty ▸ .nil)

namespace Grammar

theorem parse?_eq_some {g : Grammar} {text : String} {v : Value} (h : g.parse? text = some v) :
    ∃ next, g.read (Cursor.ofString text).skipSpacing = (some v, next) ∧
      next.atEndOfContent = true := by
  simp only [parse?] at h
  split at h
  · rename_i w next found
    split at h
    · rename_i ends
      cases h
      exact ⟨next, found, ends⟩
    · cases h
  · cases h

theorem parse?_of_read {g : Grammar} {text : String} {v : Value} {next : Cursor}
    (found : g.read (Cursor.ofString text).skipSpacing = (some v, next))
    (ends : next.atEndOfContent = true) : g.parse? text = some v := by
  simp [parse?, found, ends]

end Grammar

/-! ### Gaps of written text -/

theorem runGap_crosses (e : Cursor) (b : UInt8) (rest : List UInt8) (opens : OpensItem b)
    (split : e.rest = " ".toUTF8.toList ++ b :: rest) : ∃ s, runGap e s ∧ s.rest = b :: rest :=
  ⟨e.skipSpacing, rfl, Cursor.skipSpacing_blank (by rw [split, space_bytes]; rfl) opens⟩

theorem sibling_written (b : UInt8) (rest : List UInt8) (opens : OpensItem b) :
    Follow.sibling.Written (" ".toUTF8.toList ++ b :: rest) :=
  ⟨b, rest, by rw [space_bytes]; rfl, opens⟩

/-- The gap after a written list item crosses its separator's text. -/
theorem listGap_crosses (separator : Separator) (e : Cursor) (b : UInt8) (rest : List UInt8)
    (opens : OpensItem b)
    (split : e.rest = (Value.separatorText separator.byte).toUTF8.toList ++ b :: rest) :
    ∃ s, listGap separator.byte e s ∧ s.rest = b :: rest := by
  have atSeparator := Cursor.skipSpacing_separatorText separator.valid split
  obtain ⟨d, taken, afterSeparator⟩ := Cursor.takeByte?_cons atSeparator
  exact ⟨d.skipSpacing, ⟨d, taken, rfl⟩, Cursor.skipSpacing_blank afterSeparator opens⟩

/-- After a run's item, an item read after the gap is a next item of the run. -/
theorem runGap_found {inner : Grammar} (e s : Cursor) (gap : runGap e s)
    (reads : (inner.read s).1.isSome = true) : Follow.sibling.Found inner e := by
  unfold runGap at gap
  subst gap
  exact reads

/-- After a list's item, an item read after the gap follows the list's separator. -/
theorem listGap_found {inner : Grammar} {separator : UInt8} (e s : Cursor)
    (gap : listGap separator e s) (reads : (inner.read s).1.isSome = true) :
    (Follow.separator separator).Found inner e := by
  obtain ⟨d, taken, rfl⟩ := gap
  exact ⟨d, taken, reads⟩

theorem separator_written (separator : Separator) (b : UInt8) (rest : List UInt8)
    (opens : OpensItem b) :
    (Follow.separator separator.byte).Written
      ((Value.separatorText separator.byte).toUTF8.toList ++ b :: rest) :=
  ⟨separator.valid, b, rest, rfl, opens⟩

namespace Follow

/-- Where the end or a list's separator follows a value, a solid grammar reads nothing after the
spacing: a run that stopped short of its greatest count stops there when rereading too. -/
theorem Written.read_none {next : Follow} {after : List UInt8} {g : Grammar} (solid : g.Solid)
    (written : next.Written after) (notSibling : next ≠ .sibling) {c : Cursor}
    (split : c.rest = after) : (g.read c.skipSpacing).1 = none := by
  apply Grammar.read_none_of_solid g solid
  cases next with
  | done =>
    rw [Cursor.skipSpacing_rest, split, show after = [] from written, List.drop_nil]
    intro b mem
    cases mem
  | sibling => exact absurd rfl notSibling
  | separator s =>
    obtain ⟨allowed, b, rest, bytes, -⟩ := written
    rw [Cursor.skipSpacing_separatorText allowed (split.trans bytes)]
    intro x mem
    simp only [List.head?_cons, Option.mem_def, Option.some.injEq] at mem
    subst mem
    exact allowed

/-- Where anything but the separator `t` follows a value, the spacing after it does not end at
`t`: a list stops there when rereading too. The end of the text holds no byte, an item opens with
no separator byte, and another separator is not `t`. -/
theorem Written.takeByte?_none {next : Follow} {after : List UInt8} {t : UInt8}
    (written : next.Written after) (other : next ≠ .separator t)
    (allowed : separatorAllowed t = true) {c : Cursor} (split : c.rest = after) :
    c.skipSpacing.takeByte? t = none := by
  cases next with
  | done =>
    refine Cursor.takeByte?_of_nil ?_ t
    rw [Cursor.skipSpacing_rest, split, show after = [] from written, List.drop_nil]
  | sibling =>
    obtain ⟨b, rest, bytes, opens⟩ := written
    refine Cursor.takeByte?_of_ne (Cursor.skipSpacing_blank (split.trans bytes) opens) ?_
    rintro rfl
    rw [opens.2] at allowed
    cases allowed
  | separator s =>
    obtain ⟨allowedHere, b, rest, bytes, -⟩ := written
    refine Cursor.takeByte?_of_ne (Cursor.skipSpacing_separatorText allowedHere
      (split.trans bytes)) ?_
    rintro rfl
    exact other rfl

end Follow

/-! ### Chains of written items -/

/-- Items written joined by `sep` are read one after another when each reads back from its text,
the items but the last where `mid` follows them and the last where `final` does, and the gap
after an item crosses the joining text, after which the next item's text opens. -/
theorem chained_of_joined {step : Reader} {gap : Cursor → Cursor → Prop} {sep : String}
    {mid final : Follow}
    (crosses : ∀ (e : Cursor) (b : UInt8) (rest : List UInt8), OpensItem b →
      e.rest = sep.toUTF8.toList ++ b :: rest → ∃ s, gap e s ∧ s.rest = b :: rest)
    (spaced : ∀ (b : UInt8) (rest : List UInt8), OpensItem b →
      mid.Written (sep.toUTF8.toList ++ b :: rest)) :
    ∀ (items : List Value) (text : String) (c : Cursor) (after : List UInt8),
      Value.joinAll sep (Value.renderList items) = some text → items ≠ [] →
      (∀ w ∈ items, ∀ t, w.render? = some t →
        ∃ b rest, t.toUTF8.toList = b :: rest ∧ OpensItem b) →
      (∀ w ∈ items.dropLast, Rereads step w mid) → (∀ w ∈ items.getLast?, Rereads step w final) →
      final.Written after → c.rest = text.toUTF8.toList ++ after →
        ∃ last, Chained step gap c items last ∧ last.rest = after
  | [], _, _, _, _, nonempty, _, _, _, _, _ => absurd rfl nonempty
  | [v], text, c, after, rendered, _, _, _, lastReads, written, split => by
    rw [Value.renderList_cons, Value.renderList, Value.joinAll_singleton] at rendered
    obtain ⟨last, found, rest⟩ := lastReads v rfl text c after rendered written split
    exact ⟨last, .one found, rest⟩
  | v :: w :: more, _, c, after, rendered, _, opens, midReads, lastReads, written, split => by
    rw [Value.renderList_cons] at rendered
    obtain ⟨head, tail, headText, tailText, rfl⟩ := Value.joinAll_cons_cons rendered
    obtain ⟨b, rest, tailBytes, opening⟩ :=
      Grammar.opens_of_joinAll tailText fun t wText => opens w (by simp) t wText
    have spacedTail : mid.Written (sep.toUTF8.toList ++ tail.toUTF8.toList ++ after) := by
      rw [tailBytes, List.append_assoc, List.cons_append]
      exact spaced b (rest ++ after) opening
    have headSplit : c.rest = head.toUTF8.toList ++ (sep.toUTF8.toList ++ tail.toUTF8.toList ++ after) := by
      rw [split, toUTF8_toList_append, toUTF8_toList_append]
      simp only [List.append_assoc]
    obtain ⟨e, found, eRest⟩ :=
      midReads v (by simp) head c (sep.toUTF8.toList ++ tail.toUTF8.toList ++ after) headText
        spacedTail headSplit
    obtain ⟨s, between, sRest⟩ := crosses e b (rest ++ after) opening
      (by rw [eRest, tailBytes, List.append_assoc, List.cons_append])
    obtain ⟨last, chain, lastRest⟩ := chained_of_joined crosses spaced (w :: more) tail s after
      tailText (by simp) (fun u mem => opens u (List.mem_cons_of_mem v mem))
      (fun u mem => midReads u (by rw [List.dropLast_cons_cons]; exact List.mem_cons_of_mem v mem))
      (fun u mem => lastReads u (by rw [List.getLast?_cons_cons]; exact mem))
      written (by rw [sRest, tailBytes, List.cons_append])
    exact ⟨last, .cons found between chain, lastRest⟩

/-- The items of a value of a solid grammar, written joined, are read one after another, when
the grammar reads back each of its values, whose numbers read back, where the value's end allows
what follows it. -/
theorem chained_of_written {inner : Grammar} {gap : Cursor → Cursor → Prop} {sep : String}
    {mid final : Follow} (solid : inner.Solid)
    (crosses : ∀ (e : Cursor) (b : UInt8) (rest : List UInt8), OpensItem b →
      e.rest = sep.toUTF8.toList ++ b :: rest → ∃ s, gap e s ∧ s.rest = b :: rest)
    (spaced : ∀ (b : UInt8) (rest : List UInt8), OpensItem b →
      mid.Written (sep.toUTF8.toList ++ b :: rest))
    (reads : ∀ (w : Value) (next : Follow), inner.Produces w → inner.Trail w next →
      (∀ x ∈ w.numbers, x.ReadsBack) → Rereads inner.read w next)
    {items : List Value} {text : String} {c : Cursor} {after : List UInt8}
    (rendered : Value.joinAll sep (Value.renderList items) = some text) (nonempty : items ≠ [])
    (produced : ∀ w ∈ items, inner.Produces w) (between : ∀ w ∈ items.dropLast, inner.Trail w mid)
    (lastTrail : ∀ w ∈ items.getLast?, inner.Trail w final)
    (numbers : ∀ x ∈ Value.itemNumbers items, x.ReadsBack)
    (written : final.Written after) (split : c.rest = text.toUTF8.toList ++ after) :
    ∃ last, Chained inner.read gap c items last ∧ last.rest = after := by
  have itemNumbers := fun w (mem : w ∈ items) x found => numbers x (Value.mem_itemNumbers mem found)
  exact chained_of_joined crosses spaced items text c after rendered nonempty
    (fun w mem t wText => Grammar.text_opens inner solid w t (produced w mem) wText)
    (fun w mem => reads w mid (produced w (List.dropLast_subset _ mem)) (between w mem)
      (itemNumbers w (List.dropLast_subset _ mem)))
    (fun w mem => reads w final (produced w (List.mem_of_getLast? mem)) (lastTrail w mem)
      (itemNumbers w (List.mem_of_getLast? mem)))
    written split

/-- A chain of readings of a grammar of the round trip gives items it produces, each but the
last ending where `mid` may follow, and the last ending as what follows the chain allows. -/
theorem chained_produces {inner : Grammar} {gap : Cursor → Cursor → Prop} {mid : Follow}
    (reads : ∀ (c : Cursor) (v : Value) (l : Cursor), inner.read c = (some v, l) →
      inner.Produces v ∧ ∀ next : Follow, next.Found inner l → inner.Trail v next)
    (foundGap : ∀ e s, gap e s → (inner.read s).1.isSome = true → mid.Found inner e)
    {c last : Cursor} {items : List Value} (chain : Chained inner.read gap c items last) :
    (∀ w ∈ items, inner.Produces w) ∧ (∀ w ∈ items.dropLast, inner.Trail w mid) ∧
      ∀ next : Follow, next.Found inner last → ∀ w ∈ items.getLast?, inner.Trail w next := by
  induction chain with
  | one found =>
    obtain ⟨produced, trail⟩ := reads _ _ _ found
    refine ⟨fun w mem => ?_, fun w mem => by simp at mem, fun next found' w mem => ?_⟩
    · rw [List.mem_singleton.1 mem]
      exact produced
    · simp only [List.getLast?_singleton, Option.mem_def, Option.some.injEq] at mem
      subst mem
      exact trail next found'
  | cons found between rest ih =>
    obtain ⟨produced, trail⟩ := reads _ _ _ found
    obtain ⟨w, more, rfl⟩ := List.exists_cons_of_ne_nil rest.ne_nil
    obtain ⟨_, readsNext⟩ := rest.first
    have midFound := foundGap _ _ between (by rw [readsNext]; rfl)
    obtain ⟨allProduced, allTrail, lastTrail⟩ := ih
    refine ⟨fun u mem => ?_, fun u mem => ?_, fun next found' u mem => ?_⟩
    · rcases List.mem_cons.1 mem with rfl | later
      · exact produced
      · exact allProduced u later
    · rw [List.dropLast_cons_cons] at mem
      rcases List.mem_cons.1 mem with rfl | later
      · exact trail mid midFound
      · exact allTrail u later
    · rw [List.getLast?_cons_cons] at mem
      exact lastTrail next found' u mem

namespace Grammar

/-! ### What a reading finds -/

/-- **What is read is produced.** A grammar of the round trip reads only values it produces, and
the end of each value allows what followed it in the text, where the grammar is solid or only
the end followed. By cases on the grammar: an empty tuple comes only from a repetition that may
read nothing, and then only the end follows; a run that stopped short of its greatest count is
followed by no item of its own; a shorthand's last slot copies some item, and all items of a
closed grammar end alike; a list stops where its own separator is not followed by an item; and a
default is read by the inner grammar from a text that holds nothing else. -/
theorem read_produces : (g : Grammar) → g.RoundTrips → ∀ (c : Cursor) (v : Value) (last : Cursor),
    g.read c = (some v, last) →
      g.Produces v ∧ ∀ next : Follow, (g.Solid ∨ next = .done) → next.Found g last →
        g.Trail v next
  | leaf kind, _, _, _, _, found => ⟨Leaf.read_produces found, fun _ _ _ => trivial⟩
  | keyword table, self, _, _, _, found =>
    ⟨KeywordTable.read_spells self found, fun _ _ _ => trivial⟩
  | repetition inner bounds, ⟨trips, solid⟩, c, v, last, found => by
    have inner_reads := fun c v l found =>
      (read_produces inner trips c v l found).imp_right fun trail next => trail next (.inl solid)
    simp only [read, Reader.repetition] at found
    rcases run : readRun inner.read bounds.max c with ⟨items, stop⟩
    rw [run] at found
    simp only at found
    split at found
    · cases found
    · rename_i enough
      cases found
      have fits := readRunFrom_length_le inner.read bounds.max false c
      rw [show readRunFrom inner.read bounds.max false c = (items, last) from run] at fits
      simp only at fits
      rcases readRun_chained run with ⟨rfl, rfl⟩ | chain
      · simp only [List.length_nil] at enough
        refine ⟨⟨[], rfl, by simp [Bounds.admits]; omega, by simp, by simp⟩,
          fun next solidOrDone _ => ?_⟩
        refine ⟨?_, by simp⟩
        rcases solidOrDone with ⟨least, -⟩ | rfl
        · omega
        · exact .inr (by simp)
      · obtain ⟨allProduced, allTrail, lastTrail⟩ :=
          chained_produces inner_reads runGap_found chain
        refine ⟨⟨items, rfl, by simp [Bounds.admits]; omega, allProduced, allTrail⟩, ?_⟩
        intro next solidOrDone followed
        refine ⟨?_, lastTrail next ?_⟩
        · cases next with
          | sibling =>
            left
            rcases solidOrDone with ⟨least, -⟩ | done
            · have first := Reader.repetition_first least followed
              rcases Nat.lt_or_ge items.length bounds.max with short | long
              · have stops := readRunFrom_stops (read_advances_of_solid inner solid) bounds.max
                  false c items last run chain.ne_nil short
                rw [stops] at first
                cases first
              · omega
            · cases done
          | done => exact .inr (by simp)
          | separator s => exact .inr (by simp)
        · rcases solidOrDone with ⟨least, -⟩ | rfl
          · exact followed.repetition least
          · exact followed
  | shorthand inner arity, ⟨trips, solid, closed, _⟩, c, v, last, found => by
    have inner_reads := fun c v l found =>
      (read_produces inner trips c v l found).imp_right fun trail next => trail next (.inl solid)
    simp only [read, Reader.shorthand] at found
    rcases run : readRun inner.read arity c with ⟨items, stop⟩
    rw [run] at found
    simp only at found
    split at found
    · rename_i slots filled
      cases found
      obtain ⟨⟨nonempty, _⟩, rfl⟩ := Shorthand.fill?_eq_some filled
      rcases readRun_chained run with ⟨rfl, -⟩ | chain
      · simp at nonempty
      · obtain ⟨allProduced, -, lastTrail⟩ :=
          chained_produces inner_reads runGap_found chain
        have slotProduced : ∀ w ∈ (List.range arity).map (fun slot =>
            items.get ⟨Shorthand.copiedSlot items.length slot,
              Shorthand.copiedSlot_lt nonempty slot⟩), inner.Produces w := by
          intro w mem
          obtain ⟨slot, -, rfl⟩ := List.mem_map.1 mem
          exact allProduced _ (List.get_mem _ _)
        refine ⟨⟨_, rfl, ?_, by simp, slotProduced⟩, fun next solidOrDone followed w mem => ?_⟩
        · simp
          omega
        · obtain ⟨lastItem, lastMem⟩ := Option.isSome_iff_exists.1
            (List.getLast?_isSome.2 chain.ne_nil)
          have itemTrail := lastTrail next (by
            rcases solidOrDone with solid' | rfl
            · exact followed.shorthand
            · exact followed) lastItem lastMem
          exact trail_congr inner closed lastItem w next
            (allProduced _ (List.mem_of_getLast? lastMem))
            (slotProduced w (List.mem_of_getLast? mem)) itemTrail
    · cases found
  | separated inner separator, ⟨trips, solid⟩, c, v, last, found => by
    have inner_reads := fun c v l found =>
      (read_produces inner trips c v l found).imp_right fun trail next => trail next (.inl solid)
    simp only [read, Reader.separated] at found
    split at found
    · rename_i first afterFirst readFirst
      rcases loop : readSeparated inner.read separator.byte afterFirst.rest.length afterFirst
        with ⟨more, stop⟩
      rw [loop] at found
      cases found
      obtain ⟨chain, stops⟩ := readSeparated_chained (read_disciplined inner) separator.byte _ c
        afterFirst first more stop readFirst (Nat.le_refl _) loop
      obtain ⟨allProduced, allTrail, lastTrail⟩ :=
        chained_produces inner_reads listGap_found chain
      refine ⟨⟨_, rfl, by simp, allProduced, allTrail⟩, fun next solidOrDone followed => ⟨?_, ?_⟩⟩
      · rintro rfl
        obtain ⟨d, taken, reads⟩ := followed
        have first := Reader.separated_first reads
        rw [stops d taken] at first
        cases first
      · apply lastTrail next
        rcases solidOrDone with solid' | rfl
        · exact followed.separated
        · exact followed
    · cases found
  | orDefault inner default, ⟨trips, text, parsed⟩, c, v, last, found => by
    simp only [read, Reader.orDefault] at found
    split at found
    · rename_i w next readInner
      cases found
      obtain ⟨produced, trail⟩ := read_produces inner trips c v last readInner
      refine ⟨produced, fun next solidOrDone followed => ?_⟩
      rcases solidOrDone with solid | rfl
      · exact solid.elim
      · exact trail .done (.inr rfl) followed
    · cases found
      obtain ⟨ending, readDefault, ends⟩ := parse?_eq_some parsed
      obtain ⟨produced, trail⟩ := read_produces inner trips _ default ending readDefault
      refine ⟨produced, fun next solidOrDone _ => ?_⟩
      rcases solidOrDone with solid | rfl
      · exact solid.elim
      · exact trail .done (.inr rfl) ends
  | named inner _, trips, c, v, last, found => read_produces inner trips c v last found
  | maybe _, trips, _, _, _, _ => trips.elim
  | choice _, trips, _, _, _, _ => trips.elim

/-! ### What a text reads -/

/-- **What is produced is read back.** A value that a grammar of the round trip produces, whose
numbers read back, is read back from its text wherever the text stands, when the value's end
allows what follows the text and the grammar is solid or only the end follows. By cases on the
grammar: only a repetition that may read nothing writes nothing, and then only the end follows;
a run written short of its greatest count is followed by no item of its own; every slot of a
shorthand is written, so its run reads as many items as it has slots; and a written list is
followed by no separator of its own, so its loop stops at its end. -/
theorem read_written : (g : Grammar) → g.RoundTrips → ∀ (v : Value) (next : Follow),
    (g.Solid ∨ next = .done) → g.Produces v → g.Trail v next →
      (∀ x ∈ v.numbers, x.ReadsBack) → Rereads g.read v next
  | leaf _, _, _, _, _, shape, _, numbers => fun _ _ _ rendered written split =>
    Leaf.read_written shape numbers rendered split written.delimits
  | keyword _, _, _, _, _, spells, _, _ => fun _ _ _ rendered written split =>
    KeywordTable.read_written spells rendered split written.delimits
  | repetition inner bounds, ⟨trips, solid⟩, _, next, solidOrDone,
      ⟨items, rfl, admits, produced, between⟩, ⟨full, lastTrail⟩, numbers => by
    intro text c after rendered written split
    simp only [Bounds.admits, Bool.and_eq_true, decide_eq_true_eq] at admits
    cases items with
    | nil =>
      simp only [List.length_nil] at admits
      obtain rfl : next = .done := solidOrDone.resolve_left fun solid => by
        have least : 1 ≤ bounds.min := solid.1
        omega
      obtain rfl : after = [] := written
      obtain rfl : text = "" := Option.some.inj (rendered.symm.trans Value.render_tuple_nil)
      have empty : c.rest = [] := by simpa using split
      have missing := read_none_of_solid inner solid c (by rw [empty]; intro b mem; cases mem)
      refine ⟨c, ?_, empty⟩
      simp only [read, Reader.repetition, readRun_of_none missing, List.length_nil]
      rw [if_neg (by omega)]
    | cons first more =>
      obtain ⟨last, chain, lastRest⟩ := chained_of_written solid runGap_crosses sibling_written
        (fun w next => read_written inner trips w next (.inl solid)) rendered (by simp) produced
        between lastTrail numbers written split
      have stops : (first :: more).length < bounds.max →
          (inner.read last.skipSpacing).1 = none := fun short =>
        written.read_none solid (full.resolve_left (by omega)) lastRest
      have run := readRunFrom_of_chained (read_advances_of_solid inner solid) (first :: more)
        bounds.max false c last chain admits.2 stops
      refine ⟨last, ?_, lastRest⟩
      simp only [read, Reader.repetition, readRun, run]
      rw [if_neg (by omega)]
  | shorthand inner arity, ⟨trips, solid, closed, _⟩, _, next, _,
      ⟨slots, rfl, nonempty, filled, produced⟩, lastTrail, numbers => by
    intro text c after rendered written split
    obtain ⟨last, chain, lastRest⟩ := chained_of_written solid runGap_crosses sibling_written
      (fun w next => read_written inner trips w next (.inl solid)) rendered nonempty produced
      (fun w mem => trail_of_closed inner closed w .sibling
        (produced w (List.dropLast_subset _ mem)) (by simp))
      lastTrail numbers written split
    have run := readRunFrom_of_chained (read_advances_of_solid inner solid) slots arity false c
      last chain (by omega) (fun short => by omega)
    refine ⟨last, ?_, lastRest⟩
    simp only [read, Reader.shorthand, readRun, run]
    rw [← filled, Shorthand.fill?_self nonempty]
  | separated inner separator, ⟨trips, solid⟩, _, next, _,
      ⟨items, rfl, nonempty, produced, between⟩, ⟨notOwn, lastTrail⟩, numbers => by
    intro text c after rendered written split
    obtain ⟨last, chain, lastRest⟩ := chained_of_written solid (listGap_crosses separator)
      (separator_written separator) (fun w next => read_written inner trips w next (.inl solid))
      rendered nonempty produced between lastTrail numbers written split
    obtain ⟨first, more, rfl⟩ := List.exists_cons_of_ne_nil nonempty
    obtain ⟨afterFirst, found⟩ := chain.first
    have stops : ∀ d, last.skipSpacing.takeByte? separator.byte = some d →
        (inner.read d.skipSpacing).1 = none := by
      intro d taken
      rw [written.takeByte?_none notOwn separator.valid lastRest] at taken
      cases taken
    have loop := readSeparated_of_chained (read_disciplined inner) separator.byte more c
      afterFirst first last found chain stops afterFirst.rest.length (Nat.le_refl _)
    refine ⟨last, ?_, lastRest⟩
    simp only [read, Reader.separated, found, loop]
  | orDefault inner _, ⟨trips, _⟩, v, next, solidOrDone, produced, trail, numbers => by
    intro text c after rendered written split
    obtain rfl : next = .done := solidOrDone.resolve_left fun solid => solid.elim
    obtain ⟨last, found, rest⟩ :=
      read_written inner trips v .done (.inr rfl) produced trail numbers text c after rendered
        written split
    exact ⟨last, by simp only [read, Reader.orDefault, found], rest⟩
  | named inner _, trips, v, next, solidOrDone, produced, trail, numbers =>
    read_written inner trips v next solidOrDone produced trail numbers
  | maybe _, trips, _, _, _, _, _, _ => trips.elim
  | choice _, trips, _, _, _, _, _, _ => trips.elim

/-! ### Texts of produced values -/

/-- A value of a grammar of the round trip has a text: it holds no optional. -/
theorem render_of_produces : (g : Grammar) → g.RoundTrips → ∀ v : Value, g.Produces v →
    ∃ text, v.render? = some text
  | leaf _, _, _, shape => Leaf.render_of_produces shape
  | keyword _, _, _, ⟨text, rendered, _⟩ => ⟨text, rendered⟩
  | repetition inner _, ⟨trips, _⟩, _, ⟨_, rfl, _, produced, _⟩ =>
    Value.joinAll_of_renders fun w mem => render_of_produces inner trips w (produced w mem)
  | shorthand inner _, ⟨trips, _⟩, _, ⟨_, rfl, _, _, produced⟩ =>
    Value.joinAll_of_renders fun w mem => render_of_produces inner trips w (produced w mem)
  | separated inner _, ⟨trips, _⟩, _, ⟨_, rfl, _, produced, _⟩ =>
    Value.joinAll_of_renders fun w mem => render_of_produces inner trips w (produced w mem)
  | orDefault inner _, ⟨trips, _⟩, v, produced => render_of_produces inner trips v produced
  | named inner _, trips, v, produced => render_of_produces inner trips v produced
  | maybe _, trips, _, _ => trips.elim
  | choice _, trips, _, _ => trips.elim

/-- The text of a value of a grammar of the round trip is empty or opens an item, so a reading
of it starts at its first byte. -/
theorem text_opens_or_empty : (g : Grammar) → g.RoundTrips → ∀ (v : Value) (text : String),
    g.Produces v → v.render? = some text →
      text.toUTF8.toList = [] ∨ ∃ b rest, text.toUTF8.toList = b :: rest ∧ OpensItem b
  | leaf kind, _, v, text, produced, rendered =>
    .inr (text_opens (leaf kind) trivial v text produced rendered)
  | keyword table, _, v, text, produced, rendered =>
    .inr (text_opens (keyword table) trivial v text produced rendered)
  | repetition inner _, ⟨_, solid⟩, _, text, ⟨items, rfl, _, produced, _⟩, rendered => by
    cases items with
    | nil =>
      obtain rfl : text = "" := Option.some.inj (rendered.symm.trans Value.render_tuple_nil)
      exact .inl (by simp)
    | cons first more =>
      exact .inr (opens_of_joinAll rendered fun head headText =>
        text_opens inner solid first head (produced first (by simp)) headText)
  | shorthand inner arity, ⟨_, solid, _⟩, v, text, produced, rendered =>
    .inr (text_opens (shorthand inner arity) solid v text produced rendered)
  | separated inner separator, ⟨_, solid⟩, v, text, produced, rendered =>
    .inr (text_opens (separated inner separator) solid v text produced rendered)
  | orDefault inner _, ⟨trips, _⟩, v, text, produced, rendered =>
    text_opens_or_empty inner trips v text produced rendered
  | named inner _, trips, v, text, produced, rendered =>
    text_opens_or_empty inner trips v text produced rendered
  | maybe _, trips, _, _, _, _ => trips.elim
  | choice _, trips, _, _, _, _ => trips.elim

/-! ### The round trip -/

/-- **The round trip.** For a grammar of the round trip, a value read from a whole text, whose
numbers read back from their own text, has a text, and that text reads as the same value. The
written text holds no spacing before its value, so rereading it starts at its first byte. -/
theorem parse_render_parse (g : Grammar) (trips : g.RoundTrips) (text : String) (v : Value)
    (parsed : g.parse? text = some v) (numbers : ∀ x ∈ v.numbers, x.ReadsBack) :
    ∃ written, v.render? = some written ∧ g.parse? written = some v := by
  obtain ⟨ending, found, ends⟩ := parse?_eq_some parsed
  obtain ⟨produced, trail⟩ := read_produces g trips _ v ending found
  obtain ⟨written, rendered⟩ := render_of_produces g trips v produced
  have start : (Cursor.ofString written).skipSpacing.rest = written.toUTF8.toList ++ [] := by
    have bytes : (Cursor.ofString written).rest = written.toUTF8.toList := rfl
    rw [List.append_nil]
    rcases text_opens_or_empty g trips v written produced rendered with
      empty | ⟨b, rest, split, opens⟩
    · rw [Cursor.skipSpacing_rest, bytes, empty, List.drop_nil]
    · rw [Cursor.skipSpacing_of_opens (bytes.trans split) opens, split]
  obtain ⟨last, reread, rest⟩ := read_written g trips v .done (.inr rfl) produced
    (trail .done (.inr rfl) ends) numbers written _ [] rendered rfl start
  exact ⟨written, rendered, parse?_of_read reread (Cursor.atEndOfContent_of_nil rest)⟩

/-- Runs of comma lists read back from their text, wherever the text put spacing and comments:
runs of integer lists, and runs of number lists whose numbers `1`, `0.1` and `-2.5` each read
back from their own text, so that the value's text `1, 0.1 -2.5` reads as the same value. -/
theorem comma_lists_reread :
    ((repetition (separated (leaf .integer) Separator.comma) Bounds.plus).parse?
        "1 , 2 /* gap */ 3" =
      some (.tuple [.list [.integer 1, .integer 2] 0x2C, .list [.integer 3] 0x2C]) ∧
    ∃ written,
      (Value.tuple [.list [.integer 1, .integer 2] 0x2C, .list [.integer 3] 0x2C]).render? =
        some written ∧
      (repetition (separated (leaf .integer) Separator.comma) Bounds.plus).parse? written =
        some (.tuple [.list [.integer 1, .integer 2] 0x2C, .list [.integer 3] 0x2C])) ∧
    ∃ v, (repetition (separated (leaf .number) Separator.comma) Bounds.plus).parse?
        "1 , 0.1 /* gap */ -2.5" = some v ∧
      v.numbers.map Binary64.render = ["1", "0.1", "-2.5"] ∧ (∀ x ∈ v.numbers, x.ReadsBack) ∧
      v.render? = some "1, 0.1 -2.5" ∧
      (repetition (separated (leaf .number) Separator.comma) Bounds.plus).parse? "1, 0.1 -2.5" =
        some v := by
  have integers : (repetition (separated (leaf .integer) Separator.comma) Bounds.plus).parse?
      "1 , 2 /* gap */ 3" =
      some (.tuple [.list [.integer 1, .integer 2] 0x2C, .list [.integer 3] 0x2C]) := by cbv
  obtain ⟨v, parsed⟩ : ∃ v, (repetition (separated (leaf .number) Separator.comma)
      Bounds.plus).parse? "1 , 0.1 /* gap */ -2.5" = some v :=
    Option.isSome_iff_exists.1 (by decide +kernel)
  have facts : ((repetition (separated (leaf .number) Separator.comma) Bounds.plus).parse?
      "1 , 0.1 /* gap */ -2.5").map (fun v => (v.numbers.map Binary64.render,
        v.numbers.all fun x => decide x.ReadsBack, v.render?)) =
      some (["1", "0.1", "-2.5"], true, some "1, 0.1 -2.5") := by decide +kernel
  rw [parsed, Option.map_some, Option.some_inj, Prod.mk.injEq, Prod.mk.injEq] at facts
  obtain ⟨texts, checked, rendered⟩ := facts
  have numbers : ∀ x ∈ v.numbers, x.ReadsBack := by simpa using checked
  obtain ⟨written, written_eq, reread⟩ :=
    parse_render_parse (repetition (separated (leaf .number) Separator.comma) Bounds.plus)
      ⟨⟨trivial, trivial⟩, trivial⟩ _ _ parsed numbers
  rw [rendered, Option.some_inj] at written_eq
  refine ⟨⟨integers, parse_render_parse (repetition (separated (leaf .integer) Separator.comma)
    Bounds.plus) ⟨⟨trivial, trivial⟩, trivial⟩ _ _ integers
    (by simp [Value.numbers, Value.itemNumbers])⟩, v, parsed, texts, numbers, rendered, ?_⟩
  rw [written_eq]
  exact reread

/-- A run of integers with a default is not a grammar of the round trip: the empty text reads as
the default once, and its text `7` reads as the default twice, once for `7` and once at the end
where the default stands in for the missing item. -/
theorem repeated_default_reads_twice :
    (repetition (orDefault (leaf .integer) (.integer 7)) Bounds.plus).parse? "" =
      some (.tuple [.integer 7]) ∧
    (Value.tuple [.integer 7]).render? = some "7" ∧
    (repetition (orDefault (leaf .integer) (.integer 7)) Bounds.plus).parse? "7" =
      some (.tuple [.integer 7, .integer 7]) := by
  refine ⟨?_, ?_, ?_⟩ <;> cbv

end Grammar

end StyleGrammar
