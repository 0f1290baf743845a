import StyleGrammar.Proofs.Keywords
import Mathlib.Data.List.Nodup

/-!
**Keyword tables: building them and looking keywords up.**

A table is built from its entries in order. Each key must be one identifier, and its canonical
form under the table's policy must be new; the table keeps the canonical key with the value. A
keyword is read by taking the identifier at the cursor and looking its canonical form up, while
a single keyword is matched by comparing the identifier with it, pairwise over bytes.

* `KeywordTable.insert?_eq_ok_iff`, `KeywordTable.insert?_of_refused`: one entry is added exactly
  when its key is an identifier whose canonical form is new, and is refused with the error that
  names it otherwise;
* `KeywordTable.foldlM_insert?_eq_ok_iff`: entries added in order all go in exactly when they are
  `Addable`, and the table then holds them after its own, keys canonical;
* `KeywordTable.foldlM_insert?_of_refused`: otherwise the error is that of the first entry refused;
* `KeywordTable.lookup?_eq_some_iff`: the lookup by canonical form finds the value of the entry
  whose key the identifier matches;
* `KeywordTable.read_eq_some_iff_lookup?`: a table reads the identifier at the cursor when it
  looks a value up for it;
* `KeywordTable.read_eq_some_iff`: reading a keyword of a table ends as matching the keyword of
  one of its entries would;
* `KeywordTable.build?_and_read`: construction, size, keys and lookup together.
-/

namespace StyleGrammar

namespace KeywordTable

/-- The canonical keys of a table, in the order they were added. -/
def keys (table : KeywordTable) : List String :=
  table.entries.map Prod.fst

/-- An entry as a table holds it: its key in canonical form. -/
def stored (policy : CasePolicy) (entry : String × Value) : String × Value :=
  (policy.canonical entry.1, entry.2)

/-- Entries that a table with the given canonical keys takes: each key is one identifier, and
their canonical forms are distinct and not among the keys already there. -/
def Addable (policy : CasePolicy) (keys : List String) (entries : List (String × Value)) : Prop :=
  (∀ entry ∈ entries, Token.isWholeIdentifier entry.1 = true) ∧
    (entries.map fun entry => policy.canonical entry.1).Nodup ∧
    ∀ key ∈ keys, ∀ entry ∈ entries, key ≠ policy.canonical entry.1

/-- The error that refuses a key: not an identifier, or else a repeated canonical form. -/
def refusal (key : String) : BuildError :=
  if Token.isWholeIdentifier key then .keywordRepeated key else .keywordNotIdentifier key

theorem any_key_eq_iff (table : KeywordTable) (key : String) :
    table.entries.any (fun entry => entry.1 == key) = true ↔ key ∈ table.keys := by
  simp [keys]

/-! ### Adding entries -/

/-- One entry is added exactly when its key is an identifier whose canonical form is new. -/
theorem insert?_eq_ok_iff {table result : KeywordTable} {key : String} {value : Value} :
    table.insert? key value = .ok result ↔
      Token.isWholeIdentifier key = true ∧ table.policy.canonical key ∉ table.keys ∧
        result = { table with entries := table.entries ++ [stored table.policy (key, value)] } := by
  unfold insert?
  by_cases identifier : Token.isWholeIdentifier key = true
  · by_cases repeated :
        table.entries.any (fun entry => entry.1 == table.policy.canonical key) = true
    · have present := (any_key_eq_iff table _).1 repeated
      simp [identifier, repeated, present]
    · have absent : table.policy.canonical key ∉ table.keys := fun present =>
        repeated ((any_key_eq_iff table _).2 present)
      simp only [identifier, repeated, absent, Bool.not_true, Bool.false_eq_true, if_false,
        Except.ok.injEq, stored]
      exact ⟨fun same => ⟨trivial, not_false, same.symm⟩, fun ⟨_, _, same⟩ => same.symm⟩
  · simp [identifier]

/-- A key that is not an identifier, or whose canonical form is already there, is refused with
the error that names it as written. -/
theorem insert?_of_refused {table : KeywordTable} {key : String} (value : Value)
    (refused : Token.isWholeIdentifier key = false ∨ table.policy.canonical key ∈ table.keys) :
    table.insert? key value = .error (refusal key) := by
  unfold insert? refusal
  cases identifier : Token.isWholeIdentifier key
  · rfl
  · have present : table.policy.canonical key ∈ table.keys := by simpa [identifier] using refused
    simp [(any_key_eq_iff table _).2 present]

/-- Adding one entry and then more is adding all of them. -/
theorem addable_cons {policy : CasePolicy} {keys : List String} {entry : String × Value}
    {more : List (String × Value)} :
    Addable policy keys (entry :: more) ↔
      Token.isWholeIdentifier entry.1 = true ∧ policy.canonical entry.1 ∉ keys ∧
        Addable policy (keys ++ [policy.canonical entry.1]) more := by
  simp only [Addable, List.forall_mem_cons, List.map_cons, List.nodup_cons, List.mem_map,
    List.mem_append, List.mem_singleton]
  constructor
  · rintro ⟨⟨identifier, identifiers⟩, ⟨fresh, distinct⟩, apart⟩
    refine ⟨identifier, fun present => (apart _ present).1 rfl, identifiers, distinct, ?_⟩
    intro key inside other mem same
    rcases inside with old | rfl
    · exact (apart key old).2 other mem same
    · exact fresh ⟨other, mem, same.symm⟩
  · rintro ⟨identifier, absent, identifiers, distinct, apart⟩
    refine ⟨⟨identifier, identifiers⟩, ⟨?_, distinct⟩, fun key old => ⟨?_, ?_⟩⟩
    · rintro ⟨other, mem, same⟩
      exact apart _ (.inr rfl) other mem same.symm
    · rintro rfl
      exact absent old
    · exact fun other mem => apart key (.inl old) other mem

/-- **Entries added in order** all go in exactly when they are addable, and the table then
holds them after its own, in order, with canonical keys. By induction on the entries: a refused
entry is not addable, and the rest go into the table that holds the entry too. -/
theorem foldlM_insert?_eq_ok_iff (entries : List (String × Value)) :
    ∀ table result : KeywordTable,
      entries.foldlM (fun table entry => table.insert? entry.1 entry.2) table = .ok result ↔
        Addable table.policy table.keys entries ∧
          result =
            { table with entries := table.entries ++ entries.map (stored table.policy) } := by
  induction entries with
  | nil =>
    intro table result
    simp only [List.foldlM_nil, List.map_nil, List.append_nil]
    exact ⟨fun same => ⟨by simp [Addable], by cases same; rfl⟩,
      fun ⟨_, same⟩ => by rw [same]; rfl⟩
  | cons entry more ih =>
    intro table result
    rw [List.foldlM_cons, addable_cons]
    cases added : table.insert? entry.1 entry.2 with
    | error e =>
      simp only [bind, Except.bind, reduceCtorEq, false_iff]
      rintro ⟨⟨identifier, absent, _⟩, _⟩
      have := (@insert?_eq_ok_iff table _ entry.1 entry.2).2 ⟨identifier, absent, rfl⟩
      rw [added] at this
      cases this
    | ok next =>
      obtain ⟨identifier, absent, rfl⟩ := insert?_eq_ok_iff.1 added
      have keysAfter : ({ table with entries := table.entries ++ [stored table.policy entry] } :
          KeywordTable).keys = table.keys ++ [table.policy.canonical entry.1] := by
        simp [keys, stored]
      simp only [bind, Except.bind]
      rw [ih, keysAfter]
      simp only [identifier, absent, not_false_eq_true, true_and, List.map_cons, List.append_assoc,
        List.singleton_append]

/-- **The first refused entry decides the error.** When the entries before it are addable,
an entry whose key is not an identifier or repeats a canonical form is refused with the error
that names it, whatever follows. -/
theorem foldlM_insert?_of_refused (table : KeywordTable) {before after : List (String × Value)}
    {key : String} (value : Value) (addable : Addable table.policy table.keys before)
    (refused : Token.isWholeIdentifier key = false ∨
      table.policy.canonical key ∈
        table.keys ++ before.map fun entry => table.policy.canonical entry.1) :
    (before ++ (key, value) :: after).foldlM (fun table entry => table.insert? entry.1 entry.2)
      table = .error (refusal key) := by
  have first := (foldlM_insert?_eq_ok_iff before table _).2 ⟨addable, rfl⟩
  have stops : ({ table with entries := table.entries ++ before.map (stored table.policy) } :
      KeywordTable).insert? key value = .error (refusal key) :=
    insert?_of_refused value (by simpa [keys, stored, Function.comp_def] using refused)
  rw [List.foldlM_append, first]
  simp only [bind, Except.bind, List.foldlM_cons, stops]

/-! ### Looking keywords up -/

section Built

variable {policy : CasePolicy} {entries : List (String × Value)}

/-- A built table holds its entries in order, keys canonical, and they were addable. -/
theorem build?_eq_ok_iff {table : KeywordTable} :
    build? policy entries = .ok table ↔
      Addable policy [] entries ∧ table = ⟨policy, entries.map (stored policy)⟩ := by
  rw [build?, foldlM_insert?_eq_ok_iff]
  rfl

/-- The canonical keys of addable entries are distinct. -/
theorem stored_keys_nodup (addable : Addable policy [] entries) :
    ((entries.map (stored policy)).map Prod.fst).Nodup := by
  simpa [stored, Function.comp_def] using addable.2.1

/-- Looking an identifier up by its canonical form finds the value of the entry whose key the
identifier matches: at most one does, since the canonical keys are distinct. -/
theorem lookup?_eq_some_iff (addable : Addable policy [] entries) (name : String) (v : Value) :
    (⟨policy, entries.map (stored policy)⟩ : KeywordTable).lookup? name = some v ↔
      ∃ key, (key, v) ∈ entries ∧ policy.matchesName name key = true := by
  simp only [lookup?, Option.map_eq_some_iff]
  constructor
  · rintro ⟨found, first, rfl⟩
    have hit := List.find?_some first
    obtain ⟨⟨key, value⟩, mem, rfl⟩ := List.mem_map.1 (List.mem_of_find?_eq_some first)
    refine ⟨key, mem, ?_⟩
    simp only [stored, beq_iff_eq] at hit
    rw [CasePolicy.matchesName_eq_equal, CasePolicy.equal, hit, beq_self_eq_true]
  · rintro ⟨key, mem, matching⟩
    have same : policy.canonical key = policy.canonical name := by
      rw [CasePolicy.matchesName_eq_equal, CasePolicy.equal, beq_iff_eq] at matching
      exact matching.symm
    have held : stored policy (key, v) ∈ entries.map (stored policy) := List.mem_map_of_mem mem
    cases first :
        (entries.map (stored policy)).find? (fun entry => entry.1 == policy.canonical name) with
    | none =>
      have := List.find?_eq_none.1 first _ held
      simp [stored, same] at this
    | some found =>
      refine ⟨found, rfl, ?_⟩
      have hit : found.1 = (stored policy (key, v)).1 := by
        simpa [stored, same] using List.find?_some first
      have := List.inj_on_of_nodup_map (stored_keys_nodup addable)
        (List.mem_of_find?_eq_some first) held hit
      rw [this]
      rfl

/-- Taking a keyword is taking the identifier at the cursor when it matches the keyword. -/
theorem takeKeyword?_eq_some_iff (c : Cursor) (policy : CasePolicy) (key : String)
    (next : Cursor) :
    c.takeKeyword? policy key = some next ↔
      ∃ name, c.takeIdentifier? = some (name, next) ∧ policy.matchesName name key = true := by
  rw [Cursor.takeKeyword?_eq]
  cases taken : c.takeIdentifier? with
  | none => simp
  | some found =>
    obtain ⟨name, after⟩ := found
    simp only [Option.bind_some, Option.some.injEq, Prod.mk.injEq, CasePolicy.matchesName_eq_equal]
    constructor
    · intro h
      split at h
      · exact ⟨name, ⟨rfl, Option.some.inj h⟩, by assumption⟩
      · cases h
    · rintro ⟨_, ⟨rfl, rfl⟩, matching⟩
      simp [matching]

/-- A table reads the identifier at the cursor when it looks a value up for it. -/
theorem read_eq_some_iff_lookup? (table : KeywordTable) (c : Cursor) (v : Value) (next : Cursor) :
    table.read c = (some v, next) ↔
      ∃ name, c.takeIdentifier? = some (name, next) ∧ table.lookup? name = some v := by
  unfold read
  cases taken : c.takeIdentifier? with
  | none => simp
  | some found =>
    obtain ⟨name, after⟩ := found
    cases looked : table.lookup? name with
    | none => simp [looked]
    | some value =>
      simp only [looked, Option.some.injEq, Prod.mk.injEq]
      constructor
      · rintro ⟨rfl, rfl⟩
        exact ⟨name, ⟨rfl, rfl⟩, looked⟩
      · rintro ⟨_, ⟨rfl, rfl⟩, found⟩
        rw [looked, Option.some.injEq] at found
        exact ⟨found, rfl⟩

/-- **Reading a keyword of a built table** ends as matching the keyword of one of its entries
would: the same value, read from the same identifier, with the same cursor movement. -/
theorem read_eq_some_iff {table : KeywordTable} (built : build? policy entries = .ok table)
    (c : Cursor) (v : Value) (next : Cursor) :
    table.read c = (some v, next) ↔
      ∃ key, (key, v) ∈ entries ∧ c.takeKeyword? policy key = some next := by
  obtain ⟨addable, rfl⟩ := build?_eq_ok_iff.1 built
  simp only [read_eq_some_iff_lookup?, lookup?_eq_some_iff addable, takeKeyword?_eq_some_iff]
  constructor
  · rintro ⟨name, taken, key, mem, matching⟩
    exact ⟨key, mem, name, taken, matching⟩
  · rintro ⟨key, mem, name, taken, matching⟩
    exact ⟨name, taken, key, mem, matching⟩

end Built

/-- **Keyword tables are built and looked up as specified.** For every policy and every list
of entries: building succeeds exactly when every key is one identifier and no two keys have the
same canonical form; otherwise, at the first entry that is not an identifier or repeats an
earlier canonical form, it fails with the error naming that key as written. A built table has
one keyword per entry, its keys are the entries' canonical keys, and at every cursor reading a
keyword succeeds exactly when the identifier there matches the key of an entry; it then gives
that entry's value and moves as matching that key would, and otherwise it does not move. A
cursor inside a character, which only taking the leading byte of a character reaches, reads no
identifier here (`Cursor.takeIdentifier?`), where cutting the text there would stop the
program. -/
theorem build?_and_read (policy : CasePolicy) (entries : List (String × Value)) :
    ((∃ table, build? policy entries = .ok table) ↔
      (∀ entry ∈ entries, Token.isWholeIdentifier entry.1 = true) ∧
        (entries.map fun entry => policy.canonical entry.1).Nodup) ∧
    (∀ before key value after, entries = before ++ (key, value) :: after →
      (∀ entry ∈ before, Token.isWholeIdentifier entry.1 = true) →
      (before.map fun entry => policy.canonical entry.1).Nodup →
      (Token.isWholeIdentifier key = false ∨
        policy.canonical key ∈ before.map fun entry => policy.canonical entry.1) →
      build? policy entries = .error (refusal key)) ∧
    ∀ table, build? policy entries = .ok table →
      table.size = entries.length ∧
      table.sortedKeys.Perm (entries.map fun entry => policy.canonical entry.1) ∧
      ∀ c : Cursor,
        (∀ v next, table.read c = (some v, next) ↔
          ∃ key, (key, v) ∈ entries ∧ c.takeKeyword? policy key = some next) ∧
        (∀ key next, c.takeKeyword? policy key = some next ↔
          ∃ name, c.takeIdentifier? = some (name, next) ∧
            policy.matchesName name key = true) ∧
        ((table.read c).1 = none → (table.read c).2 = c) := by
  refine ⟨?_, ?_, fun table built => ?_⟩
  · constructor
    · rintro ⟨table, built⟩
      exact ⟨(build?_eq_ok_iff.1 built).1.1, (build?_eq_ok_iff.1 built).1.2.1⟩
    · rintro ⟨identifiers, distinct⟩
      exact ⟨_, build?_eq_ok_iff.2 ⟨⟨identifiers, distinct, by simp⟩, rfl⟩⟩
  · rintro before key value after rfl identifiers distinct refused
    exact foldlM_insert?_of_refused (empty policy) value
      ⟨identifiers, distinct, by simp [keys, empty]⟩ (by simpa [keys, empty] using refused)
  · obtain ⟨_, rfl⟩ := build?_eq_ok_iff.1 built
    refine ⟨by simp [size], ?_, fun c =>
      ⟨read_eq_some_iff built c, takeKeyword?_eq_some_iff c policy, fun missing => ?_⟩⟩
    · simpa [sortedKeys, stored, Function.comp_def] using
        List.mergeSort_perm ((entries.map (stored policy)).map Prod.fst) _
    · have obeys := KeywordTable.read_disciplined ⟨policy, entries.map (stored policy)⟩ c
      rcases reading : read ⟨policy, entries.map (stored policy)⟩ c with ⟨_ | v, after⟩
      · rw [reading] at obeys
        exact obeys
      · simp [reading] at missing

end KeywordTable

end StyleGrammar
