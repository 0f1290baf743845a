import StyleGrammar.Grammar.Basic

/-!
**Insignificant content, said without the scanner.**

Between tokens a text may hold blanks and comments. `Token.spacingSpan` measures them by
scanning; here the same content is a grammar of its own: blanks and comments in any order, where
a comment opened by `/*` is closed by the first `*/` after it, and the last comment may stay open
to the end of the text.

* `Token.Insignificant`: the grammar;
* `Token.commentSpan_cases`: a comment body either runs to the end with no close or stops at its
  first `*/`;
* `Token.spacingSpan_eq_length_iff`: the scan covers the whole of the bytes exactly when they are
  insignificant content;
* `Cursor.atEndOfContent_iff`: only insignificant content is left exactly when the unread rest
  is insignificant.
-/

namespace StyleGrammar.Token

/-- Bytes with no comment close `*/` among them. -/
def CommentBody (body : List UInt8) : Prop :=
  ∀ pre post, body ≠ pre ++ 0x2A :: 0x2F :: post

/-- Insignificant content: blanks and comments in any order. A comment is closed by the first
`*/` after its `/*`, so its body holds none; the last one may be left open to the end. -/
inductive Insignificant : List UInt8 → Prop where
  | nil : Insignificant []
  | blank {b : UInt8} {rest : List UInt8} :
      isBlank b = true → Insignificant rest → Insignificant (b :: rest)
  | comment {body rest : List UInt8} :
      CommentBody body → Insignificant rest →
        Insignificant (0x2F :: 0x2A :: (body ++ 0x2A :: 0x2F :: rest))
  | unclosed {body : List UInt8} : CommentBody body → Insignificant (0x2F :: 0x2A :: body)

/-! ### Comment bodies -/

theorem CommentBody.nil : CommentBody [] := by
  intro pre post same
  have := congrArg List.length same
  simp at this

theorem CommentBody.of_cons {b : UInt8} {body : List UInt8} (h : CommentBody (b :: body)) :
    CommentBody body := by
  intro pre post same
  exact h (b :: pre) post (by rw [same, List.cons_append])

theorem commentBody_cons {b : UInt8} {xs : List UInt8} :
    CommentBody (b :: xs) ↔ CommentBody xs ∧ ¬ (b = 0x2A ∧ xs.head? = some 0x2F) := by
  constructor
  · intro h
    refine ⟨h.of_cons, ?_⟩
    rintro ⟨rfl, opens⟩
    obtain ⟨ys, rfl⟩ : ∃ ys, xs = 0x2F :: ys := by
      cases xs with
      | nil => simp at opens
      | cons x ys =>
        simp only [List.head?_cons, Option.some.injEq] at opens
        exact ⟨ys, by rw [opens]⟩
    exact h [] ys rfl
  · rintro ⟨rest, notClose⟩ pre post same
    cases pre with
    | nil =>
      simp only [List.nil_append, List.cons.injEq] at same
      obtain ⟨rfl, rfl⟩ := same
      exact notClose ⟨rfl, rfl⟩
    | cons p ps =>
      simp only [List.cons_append, List.cons.injEq] at same
      exact rest ps post same.2

theorem commentSpan_cons_cons (b c : UInt8) (more : List UInt8) :
    commentSpan (b :: c :: more) =
      if (b == 0x2A && c == 0x2F) = true then 2 else 1 + commentSpan (c :: more) := rfl

/-- A body with no close runs to the end of the text. -/
theorem commentSpan_of_body {body : List UInt8} (open_ : CommentBody body) :
    commentSpan body = body.length := by
  induction body with
  | nil => rfl
  | cons b rest ih =>
    unfold commentSpan
    split
    · rename_i c more
      have notClose : ¬ (b == 0x2A && c == 0x2F) = true := by
        intro close
        simp only [Bool.and_eq_true, beq_iff_eq] at close
        obtain ⟨rfl, rfl⟩ := close
        exact open_ [] more rfl
      rw [if_neg notClose, ih open_.of_cons]
      simp
      omega
    · rfl

/-- A comment closes at its first `*/`: before it no two bytes are a close, since either the
second is the close's own star or the pair lies inside the body. -/
theorem commentSpan_close {pre : List UInt8} (open_ : CommentBody pre) (post : List UInt8) :
    commentSpan (pre ++ 0x2A :: 0x2F :: post) = pre.length + 2 := by
  induction pre with
  | nil => simp [commentSpan]
  | cons b rest ih =>
    obtain ⟨c, more, split⟩ : ∃ c more, rest ++ 0x2A :: 0x2F :: post = c :: more := by
      cases rest <;> simp
    have notClose : ¬ (b == 0x2A && c == 0x2F) = true := by
      intro close
      simp only [Bool.and_eq_true, beq_iff_eq] at close
      obtain ⟨rfl, rfl⟩ := close
      cases rest with
      | nil => simp at split
      | cons r rs =>
        simp only [List.cons_append, List.cons.injEq] at split
        obtain ⟨rfl, -⟩ := split
        exact open_ [] rs rfl
    rw [List.cons_append, split, commentSpan_cons_cons, if_neg notClose, ← split,
      ih open_.of_cons]
    simp
    omega

/-- A comment body either runs to the end with no close, or stops at its first `*/`. -/
theorem commentSpan_cases (body : List UInt8) :
    (CommentBody body ∧ commentSpan body = body.length) ∨
      ∃ pre post, body = pre ++ 0x2A :: 0x2F :: post ∧ CommentBody pre ∧
        commentSpan body = pre.length + 2 := by
  induction body with
  | nil => exact .inl ⟨CommentBody.nil, rfl⟩
  | cons b rest ih =>
    cases rest with
    | nil => exact .inl ⟨commentBody_cons.2 ⟨CommentBody.nil, by simp⟩, rfl⟩
    | cons c more =>
      by_cases close : b = 0x2A ∧ c = 0x2F
      · obtain ⟨rfl, rfl⟩ := close
        exact .inr ⟨[], more, rfl, CommentBody.nil, rfl⟩
      · have notClose : ¬ (b == 0x2A && c == 0x2F) = true := by simpa using close
        rw [commentSpan_cons_cons, if_neg notClose]
        rcases ih with ⟨open_, span⟩ | ⟨pre, post, split, open_, span⟩
        · refine .inl ⟨commentBody_cons.2 ⟨open_, by simpa using close⟩, ?_⟩
          rw [span]
          simp
          omega
        · refine .inr ⟨b :: pre, post, by rw [List.cons_append, ← split], ?_, ?_⟩
          · refine commentBody_cons.2 ⟨open_, ?_⟩
            cases pre with
            | nil => simp
            | cons p ps =>
              simp only [List.cons_append, List.cons.injEq] at split
              simpa [← split.1] using close
          · rw [span]
            simp
            omega

/-! ### The scan against the grammar -/

theorem spacingSpan_blank {b : UInt8} (blank : isBlank b = true) (rest : List UInt8) :
    spacingSpan (b :: rest) = 1 + spacingSpan rest := by
  rw [spacingSpan.eq_def]
  simp [blank]

theorem spacingSpan_comment (body : List UInt8) :
    spacingSpan (0x2F :: 0x2A :: body) =
      2 + commentSpan body + spacingSpan (body.drop (commentSpan body)) := by
  rw [spacingSpan.eq_def]
  simp [isBlank]

theorem spacingSpan_of_insignificant {bytes : List UInt8} (h : Insignificant bytes) :
    spacingSpan bytes = bytes.length := by
  induction h with
  | nil => simp [spacingSpan]
  | blank blank _ ih =>
    rw [spacingSpan_blank blank, ih]
    simp
    omega
  | @comment body rest open_ _ ih =>
    rw [spacingSpan_comment, commentSpan_close open_,
      show body ++ 0x2A :: 0x2F :: rest = (body ++ [0x2A, 0x2F]) ++ rest by simp,
      List.drop_left' (by simp), ih]
    simp
    omega
  | @unclosed body open_ =>
    rw [spacingSpan_comment, commentSpan_of_body open_, List.drop_length]
    simp [spacingSpan]
    omega

/-- A scan that covers all the bytes covers them with insignificant content: a comment and what
follows it are each covered whole, since neither scan runs past its own bytes. -/
theorem insignificant_of_spacingSpan {bytes : List UInt8} (h : spacingSpan bytes = bytes.length) :
    Insignificant bytes := by
  fun_induction spacingSpan bytes with
  | case1 => exact .nil
  | case2 b rest blank ih =>
    simp at h
    exact .blank blank (ih (by omega))
  | case3 b notBlank slash c body star bounded inner ih =>
    have slash : b = 0x2F := by simpa using slash
    have star : c = 0x2A := by simpa using star
    subst slash star
    have tailBound := spacingSpan_le (body.drop inner)
    simp only [List.length_drop, List.length_cons] at h tailBound
    have rest := ih (by simp only [List.length_drop]; omega)
    rcases commentSpan_cases body with ⟨open_, _⟩ | ⟨pre, post, split, open_, span⟩
    · exact .unclosed open_
    · have after : body.drop inner = post := by
        simp only [inner, span, split]
        rw [show pre ++ 0x2A :: 0x2F :: post = (pre ++ [0x2A, 0x2F]) ++ post by simp,
          List.drop_left' (by simp)]
      rw [after] at rest
      rw [split]
      exact .comment open_ rest
  | _ => simp at h

/-- Spacing covers the whole of the bytes exactly when they are insignificant content. -/
theorem spacingSpan_eq_length_iff {bytes : List UInt8} :
    spacingSpan bytes = bytes.length ↔ Insignificant bytes :=
  ⟨insignificant_of_spacingSpan, spacingSpan_of_insignificant⟩

/-- Insignificant content opens with a blank or a slash, neither of which continues a name. -/
theorem Insignificant.stops {bytes : List UInt8} (h : Insignificant bytes) :
    ∀ b ∈ bytes.head?, continuesName b = false := by
  intro b mem
  cases h with
  | nil => simp at mem
  | @blank x rest blank _ =>
    simp only [List.head?_cons, Option.mem_def, Option.some.injEq] at mem
    subst mem
    simp only [isBlank, Bool.or_eq_true, beq_iff_eq] at blank
    rcases blank with (((rfl | rfl) | rfl) | rfl) | rfl <;> decide
  | comment =>
    simp only [List.head?_cons, Option.mem_def, Option.some.injEq] at mem
    subst mem
    decide
  | unclosed =>
    simp only [List.head?_cons, Option.mem_def, Option.some.injEq] at mem
    subst mem
    decide

end StyleGrammar.Token

namespace StyleGrammar.Cursor

/-- Only insignificant content is left exactly when the unread rest is insignificant. -/
theorem atEndOfContent_iff (c : Cursor) :
    c.atEndOfContent = true ↔ Token.Insignificant c.rest := by
  rw [← Token.spacingSpan_eq_length_iff]
  have := Token.spacingSpan_le c.rest
  simp [atEndOfContent, atEnd, skipSpacing]
  omega

end StyleGrammar.Cursor
