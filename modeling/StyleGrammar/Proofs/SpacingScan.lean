import StyleGrammar.Proofs.LongestMatch

/-!
**The spacing scan stops after the longest closed spacing.**

Between tokens a text may hold blanks and comments. Skipping them stops at the end of the
longest prefix made of blanks and *closed* comments, each closed by the first `*/` after its
`/*`; when a comment that is never closed opens right there, it runs to the end of the text
instead. Either way the cursor ends before a byte that opens neither a blank nor a comment, so
skipping again does not move it.

* `Token.ClosedSpacing`: blanks and closed comments in any order; `Token.OpensUnclosed`: a
  comment opens and is never closed; `Token.Settled`: neither a blank nor a comment opens;
* `Token.LongestPrefix.settled`, `.blank`, `.comment`, `.unclosed`: the longest closed spacing,
  one lemma per way the bytes can open;
* `Token.spacingSpan_stops`: the scan stops after the longest closed spacing, or runs to the end
  over an unclosed comment opened there;
* `Cursor.skipSpacing_longest`, `Cursor.skipSpacing_skipSpacing`: the same for the cursor, which
  is left before settled bytes and is not moved by a second skip;
* `spacing_scan_longest`: all of it together, with the cursor's byte and the one after it.
-/

namespace StyleGrammar.Token

/-- Blanks and closed comments in any order. A comment is closed by the first `*/` after its
`/*`, so its body holds none. -/
inductive ClosedSpacing : List UInt8 → Prop where
  | nil : ClosedSpacing []
  | blank {b : UInt8} {rest : List UInt8} :
      isBlank b = true → ClosedSpacing rest → ClosedSpacing (b :: rest)
  | comment {body rest : List UInt8} :
      CommentBody body → ClosedSpacing rest →
        ClosedSpacing (0x2F :: 0x2A :: (body ++ 0x2A :: 0x2F :: rest))

/-- A comment opens here and is never closed. -/
def OpensUnclosed (bytes : List UInt8) : Prop :=
  ∃ body, bytes = 0x2F :: 0x2A :: body ∧ CommentBody body

/-- The bytes open with neither a blank nor a comment. -/
def Settled : List UInt8 → Prop
  | [] => True
  | b :: rest => isBlank b = false ∧ ¬ (b = 0x2F ∧ rest.head? = some 0x2A)

theorem Settled.not_opensUnclosed {bytes : List UInt8} (h : Settled bytes) :
    ¬ OpensUnclosed bytes := by
  rintro ⟨body, rfl, _⟩
  exact h.2 ⟨rfl, rfl⟩

/-- A slash opens no blank. -/
theorem isBlank_slash : isBlank 0x2F = false := rfl

/-- Two comment bodies that open the same bytes end at the same close. -/
theorem CommentBody.same_close {body body' after after' : List UInt8} (open_ : CommentBody body)
    (open' : CommentBody body')
    (same : body ++ 0x2A :: 0x2F :: after = body' ++ 0x2A :: 0x2F :: after') :
    body = body' ∧ after = after' := by
  have spans := congrArg commentSpan same
  rw [commentSpan_close open_, commentSpan_close open'] at spans
  obtain ⟨bodies, closes⟩ := List.append_inj same (by omega)
  exact ⟨bodies, (List.cons.inj (List.cons.inj closes).2).2⟩

/-- A closed comment that opens the body of a comment closes where that body's first close is. -/
theorem CommentBody.prefix_close {body body' after rest : List UInt8} (open_ : CommentBody body)
    (open' : CommentBody body')
    (isPrefix : body' ++ 0x2A :: 0x2F :: rest <+: body ++ 0x2A :: 0x2F :: after) :
    body' = body ∧ rest <+: after := by
  obtain ⟨more, whole⟩ := isPrefix
  rw [List.append_assoc, List.cons_append, List.cons_append] at whole
  obtain ⟨bodies, afters⟩ := CommentBody.same_close open' open_ whole
  exact ⟨bodies, ⟨more, afters⟩⟩

/-! ### The longest closed spacing, by how the bytes open -/

namespace LongestPrefix

/-- Bytes that open with neither a blank nor a comment have no spacing before them. -/
theorem settled {bytes : List UInt8} (h : Settled bytes) : LongestPrefix ClosedSpacing bytes 0 where
  fits := Nat.zero_le _
  accepted := by
    rw [List.take_zero]
    exact .nil
  longest pre isPrefix spacing := by
    cases spacing with
    | nil => exact Nat.le_refl 0
    | @blank b rest blank _ =>
      obtain ⟨more, rfl, _⟩ := List.cons_prefix_iff.1 isPrefix
      rw [h.1] at blank
      cases blank
    | comment _ _ =>
      obtain ⟨more, rfl, afterSlash⟩ := List.cons_prefix_iff.1 isPrefix
      obtain ⟨after, rfl, _⟩ := List.cons_prefix_iff.1 afterSlash
      exact absurd ⟨rfl, rfl⟩ h.2

/-- A blank, then the longest closed spacing after it. No comment opens at the blank: a comment
opens with a slash, which is no blank. -/
theorem blank {b : UInt8} {rest : List UInt8} {n : Nat} (isB : isBlank b = true)
    (h : LongestPrefix ClosedSpacing rest n) : LongestPrefix ClosedSpacing (b :: rest) (n + 1) where
  fits := by simp [h.fits]
  accepted := by
    rw [List.take_succ_cons]
    exact .blank isB h.accepted
  longest pre isPrefix spacing := by
    cases spacing with
    | nil => exact Nat.zero_le _
    | @blank x tail _ tailSpacing =>
      obtain ⟨more, same, tailPrefix⟩ := List.cons_prefix_iff.1 isPrefix
      obtain ⟨rfl, rfl⟩ := List.cons.inj same
      simpa using h.longest tail tailPrefix tailSpacing
    | comment _ _ =>
      obtain ⟨more, same, _⟩ := List.cons_prefix_iff.1 isPrefix
      rw [(List.cons.inj same).1, isBlank_slash] at isB
      cases isB

/-- A closed comment, then the longest closed spacing after it. A closed comment that opens the
same bytes closes at this body's first close (`CommentBody.prefix_close`), so the spacing that
follows it lies within `post`. -/
theorem comment {body post : List UInt8} {n : Nat} (open_ : CommentBody body)
    (h : LongestPrefix ClosedSpacing post n) :
    LongestPrefix ClosedSpacing (0x2F :: 0x2A :: (body ++ 0x2A :: 0x2F :: post))
      (body.length + 4 + n) where
  fits := by
    have := h.fits
    simp
    omega
  accepted := by
    have taken : (0x2F :: 0x2A :: (body ++ 0x2A :: 0x2F :: post) : List UInt8).take
        (body.length + 4 + n) = 0x2F :: 0x2A :: (body ++ 0x2A :: 0x2F :: post.take n) := by
      simp [show body.length + 4 + n = (body.length + (n + 2)) + 1 + 1 by omega,
        List.take_length_add_append]
    rw [taken]
    exact .comment open_ h.accepted
  longest pre isPrefix spacing := by
    cases spacing with
    | nil => exact Nat.zero_le _
    | @blank x tail blank _ =>
      obtain ⟨more, same, _⟩ := List.cons_prefix_iff.1 isPrefix
      rw [← (List.cons.inj same).1, isBlank_slash] at blank
      cases blank
    | @comment body' rest open' restSpacing =>
      rw [List.cons_prefix_cons, List.cons_prefix_cons] at isPrefix
      obtain ⟨_, _, within⟩ := isPrefix
      obtain ⟨rfl, restPrefix⟩ := CommentBody.prefix_close open_ open' within
      have := h.longest rest restPrefix restSpacing
      simp
      omega

/-- After the opener of a comment that is never closed, no closed spacing opens the bytes: a
closed comment there would need a close inside the body. -/
theorem unclosed {body : List UInt8} (open_ : CommentBody body) :
    LongestPrefix ClosedSpacing (0x2F :: 0x2A :: body) 0 where
  fits := Nat.zero_le _
  accepted := by
    rw [List.take_zero]
    exact .nil
  longest pre isPrefix spacing := by
    cases spacing with
    | nil => exact Nat.le_refl 0
    | @blank x tail blank _ =>
      obtain ⟨more, same, _⟩ := List.cons_prefix_iff.1 isPrefix
      rw [← (List.cons.inj same).1, isBlank_slash] at blank
      cases blank
    | @comment body' rest _ _ =>
      rw [List.cons_prefix_cons, List.cons_prefix_cons] at isPrefix
      obtain ⟨_, _, more, whole⟩ := isPrefix
      exact absurd (by rw [← whole]; simp) (open_ body' (rest ++ more))

end LongestPrefix

/-! ### The scan -/

/-- **The spacing scan stops after the longest closed spacing.** After it either a comment opens
that is never closed, and the scan runs to the end over it, or the bytes are settled and the scan
stops there. The proof takes the scan's branches in turn: a blank, a comment that is never
closed, a closed comment, and the three ways to be settled (a slash that opens no comment, a
slash that ends the bytes, any other byte). -/
theorem spacingSpan_stops (bytes : List UInt8) :
    ∃ n, LongestPrefix ClosedSpacing bytes n ∧
      (OpensUnclosed (bytes.drop n) ∧ spacingSpan bytes = bytes.length ∨
        Settled (bytes.drop n) ∧ spacingSpan bytes = n) := by
  fun_induction spacingSpan bytes with
  | case1 => exact ⟨0, .settled trivial, .inr ⟨trivial, rfl⟩⟩
  | case2 b rest blank ih =>
    obtain ⟨n, longest, stop⟩ := ih
    refine ⟨n + 1, .blank blank longest, ?_⟩
    rw [List.drop_succ_cons]
    rcases stop with ⟨unclosed, span⟩ | ⟨settled, span⟩
    · exact .inl ⟨unclosed, by simp only [span, List.length_cons]; omega⟩
    · exact .inr ⟨settled, by omega⟩
  | case3 b notBlank slash c body star bounded inner ih =>
    have slash : b = 0x2F := by simpa using slash
    have star : c = 0x2A := by simpa using star
    subst slash star
    rcases commentSpan_cases body with ⟨open_, span⟩ | ⟨pre, post, rfl, open_, span⟩
    · have empty : spacingSpan (body.drop inner) = 0 := by
        show spacingSpan (body.drop (commentSpan body)) = 0
        rw [span, List.drop_length, spacingSpan.eq_def]
      refine ⟨0, .unclosed open_, .inl ⟨⟨body, rfl, open_⟩, ?_⟩⟩
      show 2 + commentSpan body + spacingSpan (body.drop inner) = _
      rw [empty, span, List.length_cons, List.length_cons]
      omega
    · have innerEq : inner = pre.length + 2 := span
      have after : (pre ++ 0x2A :: 0x2F :: post).drop inner = post := by
        rw [innerEq, show pre ++ 0x2A :: 0x2F :: post = (pre ++ [0x2A, 0x2F]) ++ post by simp,
          List.drop_left' (by simp)]
      obtain ⟨n, longest, stop⟩ := ih
      rw [after] at longest stop ⊢
      refine ⟨pre.length + 4 + n, .comment open_ longest, ?_⟩
      have skipped : (0x2F :: 0x2A :: (pre ++ 0x2A :: 0x2F :: post) : List UInt8).drop
          (pre.length + 4 + n) = post.drop n := by
        simp [show pre.length + 4 + n = (pre.length + (n + 2)) + 1 + 1 by omega,
          List.drop_length_add_append]
      rw [skipped, innerEq]
      simp only [List.length_cons, List.length_append]
      rcases stop with ⟨unclosed, tail⟩ | ⟨settled, tail⟩
      · exact .inl ⟨unclosed, by omega⟩
      · exact .inr ⟨settled, by omega⟩
  | case4 b notBlank slash c more notStar =>
    have settled : Settled (b :: c :: more) := by
      refine ⟨by simpa using notBlank, ?_⟩
      rintro ⟨-, star⟩
      simp only [List.head?_cons, Option.some.injEq] at star
      simp [star] at notStar
    exact ⟨0, .settled settled, .inr ⟨settled, rfl⟩⟩
  | case5 b notBlank slash =>
    have settled : Settled [b] := by
      refine ⟨by simpa using notBlank, ?_⟩
      rintro ⟨-, star⟩
      cases star
    exact ⟨0, .settled settled, .inr ⟨settled, rfl⟩⟩
  | case6 b rest notBlank notSlash =>
    have settled : Settled (b :: rest) := by
      refine ⟨by simpa using notBlank, ?_⟩
      rintro ⟨slash, -⟩
      simp [slash] at notSlash
    exact ⟨0, .settled settled, .inr ⟨settled, rfl⟩⟩

/-- Settled bytes hold no spacing. -/
theorem spacingSpan_of_settled {bytes : List UInt8} (h : Settled bytes) :
    spacingSpan bytes = 0 := by
  obtain ⟨n, longest, stop⟩ := spacingSpan_stops bytes
  have zero : n = 0 := longest.unique (.settled h)
  subst zero
  rcases stop with ⟨unclosed, _⟩ | ⟨_, span⟩
  · exact absurd unclosed (by simpa using h.not_opensUnclosed)
  · exact span

end StyleGrammar.Token

namespace StyleGrammar.Cursor

open Token

/-- The cursor's byte and the one after it open neither a blank nor a comment. -/
theorem settled_bytes {c : Cursor} (h : Settled c.rest) :
    isBlank c.byteHere = false ∧ ¬ (c.byteHere = 0x2F ∧ c.byteAfter = 0x2A) := by
  unfold byteHere byteAfter
  cases rest : c.rest with
  | nil =>
    refine ⟨rfl, ?_⟩
    rintro ⟨zero, -⟩
    cases zero
  | cons b more =>
    rw [rest] at h
    refine ⟨h.1, ?_⟩
    rintro ⟨slash, star⟩
    cases more with
    | nil => cases star
    | cons x tail => exact h.2 ⟨slash, by simpa using star⟩

/-- **Skipping spacing stops after the longest closed spacing.** The cursor moves to the end of
the longest prefix of blanks and closed comments, or to the end of the text when a comment that is
never closed opens there; either way it is then before settled bytes. -/
theorem skipSpacing_longest (c : Cursor) :
    ∃ n, LongestPrefix ClosedSpacing c.rest n ∧
      (OpensUnclosed (c.rest.drop n) ∧ c.skipSpacing.pos = c.text.length ∨
        Settled (c.rest.drop n) ∧ c.skipSpacing.pos = c.pos + n) ∧
      Settled c.skipSpacing.rest := by
  obtain ⟨n, longest, stop⟩ := spacingSpan_stops c.rest
  refine ⟨n, longest, ?_, ?_⟩
  · rcases stop with ⟨unclosed, span⟩ | ⟨settled, span⟩
    · have := c.rest_length
      have := c.pos_le
      exact .inl ⟨unclosed, by simp only [skipSpacing, pos_forward, span]; omega⟩
    · exact .inr ⟨settled, by simp only [skipSpacing, pos_forward, span]⟩
  · rw [skipSpacing_rest]
    rcases stop with ⟨_, span⟩ | ⟨settled, span⟩
    · rw [span, List.drop_length]
      trivial
    · rwa [span]

/-- A second skip does not move the cursor: it stands before settled bytes. -/
theorem skipSpacing_skipSpacing (c : Cursor) : c.skipSpacing.skipSpacing = c.skipSpacing := by
  obtain ⟨_, _, _, settled⟩ := skipSpacing_longest c
  have still : spacingSpan c.skipSpacing.rest = 0 := spacingSpan_of_settled settled
  ext
  · rfl
  · rw [show c.skipSpacing.skipSpacing.pos = c.skipSpacing.pos + spacingSpan c.skipSpacing.rest
      from rfl, still, Nat.add_zero]

end StyleGrammar.Cursor

namespace StyleGrammar

open Token

/-- **Skipping spacing moves over exactly the insignificant prefix.** For every text and position
the longest closed spacing exists (and is unique, `LongestPrefix.unique`), and the skip ends after
it, or at the end of the text when a comment that is never closed opens there; the text is unchanged, the cursor then stands on neither
a blank nor a comment opener, and a second skip does not move it. -/
theorem spacing_scan_longest (c : Cursor) :
    (∃ n, LongestPrefix ClosedSpacing c.rest n) ∧
    (∀ n, LongestPrefix ClosedSpacing c.rest n →
      (OpensUnclosed (c.rest.drop n) → c.skipSpacing.pos = c.text.length) ∧
      (¬ OpensUnclosed (c.rest.drop n) → c.skipSpacing.pos = c.pos + n)) ∧
    c.skipSpacing.text = c.text ∧
    isBlank c.skipSpacing.byteHere = false ∧
    ¬ (c.skipSpacing.byteHere = 0x2F ∧ c.skipSpacing.byteAfter = 0x2A) ∧
    c.skipSpacing.skipSpacing = c.skipSpacing := by
  obtain ⟨n, longest, stop, settled⟩ := Cursor.skipSpacing_longest c
  obtain ⟨notBlank, notComment⟩ := Cursor.settled_bytes settled
  refine ⟨⟨n, longest⟩, fun m longest' => ?_, rfl, notBlank, notComment,
    Cursor.skipSpacing_skipSpacing c⟩
  obtain rfl := longest.unique longest'
  rcases stop with ⟨unclosed, pos⟩ | ⟨stops, pos⟩
  · exact ⟨fun _ => pos, fun closed => absurd unclosed closed⟩
  · exact ⟨fun unclosed => absurd unclosed stops.not_opensUnclosed, fun _ => pos⟩

end StyleGrammar

