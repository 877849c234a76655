import SourceLint.Grammar.Source
import SourceLint.Proofs.Basic

/-!
# The order of lexemes

The lexemes of a text are not empty, come one after the other and end within the text. An error about a text
may be about its characters or about a structure built from them.
-/

namespace SourceLint

/-- The error is about the characters of a text and not about a structure built from it. -/
def SyntaxError.IsOfText : SyntaxError → Prop
  | malformed _ => False
  | unterminatedString _ | unterminatedComment _ | unclosed _ _ | unexpected _ _ | expected _ _ => True

theorem checkTokens_cons_eq_ok_iff {sourceLength index least : Nat} {token : Token} {tokens : List Token} :
    checkTokens sourceLength index least (token :: tokens) = .ok () ↔
      token.span.isEmpty = false ∧ least ≤ token.span.location ∧ token.span.stop ≤ sourceLength ∧
        checkTokens sourceLength (index + 1) token.span.stop tokens = .ok () := by
  rw [checkTokens, exceptIte_eq_ok_iff, exceptIte_eq_ok_iff, exceptIte_eq_ok_iff, Bool.not_eq_true,
    Nat.not_lt, Nat.not_lt]

/-- The tokens that pass the check are not empty, lie between two offsets and come one after the
other. -/
theorem checkTokens_eq_ok_iff {sourceLength index least : Nat} {tokens : List Token} :
    checkTokens sourceLength index least tokens = .ok () ↔
      (∀ t ∈ tokens, t.span.isEmpty = false ∧ least ≤ t.span.location ∧ t.span.stop ≤ sourceLength) ∧
        tokens.Pairwise fun a b => a.span.stop ≤ b.span.location := by
  induction tokens generalizing index least with
  | nil => simp [checkTokens]
  | cons token tokens ih =>
      have hstop : token.span.location ≤ token.span.stop := Nat.le_add_right _ _
      rw [checkTokens_cons_eq_ok_iff, ih, List.forall_mem_cons, List.pairwise_cons]
      constructor
      · rintro ⟨hnonempty, hleast, hend, hall, hpairwise⟩
        refine ⟨⟨⟨hnonempty, hleast, hend⟩, fun t ht => ?_⟩, fun t ht => (hall t ht).2.1, hpairwise⟩
        obtain ⟨hnonempty', hbehind, hend'⟩ := hall t ht
        exact ⟨hnonempty', by omega, hend'⟩
      · rintro ⟨⟨⟨hnonempty, hleast, hend⟩, hall⟩, hbehind, hpairwise⟩
        exact ⟨hnonempty, hleast, hend, fun t ht => ⟨(hall t ht).1, hbehind t ht, (hall t ht).2.2⟩,
          hpairwise⟩

namespace Lexeme

/-- The lexemes are not empty, begin at `least` or later, come one after the other and end at `most`
or before. -/
def InOrder (least most : Nat) : List Lexeme → Prop
  | [] => least ≤ most
  | lexeme :: lexemes =>
    least ≤ lexeme.start ∧ lexeme.start < lexeme.stop ∧ InOrder lexeme.stop most lexemes

theorem InOrder.least_le_most {least most : Nat} {lexemes : List Lexeme}
    (h : InOrder least most lexemes) : least ≤ most := by
  induction lexemes generalizing least with
  | nil => exact h
  | cons lexeme lexemes ih =>
      obtain ⟨hleast, hlt, hrest⟩ := h
      have := ih hrest
      omega

theorem InOrder.mono {least least' most : Nat} {lexemes : List Lexeme}
    (h : InOrder least most lexemes) (hle : least' ≤ least) : InOrder least' most lexemes := by
  cases lexemes with
  | nil => exact Nat.le_trans hle h
  | cons lexeme lexemes => exact ⟨Nat.le_trans hle h.1, h.2⟩

theorem significant_comment {x : Lexeme} {gap : String} {lexemes : List Lexeme}
    (hx : x.isComment = true) :
    significant gap (x :: lexemes) = significant (gap ++ x.gap ++ x.text) lexemes := by
  rw [significant, if_pos hx]

theorem significant_other {x : Lexeme} {gap : String} {lexemes : List Lexeme}
    (hx : x.isComment = false) :
    significant gap (x :: lexemes) = { x with gap := gap ++ x.gap } :: significant "" lexemes := by
  rw [significant, hx, if_neg Bool.false_ne_true]

/-- Comments are left out, and the order stays. -/
theorem InOrder.significant {least most : Nat} {lexemes : List Lexeme}
    (h : InOrder least most lexemes) (gap : String) :
    InOrder least most (Lexeme.significant gap lexemes) := by
  induction lexemes generalizing least gap with
  | nil => exact h
  | cons lexeme lexemes ih =>
      obtain ⟨hleast, hlt, hrest⟩ := h
      rw [Lexeme.significant]
      split
      · exact (ih hrest _).mono (by omega)
      · exact ⟨hleast, hlt, ih hrest _⟩

/-- The tokens of lexemes in order pass the check of a snapshot. -/
theorem InOrder.checkTokens {least most sourceLength : Nat} {lexemes : List Lexeme}
    (h : InOrder least most lexemes) (hmost : most ≤ sourceLength) (index : Nat) :
    SourceLint.checkTokens sourceLength index least (lexemes.filterMap token?) = .ok () := by
  induction lexemes generalizing least index with
  | nil => rfl
  | cons lexeme lexemes ih =>
      obtain ⟨hleast, hlt, hrest⟩ := h
      cases hkind : lexeme.kind with
      | punctuation =>
          have hnone : lexeme.token? = none := by simp [token?, hkind]
          rw [List.filterMap_cons_none hnone]
          exact ih (hrest.mono (by omega)) index
      | token kind =>
          have hsome : lexeme.token? = some ⟨kind, lexeme.span⟩ := by simp [token?, hkind]
          have hstop : lexeme.span.stop = lexeme.stop := rfl
          have hmost' := hrest.least_le_most
          have hlength : lexeme.span.isEmpty = false := by
            simp only [Span.isEmpty, span, beq_eq_false_iff_ne]
            simp only [stop] at hlt
            omega
          have hlocation : ¬lexeme.span.location < least := by simp only [span]; omega
          have hend : ¬sourceLength < lexeme.stop := by omega
          rw [List.filterMap_cons_some hsome]
          simp only [SourceLint.checkTokens, hlength, Bool.false_eq_true, if_false, if_neg hlocation,
            hstop, if_neg hend]
          exact ih hrest (index + 1)

/-! ### Cutting a text -/

theorem byteLength_take_add_drop (n : Nat) (cs : List Char) :
    byteLength (cs.take n) + byteLength (cs.drop n) = byteLength cs := by
  rw [← byteLength_append, List.take_append_drop]

theorem utf8ByteSize_ofList (cs : List Char) :
    (String.ofList cs).utf8ByteSize = byteLength cs := by
  rw [← byteLength_toList, String.toList_ofList]

/-- The lexemes of a text lie within it in order. -/
theorem inOrder_of_scan {offset : Nat} {gap : String} {cs : List Char} {lexemes : List Lexeme}
    (h : scan offset gap cs = .ok lexemes) : InOrder offset (offset + byteLength cs) lexemes := by
  fun_induction scan offset gap cs generalizing lexemes with
  | case1 offset gap =>
      obtain rfl : [] = lexemes := Except.ok.inj h
      exact Nat.le_refl _
  | case2 offset gap c cs hlayout ih =>
      have hrest := ih h
      rw [byteLength_cons, ← Nat.add_assoc]
      exact hrest.mono (Nat.le_add_right _ _)
  | case3 => simp at h
  | case4 => simp at h
  | case5 offset gap c cs hlayout kind n hmeasure text rest hrest =>
      rename_i ih
      obtain rfl := Except.ok.inj h
      have htext : text.utf8ByteSize = c.utf8Size + byteLength (cs.take n) :=
        utf8ByteSize_ofList (c :: cs.take n)
      have hpos := c.utf8Size_pos
      have hsplit := byteLength_take_add_drop n cs
      have hend : offset + text.utf8ByteSize + byteLength (cs.drop n) =
          offset + byteLength (c :: cs) := by
        rw [byteLength_cons]; omega
      refine ⟨Nat.le_refl _, ?_, ?_⟩
      · simp only [stop]; omega
      · rw [← hend]; exact ih hrest

theorem inOrder_of_ofSource {source : String} {lexemes : List Lexeme}
    (h : ofSource source = .ok lexemes) : InOrder 0 source.utf8ByteSize lexemes := by
  have horder := inOrder_of_scan h
  rwa [Nat.zero_add, byteLength_toList] at horder

/-! ### Errors with a property -/

/-- Whatever error there is has the property. -/
def FailsWith {α : Type} (F : SyntaxError → Prop) (x : Except SyntaxError α) : Prop :=
  ∀ error, x = .error error → F error

namespace FailsWith

variable {α β : Type} {F : SyntaxError → Prop}

theorem ok (a : α) : FailsWith F (.ok a : Except SyntaxError α) := by
  intro error h
  cases h

theorem error {e : SyntaxError} (he : F e) : FailsWith F (.error e : Except SyntaxError α) := by
  intro error h
  exact Except.error.inj h ▸ he

theorem map {x : Except SyntaxError α} (hx : FailsWith F x) (f : α → β) : FailsWith F (x.map f) := by
  cases x with
  | error e => exact error (hx e rfl)
  | ok a => exact ok (f a)

theorem ite {c : Prop} [Decidable c] {x y : Except SyntaxError α} (hx : c → FailsWith F x)
    (hy : ¬c → FailsWith F y) : FailsWith F (if c then x else y) := by
  split
  · exact hx ‹c›
  · exact hy ‹¬c›

end FailsWith

/-- Whatever is wrong is a fault of the text. -/
def OnlyTextFaults {α : Type} (x : Except SyntaxError α) : Prop :=
  ∀ error, x = .error error → error.IsOfText

end Lexeme

end SourceLint
