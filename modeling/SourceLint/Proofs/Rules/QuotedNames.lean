import SourceLint.Proofs.Linter.Independence
import SourceLint.Proofs.Rules.Places
import SourceLint.Proofs.Rules.Respacing
import SourceLint.Proofs.Syntax.Meeting

/-!
# Corrections and tokens

The corrections of the standard rules replace commas, runs of semicolons and spacing, all of it outside comments and
string literals. No word and no number has such a character inside. A name in backticks may, so a correction may lie
within such a name, and no other token shares a byte with a correction.

## Main results

* `Registry.sparesTokens_standard` and `Linter.sparesTokens_lintSnapshot`: where corrections and tokens meet, for
  each rule and for all rules of a configuration.
* `Linter.not_meets_of_plainNames`: they do not meet in a source with no comma and no semicolon in its names.
* `CommaSpacing.cutsInto_name` and `TrailingSemicolon.cutsInto_name`: corrections within names.
-/

namespace SourceLint

/-! ### Lexemes with separators in them -/

namespace Lexeme

variable {start : Nat} {c d : Char} {body rest : List Char} {kind : LexemeKind}

/-- A separator that is no blank is a sign of its own. -/
theorem measure_of_isSeparator (start : Nat) (cs : List Char) (hc : isSeparator c = true)
    (hlayout : isLayout c = false) : measure start c cs = .ok (.punctuation, 0) := by
  rw [isSeparator, hlayout, Bool.false_or, Bool.or_eq_true, beq_iff_eq, beq_iff_eq] at hc
  rcases hc with rfl | rfl
  · rfl
  · rfl

/-- A token outside comments and string literals with a separator in it is a name in backticks. -/
theorem backticks_of_isSeparator (hlayout : isLayout c = false)
    (h : measure start c (body ++ rest) = .ok (kind, body.length)) (hshields : kind.shields = false)
    (hkind : kind ≠ .punctuation) (hd : d ∈ c :: body) (hseparator : isSeparator d = true) :
    c = '\x60' ∧ kind = .token .identifier ∧ ∃ name, body = name ++ ['\x60'] ∧ '\x60' ∉ name := by
  have hfirst : isSeparator c = false := by
    rw [← Bool.not_eq_true]
    intro hc
    rw [measure_of_isSeparator start _ hc hlayout] at h
    exact hkind (Prod.mk.inj (Except.ok.inj h)).1.symm
  by_cases hc : c = '\x60'
  · subst hc
    obtain ⟨name, later, hsplit, hname, rfl, hlength⟩ := exists_of_measureBacktick h
    have hparts : body ++ rest = (name ++ ['\x60']) ++ later := by simpa using hsplit
    obtain ⟨rfl, -⟩ := List.append_inj hparts (by simp [hlength])
    exact ⟨rfl, rfl, name, rfl, hname⟩
  · have hbody : ∀ e ∈ body, isSeparator e = false := by
      intro e he
      apply isSeparator_of_mem_take (measure_settled h hshields hc).1
      rwa [List.take_left]
    rcases List.mem_cons.1 hd with rfl | hd
    · cases hfirst.symm.trans hseparator
    · cases (hbody d hd).symm.trans hseparator

end Lexeme

/-! ### Pieces between words -/

/-- Under the span is a piece of a text in three parts that consists of separators outside comments and string
literals. A comma or a semicolon is among them. -/
structure Mark.IsCutOut (marks : List Mark) (range : Span) (front piece back : List Mark) : Prop where
  parts : marks = front ++ piece ++ back
  location_eq : range.location = byteLength (chars front)
  length_eq : range.length = byteLength (chars piece)
  unshielded : ∀ m ∈ piece, m.shielded = false
  separators : ∀ m ∈ piece, Lexeme.isSeparator m.char = true
  sign : ∃ m ∈ piece, m.char = ',' ∨ m.char = ';'

/-- The token is a name in backticks that begins before the span and ends behind it. There is a comma or a semicolon
in the name. -/
structure Token.QuotesAround (t : Token) (source : String) (range : Span) : Prop where
  kind_eq : t.kind = .identifier
  text : ∃ name, t.text? source = some (String.ofList ('\x60' :: name ++ ['\x60'])) ∧ '\x60' ∉ name ∧
    (',' ∈ name ∨ ';' ∈ name)
  begins : t.span.location < range.location
  ends : range.stop < t.span.stop

namespace Mark.IsCutOut

variable {marks front piece back before other behind : List Mark} {range : Span} {placed : List PlacedLexeme}
  {x : PlacedLexeme} {shielded : Bool} {line : Nat} {c : Char} {body : List Char}

theorem stop_eq (h : IsCutOut marks range front piece back) :
    range.stop = byteLength (chars front) + byteLength (chars piece) := by
  rw [Span.stop, h.location_eq, h.length_eq]

/-- A separator of the piece that stands before the end of another piece belongs to that one too, when that one does
not begin later. -/
theorem mem_of_lt (h : IsCutOut marks range front piece back) (hparts : marks = before ++ other ++ behind)
    (hle : byteLength (chars before) ≤ range.location) {early late : List Mark} {m : Mark}
    (hpiece : piece = early ++ m :: late)
    (hlt : range.location + byteLength (chars early) < byteLength (chars before) + byteLength (chars other)) :
    m ∈ other := by
  have hlocation := h.location_eq
  have hsplit : before ++ other ++ behind = (front ++ early) ++ m :: (late ++ back) := by
    rw [← hparts, h.parts, hpiece]
    simp
  apply Shading.mem_of_between hsplit
  · rw [chars_append, byteLength_append]
    omega
  · rw [chars_append, byteLength_append]
    omega

/-- What ends behind the beginning of the separators and begins with no separator begins before them. -/
theorem start_lt (h : IsCutOut marks range front piece back)
    (hparts : marks = before ++ ofChars shielded line (c :: body) ++ behind) (hc : Lexeme.isSeparator c = false)
    (hlt : byteLength (chars before) < range.stop) : byteLength (chars before) < range.location := by
  have hlocation := h.location_eq
  have hend := h.stop_eq
  by_contra hle
  have hfirst : (⟨c, line, shielded⟩ : Mark) ∈ piece := by
    rw [ofChars, List.append_assoc, List.cons_append] at hparts
    exact Shading.mem_of_between (h.parts.symm.trans hparts) (by omega) (by omega)
  cases hc.symm.trans (h.separators _ hfirst)

/-- What begins before the end of the separators and ends with a backtick ends behind them. -/
theorem stop_lt (h : IsCutOut marks range front piece back)
    (hparts : marks = before ++ ofChars shielded line (body ++ ['\x60']) ++ behind)
    (hlt : range.location < byteLength (chars before) + byteLength (body ++ ['\x60'])) :
    range.stop < byteLength (chars before) + byteLength (body ++ ['\x60']) := by
  have hlocation := h.location_eq
  have hend := h.stop_eq
  have hsize : byteLength ['\x60'] = 1 := by decide
  rw [byteLength_append, hsize] at hlt ⊢
  by_contra hle
  obtain ⟨line', hlast⟩ : ∃ line', (⟨'\x60', line', shielded⟩ : Mark) ∈ piece := by
    rw [ofChars_append, ← List.append_assoc, List.append_assoc _ _ behind] at hparts
    refine ⟨_, Shading.mem_of_between (h.parts.symm.trans hparts) ?_ ?_⟩
    · rw [chars_append, chars_ofChars, byteLength_append]
      omega
    · rw [chars_append, chars_ofChars, byteLength_append]
      omega
  cases h.separators _ hlast

/-- A token that shares a byte with separators outside comments and string literals is a name in backticks around
them. -/
theorem backticks (h : IsCutOut marks range front piece back) (hshading : Shading 0 "" 1 marks placed)
    (hx : x ∈ placed) (hkind : x.2.kind ≠ .punctuation) (hmeets : x.2.span.Meets range) :
    x.2.kind = .token .identifier ∧ x.2.start < range.location ∧ range.stop < x.2.stop ∧
      ∃ name, x.2.text = String.ofList ('\x60' :: name ++ ['\x60']) ∧ '\x60' ∉ name ∧ (',' ∈ name ∨ ';' ∈ name) := by
  obtain ⟨before, c, body, behind, hparts, hstart, htext, hlayout, hmeasured⟩ := hshading.exists_measured hx
  rw [Nat.zero_add] at hstart
  have hstop : x.2.stop = byteLength (chars before) + byteLength (c :: body) := by
    rw [Lexeme.stop, hstart, htext, Lexeme.utf8ByteSize_ofList]
  have hmeet : range.location < x.2.stop ∧ x.2.start < range.stop := by
    have hlt := Span.meets_iff.1 hmeets
    simp only [Lexeme.span, Span.stop, Lexeme.stop] at *
    omega
  have hseparator : Lexeme.isSeparator c = false := by
    rw [← Bool.not_eq_true]
    intro hc
    rw [Lexeme.measure_of_isSeparator _ _ hc hlayout] at hmeasured
    exact hkind (Prod.mk.inj (Except.ok.inj hmeasured)).1.symm
  have hbegins : x.2.start < range.location := by
    rw [hstart] at hmeet ⊢
    exact h.start_lt hparts hseparator hmeet.2
  -- a separator of the piece before the end of the token is one of its characters
  have hmem : ∀ early m late, piece = early ++ m :: late → range.location + byteLength (chars early) < x.2.stop →
      m.shielded = x.2.kind.shields ∧ m.char ∈ c :: body := by
    intro early m late hpiece hlt
    have hm := h.mem_of_lt hparts (by omega) hpiece (by rwa [chars_ofChars, ← hstop])
    refine ⟨shielded_of_mem_ofChars hm, ?_⟩
    rw [← chars_ofChars x.2.kind.shields x.1 (c :: body)]
    exact List.mem_map_of_mem hm
  obtain ⟨sign, hsign, hsigns⟩ := h.sign
  obtain ⟨first, rest, hpiece⟩ := List.exists_cons_of_ne_nil (List.ne_nil_of_mem hsign)
  have hfirst : first ∈ piece := by rw [hpiece]; exact List.mem_cons_self
  obtain ⟨hshielded, hchar⟩ := hmem [] first rest hpiece (by simpa using hmeet.1)
  obtain ⟨rfl, hident, name, rfl, hname⟩ := Lexeme.backticks_of_isSeparator hlayout hmeasured
    (hshielded.symm.trans (h.unshielded first hfirst)) hkind hchar (h.separators first hfirst)
  rw [← List.cons_append] at hparts hstop
  have hends : range.stop < x.2.stop := by
    rw [hstop] at hmeet ⊢
    exact h.stop_lt hparts hmeet.1
  refine ⟨hident, hbegins, hends, name, htext, hname, ?_⟩
  obtain ⟨early, late, hsplit⟩ := List.append_of_mem hsign
  have hwithin : range.location + byteLength (chars early) < x.2.stop := by
    have hpos := sign.char.utf8Size_pos
    have hlength := h.length_eq
    rw [hsplit, chars_append, chars_cons, byteLength_append, byteLength_cons] at hlength
    rw [Span.stop] at hends
    omega
  have hquoted := (hmem early sign late hsplit hwithin).2
  exact hsigns.imp (fun hcomma => by simpa [hcomma] using hquoted) fun hsemicolon => by
    simpa [hsemicolon] using hquoted

end Mark.IsCutOut

/-! ### The corrections of the rules -/

open Mark

/-- A run of semicolons outside comments and string literals is cut out. -/
theorem TrailingSemicolon.exists_isCutOut {off : Nat → Bool} {marks : List Mark} {e : Correction}
    (he : e ∈ edits off marks) : ∃ front piece back, IsCutOut marks e.span front piece back := by
  obtain ⟨r, hr, rfl⟩ := List.mem_map.1 he
  obtain ⟨hr, hlive⟩ := List.mem_filter.1 hr
  obtain ⟨before, behind, hmarks, hlocation, -, hrun⟩ := isPiece_of_mem hr
  have hunshielded := (Bool.and_eq_true_iff.1 hlive).1
  obtain ⟨m, rest, hcons⟩ := List.exists_cons_of_ne_nil hrun.nonempty
  refine ⟨before, r.2, behind, hmarks, hlocation, (byteLength_run hrun.semicolons).symm, ?_, ?_, m, ?_, ?_⟩
  · intro d hd
    simpa using List.all_eq_true.1 hunshielded d hd
  · intro d hd
    rw [hrun.semicolons d hd]
    rfl
  · rw [hcons]
    exact List.mem_cons_self
  · rw [hcons] at hrun
    exact .inr (hrun.semicolons m List.mem_cons_self)

namespace CommaSpacing

variable {off : Nat → Bool} {marks : List Mark} {e : Correction}

theorem isComma_of_isLive {m : Mark} (h : isLive off m = true) : m.isComma = true := by
  simp only [isLive, Bool.and_eq_true] at h
  rw [isComma, h.1.1, h.1.2]
  rfl

/-- Each edit is that of a comma that may get one. -/
theorem exists_of_mem_edits {front : List Mark}
    (he : e ∈ edits off (byteLength (chars front)) (chars front).reverse marks) :
    ∃ before m behind, front ++ marks = before ++ m :: behind ∧ isLive off m = true ∧
      Site.correction? ⟨byteLength (chars before), (chars before).reverse, chars behind⟩ = some e := by
  induction marks generalizing front with
  | nil => cases he
  | cons m marks ih =>
      have hlater : e ∈ edits off (byteLength (chars (front ++ [m]))) (chars (front ++ [m])).reverse marks →
          ∃ before m' behind, front ++ m :: marks = before ++ m' :: behind ∧ isLive off m' = true ∧
            Site.correction? ⟨byteLength (chars before), (chars before).reverse, chars behind⟩ = some e := by
        intro he
        obtain ⟨before, m', behind, hparts, hrest⟩ := ih he
        exact ⟨before, m', behind, by rw [← hparts, List.append_assoc, List.singleton_append], hrest⟩
      have hstep : byteLength (chars front) + m.char.utf8Size = byteLength (chars (front ++ [m])) ∧
          m.char :: (chars front).reverse = (chars (front ++ [m])).reverse := by simp
      simp only [edits, hstep.1, hstep.2] at he
      split at he
      · rename_i hlive
        rcases List.mem_append.1 he with he | he
        · exact ⟨front, m, marks, rfl, hlive, Option.mem_toList.1 he⟩
        · exact hlater he
      · exact hlater he

/-- The edit of a comma ends behind the comma or behind spacing that follows it. -/
theorem Site.stop_of_correction? {site : Site} (h : site.correction? = some e) :
    ∃ gap rest, site.after = gap ++ rest ∧ (∀ c ∈ gap, isSpacing c = true) ∧
      e.span.stop = site.offset + 1 + byteLength gap := by
  have hstart : site.offset - site.excessBefore ≤ site.offset + 1 := by omega
  unfold correction? at h
  simp only at h
  split at h
  · split at h
    · cases h
    · obtain rfl := Option.some.inj h
      exact ⟨[], site.after, rfl, by simp, Span.stop_ofBounds hstart⟩
  · split at h
    · cases h
    · obtain rfl := Option.some.inj h
      have hspacing : ∀ c ∈ site.after.takeWhile isSpacing, isSpacing c = true := fun c =>
        List.all_eq_true.1 List.all_takeWhile c
      refine ⟨site.after.takeWhile isSpacing, site.after.dropWhile isSpacing,
        List.takeWhile_append_dropWhile.symm, hspacing, ?_⟩
      rw [byteLength_of_spacing hspacing]
      exact Span.stop_ofBounds (Nat.le_trans hstart (Nat.le_add_right _ _))

/-- A comma outside comments and string literals is cut out together with the spacing that its edit replaces. -/
theorem exists_isCutOut (hchain : marks.IsChain Shading.Borders) (he : e ∈ edits off 0 [] marks) :
    ∃ front piece back, IsCutOut marks e.span front piece back := by
  obtain ⟨before, m, behind, hparts, hlive, hcorrection⟩ := @exists_of_mem_edits off marks e [] he
  rw [List.nil_append] at hparts
  obtain ⟨kept, gap, hbefore, hlocation, hgap⟩ := Site.exists_of_correction? hcorrection
  obtain ⟨gap', rest, hbehind, hgap', hstop⟩ := Site.stop_of_correction? hcorrection
  obtain ⟨front, spacing, rfl, rfl, rfl⟩ := List.map_eq_append_iff.1 hbefore
  obtain ⟨spacing', back, rfl, rfl, rfl⟩ := List.map_eq_append_iff.1 hbehind
  have hcomma := isComma_iff.1 (isComma_of_isLive hlive)
  have hisGap : IsGap spacing := fun d hd => hgap _ (List.mem_map_of_mem hd)
  have hisGap' : IsGap spacing' := fun d hd => hgap' _ (List.mem_map_of_mem hd)
  rw [hparts, List.append_assoc] at hchain
  have hfree := hisGap.free_before hchain.right_of_append hcomma.2 (by simp [hcomma.1])
  have hfree' := hisGap'.free_after hchain.right_of_append.right_of_append hcomma.2
  have hspacing : ∀ d ∈ spacing ++ m :: spacing', d = m ∨ d.isFree = true := by
    intro d hd
    rcases List.mem_append.1 hd with hd | hd
    · exact .inr (hfree d hd)
    · exact (List.mem_cons.1 hd).imp_right (hfree' d)
  have hsize : m.char.utf8Size = 1 := by
    rw [hcomma.1]
    rfl
  refine ⟨front, spacing ++ m :: spacing', back, by simp [hparts], hlocation, ?_, ?_, ?_, m, by simp, .inl hcomma.1⟩
  · change e.span.location + e.span.length = byteLength (chars (front ++ spacing)) + 1 + byteLength (chars spacing')
      at hstop
    change e.span.location = byteLength (chars front) at hlocation
    simp only [chars_append, chars_cons, byteLength_append, byteLength_cons, hsize] at hstop ⊢
    omega
  · intro d hd
    rcases hspacing d hd with rfl | hd
    · exact hcomma.2
    · exact (isFree_iff.1 hd).2
  · intro d hd
    rcases hspacing d hd with rfl | hd
    · exact isSeparator_of_isComma (isComma_of_isLive hlive)
    · exact isSeparator_of_isFree hd

end CommaSpacing

/-- Whatever shares a byte with what the violation replaces is a name in backticks around it, or no token. -/
def Violation.SparesTokens (v : Violation) (source : String) (tokens : TokenStream) : Prop :=
  ∀ e, v.correction = some e → ∀ t ∈ tokens.toList, t.span.Meets e.span → t.QuotesAround source e.span

namespace Violation.SparesTokens

variable {v : Violation} {source : String} {tokens : TokenStream} {marks : List Mark} {placed : List PlacedLexeme}

theorem of_isRemark {identifier : String} (h : v.IsRemark identifier) : v.SparesTokens source tokens := by
  intro e he
  rw [h.correction_eq] at he
  cases he

/-- A violation that replaces separators outside comments and string literals spares tokens. -/
theorem of_isCutOut (hshading : Shading 0 "" 1 marks placed) (hsource : source.toList = chars marks)
    (htokens : tokens = TokenStream.ofList (Shading.tokens placed)) {e : Correction} (he : v.correction = some e)
    (hcut : ∃ front piece back, IsCutOut marks e.span front piece back) : v.SparesTokens source tokens := by
  intro e' he' t ht hmeets
  obtain rfl := Option.some.inj (he'.symm.trans he)
  obtain ⟨front, piece, back, hcut⟩ := hcut
  have hlisted : t ∈ Shading.tokens placed := by
    rw [htokens] at ht
    simpa [TokenStream.toList, TokenStream.ofList] using ht
  obtain ⟨x, hx, hkind, hspan⟩ := Shading.mem_tokens_iff.1 hlisted
  rw [← hspan] at hmeets
  obtain ⟨hident, hbegins, hends, name, htext, hname⟩ := hcut.backticks hshading hx (by simp [hkind]) hmeets
  have hslice := (hshading.tiles hsource).texts x.2 (List.mem_map_of_mem hx)
  rw [hspan, htext] at hslice
  rw [hkind] at hident
  constructor
  case kind_eq => exact LexemeKind.token.inj hident
  case text => exact ⟨name, hslice, hname⟩
  case begins =>
    rw [← hspan]
    exact hbegins
  case ends =>
    rw [← hspan]
    exact hends

end Violation.SparesTokens

/-- On any source that can be read, what the rule reports spares tokens. -/
structure Rule.SparesTokens (rule : Rule) : Prop where
  file : ∀ context, Snapshot.ofSource context.source = .ok context.snapshot →
    ∀ v ∈ rule.fileViolations context, v.SparesTokens context.source context.snapshot.tokens
  node : ∀ context node, ∀ v ∈ rule.nodeViolations context node,
    v.SparesTokens context.source context.snapshot.tokens

namespace Rule.SparesTokens

variable {rule : Rule} {context : Context} {v : Violation}

theorem ofFile {run : Context → List Violation} (hcheck : rule.check = .file run)
    (h : ∀ context, Snapshot.ofSource context.source = .ok context.snapshot → ∀ v ∈ run context,
      v.SparesTokens context.source context.snapshot.tokens) : rule.SparesTokens where
  file := by simpa [fileViolations, hcheck] using h
  node := by simp [nodeViolations, hcheck]

theorem ofNodes {kinds : List NodeKind} {run : Context → Node → List Violation}
    (hcheck : rule.check = .nodes kinds run)
    (h : ∀ context node, ∀ v ∈ run context node, v.SparesTokens context.source context.snapshot.tokens) :
    rule.SparesTokens where
  file := by simp [fileViolations, hcheck]
  node := by simpa [nodeViolations, hcheck] using h

theorem validate (h : rule.SparesTokens) (hsnapshot : Snapshot.ofSource context.source = .ok context.snapshot) :
    ∀ v ∈ rule.validate context, v.SparesTokens context.source context.snapshot.tokens := by
  intro v hv
  cases hcheck : rule.check with
  | file run =>
      apply h.file context hsnapshot
      simpa only [Rule.validate, fileViolations, hcheck] using hv
  | nodes kinds run =>
      simp only [Rule.validate, hcheck, List.mem_flatMap] at hv
      obtain ⟨node, -, hv⟩ := hv
      apply h.node context node
      simpa only [nodeViolations, hcheck] using hv

end Rule.SparesTokens

section

variable {severity : Severity} {context : Context} {v : Violation}

theorem TrailingSemicolon.sparesTokens_of_mem
    (hsnapshot : Snapshot.ofSource context.source = .ok context.snapshot) (hv : v ∈ violations severity context) :
    v.SparesTokens context.source context.snapshot.tokens := by
  obtain ⟨marks, placed, hshading, hsource⟩ := Snapshot.exists_shading hsnapshot
  have htokens := hshading.tokens_of_ofSource hsource hsnapshot
  obtain ⟨run, hrun, rfl⟩ := List.mem_map.1 hv
  have hedit : Correction.deletion run ∈ edits (fun _ => false) marks := by
    rw [← edits_eq hshading hsource, ← htokens]
    exact List.mem_filter.2 ⟨List.mem_map_of_mem hrun, rfl⟩
  exact .of_isCutOut hshading hsource htokens rfl (exists_isCutOut hedit)

theorem CommaSpacing.sparesTokens_of_mem
    (hsnapshot : Snapshot.ofSource context.source = .ok context.snapshot) (hv : v ∈ violations severity context) :
    v.SparesTokens context.source context.snapshot.tokens := by
  obtain ⟨marks, placed, hshading, hsource⟩ := Snapshot.exists_shading hsnapshot
  have htokens := hshading.tokens_of_ofSource hsource hsnapshot
  obtain ⟨e, he, rfl⟩ := List.mem_map.1 hv
  have hedit : e ∈ edits (fun _ => false) 0 [] marks := by
    have hedits := @edits_eq _ [] marks placed hshading hsource fun _ => false
    rw [← hsource, ← htokens] at hedits
    change e ∈ edits _ (byteLength (chars [])) (chars []).reverse marks
    rw [← hedits]
    exact List.mem_filter.2 ⟨he, rfl⟩
  exact .of_isCutOut hshading hsource htokens rfl (exists_isCutOut hshading.isChain_borders hedit)

end

namespace Registry

theorem sparesTokens_ofSeverity {config : Config} {make : SeverityOptions → Rule}
    (h : ∀ options, (make options).SparesTokens) :
    ∀ rule, (KnownRule.ofSeverity make).build config = .ok rule → rule.SparesTokens := by
  intro rule hrule
  obtain ⟨options, rfl⟩ := KnownRule.exists_of_ofSeverity hrule
  exact h options

theorem sparesTokens_standard (config : Config) : ∀ known ∈ standard.known, ∀ rule,
    known.build config = .ok rule → rule.SparesTokens := by
  rw [standard]
  simp only [List.forall_mem_cons]
  refine ⟨?_, ?_, ?_, ?_, ?_, ?_, ?_, by simp⟩
  · exact sparesTokens_ofSeverity fun _ => .ofNodes rfl fun _ _ _ h =>
      .of_isRemark (UnusedEnumerated.isRemark_of_mem h)
  · exact sparesTokens_ofSeverity fun _ => .ofNodes rfl fun _ _ _ h =>
      .of_isRemark (UnownedVariableCapture.isRemark_of_mem h)
  · exact sparesTokens_ofSeverity fun _ => .ofNodes rfl fun _ _ _ h =>
      .of_isRemark (LiteralBrackets.isRemark_of_mem h)
  · exact sparesTokens_ofSeverity fun _ => .ofFile rfl fun _ hsnapshot _ =>
      TrailingSemicolon.sparesTokens_of_mem hsnapshot
  · exact sparesTokens_ofSeverity fun _ => .ofFile rfl fun _ hsnapshot _ =>
      CommaSpacing.sparesTokens_of_mem hsnapshot
  · exact sparesTokens_ofSeverity fun _ => .ofFile rfl fun _ _ _ h => .of_isRemark (OpenRemark.isRemark_of_mem h)
  · intro rule hrule
    obtain ⟨options, -, rfl⟩ := exceptMap_eq_ok_iff.1 hrule
    exact .ofFile rfl fun _ _ _ h => .of_isRemark (LineLength.isRemark_of_mem h)

end Registry

/-! ### Linters -/

namespace Linter

variable {linter : Linter} {config : Config} {source : String} {snapshot : Snapshot}

/-- Whatever the configuration is, a token that shares a byte with a correction of a source that can be read is a
name in backticks, with a comma or a semicolon in it, around what is replaced. -/
theorem sparesTokens_lintSnapshot (hlinter : Linter.ofConfig config = .ok linter)
    (hsnapshot : Snapshot.ofSource source = .ok snapshot) :
    ∀ v ∈ linter.lintSnapshot source snapshot, v.SparesTokens source snapshot.tokens := by
  obtain ⟨rules, hrules, rfl⟩ := exceptMap_eq_ok_iff.1 hlinter
  obtain ⟨all, hall, rfl⟩ := exceptMap_eq_ok_iff.1 hrules
  have hspares := Registry.forall_of_buildAll (Registry.sparesTokens_standard config) hall
  intro v hv
  rw [lintSnapshot_eq_visits, withoutSuppressed_eq] at hv
  rcases List.mem_append.1 (List.mem_filter.1 hv).1 with hv | hv
  · obtain ⟨rule, hrule, hv⟩ := List.mem_flatMap.1 hv
    exact (hspares rule (List.mem_filter.1 hrule).1).file (Linter.context _ source snapshot) hsnapshot v hv
  · obtain ⟨node, -, hv⟩ := List.mem_flatMap.1 hv
    obtain ⟨rule, hrule, hv⟩ := List.mem_flatMap.1 hv
    exact (hspares rule (List.mem_filter.1 hrule).1).node (Linter.context _ source snapshot) node v
      (Rule.mem_nodeViolations_of_mem_visit hv)

/-- When no name in backticks has a comma or a semicolon in it, no correction shares a byte with a token. -/
theorem not_meets_of_plainNames (hlinter : Linter.ofConfig config = .ok linter)
    (hsnapshot : Snapshot.ofSource source = .ok snapshot)
    (hnames : ∀ t ∈ snapshot.tokens.toList, ∀ name,
      t.text? source = some (String.ofList ('\x60' :: name ++ ['\x60'])) → ',' ∉ name ∧ ';' ∉ name) :
    ∀ v ∈ linter.lintSnapshot source snapshot, ∀ e, v.correction = some e →
      ∀ t ∈ snapshot.tokens.toList, ¬t.span.Meets e.span := by
  intro v hv e he t ht hmeets
  obtain ⟨name, htext, -, hsign⟩ := (sparesTokens_lintSnapshot hlinter hsnapshot v hv e he t ht hmeets).text
  obtain ⟨hcomma, hsemicolon⟩ := hnames t ht name htext
  exact hsign.elim hcomma hsemicolon

end Linter

/-! ### Corrections within names -/

/-- The rule replaces a piece of a token of the source. -/
def Rule.CutsInto (rule : Rule) (source : String) (t : Token) (e : Correction) : Prop :=
  ∃ snapshot, Snapshot.ofSource source = .ok snapshot ∧ t ∈ snapshot.tokens.toList ∧
    ((rule.validate { source, snapshot }).map Violation.correction) = [some e] ∧ t.span.Meets e.span

theorem Rule.cutsInto_of {rule : Rule} {source : String} {t : Token} {e : Correction}
    (h : ((Snapshot.ofSource source).toOption.any fun snapshot =>
      snapshot.tokens.toList.contains t &&
        (rule.validate { source, snapshot }).map Violation.correction == [some e]) = true)
    (hmeets : t.span.Meets e.span) : rule.CutsInto source t e := by
  obtain ⟨snapshot, hsnapshot, hboth⟩ := exists_of_toOption_any h
  obtain ⟨ht, hcorrections⟩ := Bool.and_eq_true_iff.1 hboth
  exact ⟨snapshot, hsnapshot, List.contains_iff_mem.1 ht, eq_of_beq hcorrections, hmeets⟩

/-- A name in backticks gets a space behind its comma. -/
theorem CommaSpacing.cutsInto_name :
    (rule {}).CutsInto "let \x60a,b\x60 = 1" ⟨.identifier, ⟨4, 5⟩⟩ ⟨⟨6, 1⟩, ", "⟩ :=
  Rule.cutsInto_of (by decide +kernel) (by decide)

/-- A name in backticks loses the semicolon at the end of its first line. -/
theorem TrailingSemicolon.cutsInto_name :
    (rule {}).CutsInto "let \x60a;\nb\x60 = 1" ⟨.identifier, ⟨4, 6⟩⟩ ⟨⟨6, 1⟩, ""⟩ :=
  Rule.cutsInto_of (by decide +kernel) (by decide)

end SourceLint
