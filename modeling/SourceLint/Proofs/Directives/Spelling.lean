import Mathlib.Data.List.Infix
import SourceLint.Directive
import SourceLint.Proofs.Text.Remarks
import SourceLint.Proofs.Text.Blanks

/-!
# Directives as comments spell them

A directive is spelled by its marker, its action and the names of rules, with white space between them. Reading goes
from marker to marker, and each directive is read from all that its line and its comment have behind its marker. So
directives that are kept apart, by the ends of their lines or by delimiters, are read as they are spelled, whatever
else the comment says before, between and behind them.

## Main results

* `Directive.directivesBehind_spelling`: what one more directive of a comment adds to those read behind it.
* `Directive.ofComment_passages`: a comment whose directives are kept apart has just these, at their offsets.

## Implementation notes

`directivesBehind` is reading from some place of a comment on, with the part before it. It moves over the text part by
part, so a fact about all directives is proved by induction on what is still to be read.
-/

namespace SourceLint.Directive

/-! ### Spellings -/

/-- White space within a line. -/
def IsGap (cs : List Char) : Prop := ∀ c ∈ cs, isBlank c = true ∧ c ≠ '\n' ∧ c ≠ '\r'

/-- Text without white space. -/
def IsPlain (cs : List Char) : Prop := ∀ c ∈ cs, isBlank c = false

-- Both are decided over the text, and not over all characters.
instance (cs : List Char) : Decidable (IsGap cs) := List.decidableBAll _ cs

instance (cs : List Char) : Decidable (IsPlain cs) := List.decidableBAll _ cs

theorem IsGap.isBlank {gap : List Char} (h : IsGap gap) : ∀ c ∈ gap, isBlank c = true := fun c hc => (h c hc).1

theorem IsPlain.not_mem_of_isBlank {cs : List Char} (h : IsPlain cs) {c : Char} (hc : isBlank c = true) : c ∉ cs := by
  intro hmem
  rw [h c hmem] at hc
  cases hc

/-- What ends a line is white space. -/
theorem IsPlain.within_line {cs : List Char} (h : IsPlain cs) : ∀ c ∈ cs, c ≠ '\n' ∧ c ≠ '\r' := by
  intro c hc
  constructor
  · rintro rfl
    exact h.not_mem_of_isBlank rfl hc
  · rintro rfl
    exact h.not_mem_of_isBlank rfl hc

theorem isPlain_marker : IsPlain marker := by decide

/-- A word without the marker of directives and without the delimiter that closes a comment. -/
structure IsName (cs : List Char) : Prop where
  ne_nil : cs ≠ [] := by decide
  plain : IsPlain cs := by decide
  not_marker : ¬marker <:+: cs := by decide
  not_delimiter : ¬['*', '/'] <:+: cs := by decide

/-- A name of a rule with the white space before it. -/
structure SpelledName where
  gap : List Char
  word : List Char
  gap_ne_nil : gap ≠ [] := by decide
  isGap : IsGap gap := by decide
  isName : IsName word := by exact {}

/-- A directive as a comment spells it, with the white space behind its marker and behind its last word. -/
structure Spelling where
  gap : List Char
  action : Action
  names : List SpelledName
  trail : List Char
  isGap_gap : IsGap gap := by decide
  isGap_trail : IsGap trail := by decide

namespace SpelledName

def chars (name : SpelledName) : List Char := name.gap ++ name.word

theorem flatMap_cons_append (name : SpelledName) (names : List SpelledName) (behind : List Char) :
    (name :: names).flatMap chars ++ behind = name.gap ++ (name.word ++ (names.flatMap chars ++ behind)) := by
  simp [chars]

/-- Names begin with white space, if there are any. -/
theorem forall_head? {p : Char → Prop} (names : List SpelledName) {behind : List Char}
    (hblank : ∀ c, isBlank c = true → p c) (hbehind : ∀ c ∈ behind.head?, p c) :
    ∀ c ∈ (names.flatMap chars ++ behind).head?, p c := by
  cases names with
  | nil => exact hbehind
  | cons name names =>
      rw [flatMap_cons_append]
      exact forall_head?_append_of_ne_nil name.gap_ne_nil fun c hc => hblank c (name.isGap.isBlank c hc)

end SpelledName

namespace Spelling

/-- The text behind the marker. -/
def remark (s : Spelling) : List Char :=
  s.gap ++ (s.action.name.toList ++ (s.names.flatMap SpelledName.chars ++ s.trail))

def chars (s : Spelling) : List Char := marker ++ s.remark

/-- The names as they are spelled. -/
def words (s : Spelling) : List String := s.names.map fun name => String.ofList name.word

/-- The directive that is spelled: it concerns the rules with these names, and all rules when there are no names or
when one of them means all rules. -/
def directive (s : Spelling) : Directive where
  action := s.action
  rules := if s.words.any fun word => normalizeKey word == "all" then [] else s.words.map normalizeKey

theorem rulesOfNames_words (s : Spelling) : rulesOfNames s.words = s.directive.rules := by
  simp only [rulesOfNames, directive, List.contains_eq_any_beq, List.any_map, Function.comp_def, Bool.beq_comm]

end Spelling

/-! ### Patterns that are in no word -/

/-- Actions have names, as rules have. -/
theorem Action.isName (action : Action) : IsName action.name.toList := by
  cases action with
  | disable => exact {}
  | enable => exact {}
  | disableLine target => cases target <;> exact {}

section Patterns

variable {pattern behind : List Char}

theorem SpelledName.not_infix_flatMap (hne : pattern ≠ []) (hpattern : IsPlain pattern)
    {names : List SpelledName} (hnames : ∀ name ∈ names, ¬pattern <:+: name.word) (hbehind : ¬pattern <:+: behind)
    (hhead : ∀ c ∈ behind.head?, c ∉ pattern) : ¬pattern <:+: names.flatMap chars ++ behind := by
  have hblank : ∀ c, isBlank c = true → c ∉ pattern := fun _ hc => hpattern.not_mem_of_isBlank hc
  induction names with
  | nil => exact hbehind
  | cons name names ih =>
      have hrest := ih fun other hother => hnames other (List.mem_cons_of_mem name hother)
      rw [flatMap_cons_append, infix_append_iff hne fun c hc => hblank c (name.isGap.isBlank c hc)]
      exact not_infix_append (hnames name List.mem_cons_self) hrest (forall_head? names hblank hhead)

/-- A pattern without white space that is in none of the words of a spelling, nor behind it, is not across them. -/
theorem Spelling.not_infix_remark (s : Spelling) (hne : pattern ≠ []) (hpattern : IsPlain pattern)
    (haction : ¬pattern <:+: s.action.name.toList) (hnames : ∀ name ∈ s.names, ¬pattern <:+: name.word)
    (hbehind : ¬pattern <:+: behind) (hhead : ∀ c ∈ behind.head?, c ∉ pattern) :
    ¬pattern <:+: s.remark ++ behind := by
  have hblank : ∀ c, isBlank c = true → c ∉ pattern := fun _ hc => hpattern.not_mem_of_isBlank hc
  have hgap : ∀ c ∈ s.gap, c ∉ pattern := fun c hc => hblank c (s.isGap_gap.isBlank c hc)
  have htrail : ∀ c ∈ s.trail, c ∉ pattern := fun c hc => hblank c (s.isGap_trail.isBlank c hc)
  have hnext : ∀ c ∈ (s.trail ++ behind).head?, c ∉ pattern :=
    forall_head?_append (fun c hc => htrail c (List.mem_of_mem_head? hc)) hhead
  have hend : ¬pattern <:+: s.trail ++ behind := by rwa [infix_append_iff hne htrail]
  have hrest := SpelledName.not_infix_flatMap hne hpattern hnames hend hnext
  simp only [remark, List.append_assoc]
  rw [infix_append_iff hne hgap]
  exact not_infix_append haction hrest (SpelledName.forall_head? s.names hblank hnext)

end Patterns

/-! ### Words -/

theorem SpelledName.blankSeparated_flatMap (names : List SpelledName) {behind : List Char}
    (hbehind : ∀ c ∈ behind.head?, isBlank c = true) :
    blankSeparated (names.flatMap chars ++ behind) = names.map word ++ blankSeparated behind := by
  induction names with
  | nil => rfl
  | cons name names ih =>
      have hnext := forall_head? names (fun _ hc => hc) hbehind
      rw [flatMap_cons_append, blankSeparated_blank_append name.isGap.isBlank, blankSeparated_append _ hnext,
        blankSeparated_plain name.isName.ne_nil name.isName.plain, ih]
      rfl

namespace Spelling

/-- The words of a spelling are its action and its names. -/
theorem blankSeparated_remark (s : Spelling) {behind : List Char}
    (hbehind : ∀ c ∈ (s.trail ++ behind).head?, isBlank c = true) :
    blankSeparated (s.remark ++ behind) =
      s.action.name.toList :: s.names.map SpelledName.word ++ blankSeparated behind := by
  obtain ⟨hne, hplain, -, -⟩ := s.action.isName
  have hnext := SpelledName.forall_head? s.names (fun _ hc => hc) hbehind
  simp only [remark, List.append_assoc]
  rw [blankSeparated_blank_append s.isGap_gap.isBlank, blankSeparated_append _ hnext, blankSeparated_plain hne hplain,
    SpelledName.blankSeparated_flatMap s.names hbehind, blankSeparated_blank_append s.isGap_trail.isBlank]
  rfl

/-- A spelling begins with the marker. -/
theorem head_chars_append (s : Spelling) (behind : List Char) : ∀ c ∈ (s.chars ++ behind).head?, c = 's' := by
  intro c hc
  exact (Option.some.inj hc).symm

/-- A spelling stays on its line. -/
theorem within_line (s : Spelling) : ∀ c ∈ s.remark, c ≠ '\n' ∧ c ≠ '\r' := by
  intro c hc
  simp only [remark, List.mem_append, List.mem_flatMap, SpelledName.chars] at hc
  rcases hc with hgap | hname | ⟨name, -, hgap | hword⟩ | htrail
  · exact (s.isGap_gap c hgap).2
  · exact s.action.isName.plain.within_line c hname
  · exact (name.isGap c hgap).2
  · exact name.isName.plain.within_line c hword
  · exact (s.isGap_trail c htrail).2

theorem not_marker_remark (s : Spelling) {behind : List Char} (hbehind : ¬marker <:+: behind)
    (hhead : ∀ c ∈ behind.head?, c ∉ marker) : ¬marker <:+: s.remark ++ behind :=
  s.not_infix_remark (by decide) isPlain_marker s.action.isName.not_marker (fun name _ => name.isName.not_marker)
    hbehind hhead

theorem not_delimiter_remark (s : Spelling) {behind : List Char} (hbehind : ¬['*', '/'] <:+: behind)
    (hhead : ∀ c ∈ behind.head?, c ∉ ['*', '/']) : ¬['*', '/'] <:+: s.remark ++ behind :=
  s.not_infix_remark (by decide) (by decide) s.action.isName.not_delimiter (fun name _ => name.isName.not_delimiter)
    hbehind hhead

end Spelling

/-! ### Reading -/

/-- A directive is read from the words of a remark. -/
theorem ofText?_eq {cs : List Char} {action : Action} {words : List (List Char)}
    (h : blankSeparated (restOfRemark cs) = action.name.toList :: words) :
    ofText? cs = some ⟨action, rulesOfNames (words.map String.ofList)⟩ := by
  simp [ofText?, h]

/-- A spelling is read as it says when nothing more belongs to the remark. -/
theorem Spelling.ofText?_remark (s : Spelling) {behind : List Char} (hbehind : EndsRemark behind) :
    ofText? (s.remark ++ behind) = some s.directive := by
  have hnone : ¬['*', '/'] <:+: s.remark ++ [] := s.not_delimiter_remark (by decide) (by simp)
  have htrail : ∀ c ∈ (s.trail ++ []).head?, isBlank c = true := by
    intro c hc
    rw [List.append_nil] at hc
    exact s.isGap_trail.isBlank c (List.mem_of_mem_head? hc)
  have hwords := s.blankSeparated_remark htrail
  rw [List.append_nil] at hnone hwords
  have hread : blankSeparated (restOfRemark (s.remark ++ behind)) =
      s.action.name.toList :: s.names.map SpelledName.word := by
    rw [restOfRemark_append s.within_line hnone hbehind, hwords]
    exact List.append_nil _
  have hrules := s.rulesOfNames_words
  rw [Spelling.words] at hrules
  rw [ofText?_eq hread, List.map_map, Function.comp_def, hrules]
  rfl

/-- What ends a remark does not begin with a character of the marker. -/
theorem head_not_mem_marker {cs : List Char} (h : EndsRemark cs) : ∀ c ∈ cs.head?, c ∉ marker := by
  intro c hc
  cases h with
  | nothing => cases hc
  | line _ newline =>
      obtain rfl := Option.some.inj hc
      rcases newline with rfl | rfl <;> decide
  | delimiter =>
      obtain rfl := Option.some.inj hc
      decide

/-- The directives of a comment from some place on, with their offsets in the whole comment. -/
def directivesBehind (before cs : List Char) : List (Nat × Directive) :=
  (occurrencesFrom marker (byteLength before) 0 cs).filterMap (at? (before ++ cs))

theorem ofComment_eq (comment : String) : ofComment comment = directivesBehind [] comment.toList := rfl

theorem directivesBehind_nil (before : List Char) : directivesBehind before [] = [] := rfl

/-- A part without a marker has no directive. -/
theorem directivesBehind_append (before : List Char) {cs next : List Char} (hnone : ¬marker <:+: cs)
    (hnext : ∀ c ∈ next.head?, c = 's') :
    directivesBehind before (cs ++ next) = directivesBehind (before ++ cs) next := by
  have hfound := @occurrencesFrom_append 's' ['i', 'f', 't', ':'] cs next (by decide) hnone hnext (byteLength before)
  rw [directivesBehind, directivesBehind, byteLength_append, List.append_assoc]
  exact congrArg _ hfound

/-- A marker gives the directive that can be read behind it, if there is one. -/
theorem directivesBehind_marker (before rest : List Char) :
    directivesBehind before (marker ++ rest) =
      ((ofText? rest).map fun directive => (byteLength before, directive)).toList ++
        directivesBehind (before ++ marker) rest := by
  have hfound : occurrencesFrom marker (byteLength before) 0 (marker ++ rest) = _ :=
    occurrencesFrom_piece 's' ['i', 'f', 't', ':'] (byteLength before) rest
  have hrest : dropBytes? (byteLength before + byteLength marker) (before ++ (marker ++ rest)) = some rest := by
    rw [← byteLength_append, ← List.append_assoc, dropBytes?_append]
  have hat : at? (before ++ (marker ++ rest)) (byteLength before) =
      (ofText? rest).map fun directive => (byteLength before, directive) := by
    rw [at?, hrest, Option.bind_some]
  rw [directivesBehind, hfound, List.filterMap_cons, hat, directivesBehind, byteLength_append, List.append_assoc]
  cases ofText? rest <;> rfl

/-- One more directive. Behind it is text without a marker, and then the next marker or nothing. -/
theorem directivesBehind_spelling (before : List Char) (s : Spelling) {after next : List Char}
    (hafter : ¬marker <:+: after) (hhead : ∀ c ∈ after.head?, c ∉ marker) (hnext : ∀ c ∈ next.head?, c = 's') :
    directivesBehind before (s.chars ++ (after ++ next)) =
      ((ofText? (s.remark ++ (after ++ next))).map fun directive => (byteLength before, directive)).toList ++
        directivesBehind (before ++ s.chars ++ after) next := by
  have hnone := s.not_marker_remark hafter hhead
  have hparts : s.remark ++ (after ++ next) = s.remark ++ after ++ next := (List.append_assoc _ _ _).symm
  rw [Spelling.chars, List.append_assoc, directivesBehind_marker, hparts,
    directivesBehind_append (before ++ marker) hnone hnext]
  simp only [List.append_assoc]

/-! ### Directives that are kept apart -/

/-- A directive with the text from its end to the next directive or to the end of the comment. Where there is such
text, it begins with the end of the line or with a delimiter that closes a comment. -/
structure Passage where
  spelling : Spelling
  tail : List Char
  ends : EndsRemark tail
  not_marker : ¬marker <:+: tail := by decide

namespace Passage

def chars (p : Passage) : List Char := p.spelling.chars ++ p.tail

/-- The directives of some passages with the offsets of their markers, when the first passage begins at `offset`. -/
def directivesAt (offset : Nat) : List Passage → List (Nat × Directive)
  | [] => []
  | p :: passages => (offset, p.spelling.directive) :: directivesAt (offset + byteLength p.chars) passages

theorem head_flatMap_chars (passages : List Passage) : ∀ c ∈ (passages.flatMap chars).head?, c = 's' := by
  cases passages with
  | nil => simp
  | cons p passages =>
      rw [List.flatMap_cons, chars, List.append_assoc]
      exact p.spelling.head_chars_append _

end Passage

/-- What holds of all elements but the last one holds of all but the last one behind the first. -/
theorem forall_mem_dropLast_of_cons {α : Type} {p : α → Prop} {x : α} {xs : List α}
    (h : ∀ y ∈ (x :: xs).dropLast, p y) : ∀ y ∈ xs.dropLast, p y := by
  intro y hy
  cases xs with
  | nil => cases hy
  | cons z xs => exact h y (List.mem_cons_of_mem x hy)

theorem directivesBehind_passages (before : List Char) {passages : List Passage}
    (happart : ∀ p ∈ passages.dropLast, p.tail ≠ []) :
    directivesBehind before (passages.flatMap Passage.chars) = Passage.directivesAt (byteLength before) passages := by
  induction passages generalizing before with
  | nil => exact directivesBehind_nil before
  | cons p passages ih =>
      have hends : EndsRemark (p.tail ++ passages.flatMap Passage.chars) := by
        cases passages with
        | nil => simpa using p.ends
        | cons q passages => exact p.ends.append (happart p List.mem_cons_self) _
      have hstep := directivesBehind_spelling before p.spelling p.not_marker (head_not_mem_marker p.ends)
        (Passage.head_flatMap_chars passages)
      rw [p.spelling.ofText?_remark hends, ih _ (forall_mem_dropLast_of_cons happart)] at hstep
      rw [List.flatMap_cons, Passage.chars, List.append_assoc, hstep, Passage.directivesAt, Passage.chars,
        List.append_assoc, byteLength_append]
      rfl

/-- A comment whose directives are kept apart has just these, in order, each at the offset of its marker. -/
theorem ofComment_passages {lead : List Char} (hlead : ¬marker <:+: lead) {passages : List Passage}
    (happart : ∀ p ∈ passages.dropLast, p.tail ≠ []) :
    ofComment (String.ofList (lead ++ passages.flatMap Passage.chars)) =
      Passage.directivesAt (byteLength lead) passages := by
  rw [ofComment_eq, String.toList_ofList,
    directivesBehind_append [] hlead (Passage.head_flatMap_chars passages), List.nil_append,
    directivesBehind_passages lead happart]

/-- Three lines of a comment, with names in other spellings and one that means all rules. -/
theorem ofComment_passages_lines :
    let passages : List Passage := [
      { spelling := { gap := [], action := .disable, trail := [' ']
                      names := [{ gap := [' '], word := "Todo".toList }, { gap := ['\t'], word := "é_b*".toList }] }
        tail := "\r\n // ".toList, ends := .line _ (.inr rfl) },
      { spelling := { gap := [' '], action := .enable, trail := []
                      names := [{ gap := [' '], word := "x".toList }, { gap := [' '], word := "ALL".toList }] }
        tail := "\n".toList, ends := .line _ (.inl rfl) },
      { spelling := { gap := [], action := .disableLine .next, names := [], trail := [] }
        tail := "*/".toList, ends := .delimiter _ }]
    let comment := "/* sift:disable Todo\té_b* \r\n // sift: enable x ALL\nsift:disable:next*/"
    ¬marker <:+: "/* ".toList ∧ (∀ p ∈ passages.dropLast, p.tail ≠ []) ∧
      String.ofList ("/* ".toList ++ passages.flatMap Passage.chars) = comment ∧
      ofComment comment =
        [(3, ⟨.disable, ["todo", "é-b*"]⟩), (33, ⟨.enable, []⟩), (52, ⟨.disableLine .next, []⟩)] := by
  intro passages comment
  have hlead : ¬marker <:+: "/* ".toList := by decide
  have happart : ∀ p ∈ passages.dropLast, p.tail ≠ [] := by simp [passages]
  have hcomment : String.ofList ("/* ".toList ++ passages.flatMap Passage.chars) = comment := by decide +kernel
  refine ⟨hlead, happart, hcomment, ?_⟩
  rw [← hcomment, ofComment_passages hlead happart]
  decide +kernel

end SourceLint.Directive
