import SourceLint.Proofs.Directives.Spelling
import SourceLint.Suppression

/-!
# Directives in a row on one line

The search for markers finds each directive of a line. But a directive ends with its line or its comment and not with
the next marker, so it takes all words behind it as names of rules: the marker of the next directive with its action,
and the names that this one is about. Only the last directive of a line is sure to be read as it is spelled.

## Main results

* `Directive.ofComment_row`: what is read from a line with several directives.
* `Directive.ofComment_row_eq_iff`: which lines are read as they are spelled.
* `Directive.ofComment_row_takes`, `Suppression.isDisabled_row`: a directive that takes names of the next one.
-/

namespace SourceLint.Directive

namespace Spelling

/-- The words of a spelling with its marker. The marker is a word of its own where white space is behind it. -/
def allWords (s : Spelling) : List String :=
  (if s.gap = [] then [String.ofList (marker ++ s.action.name.toList)]
    else [String.ofList marker, s.action.name]) ++ s.words

/-- The directives that are read from a row, with the offsets of their markers, when the row begins at `offset`. Each
has the words of all directives behind it among its names. -/
def readAt (offset : Nat) : List Spelling → List (Nat × Directive)
  | [] => []
  | s :: row =>
    (offset, ⟨s.action, rulesOfNames (s.words ++ row.flatMap allWords)⟩) :: readAt (offset + byteLength s.chars) row

/-- The directives that are spelled in a row, with the offsets of their markers, when the row begins at `offset`. -/
def spelledAt (offset : Nat) : List Spelling → List (Nat × Directive)
  | [] => []
  | s :: row => (offset, s.directive) :: spelledAt (offset + byteLength s.chars) row

/-! ### The words of a row -/

theorem blankSeparated_chars (s : Spelling) {behind : List Char}
    (hbehind : ∀ c ∈ (s.trail ++ behind).head?, isBlank c = true) :
    (blankSeparated (s.chars ++ behind)).map String.ofList =
      s.allWords ++ (blankSeparated behind).map String.ofList := by
  have hmarker : marker ≠ [] := by decide
  have hremark := s.blankSeparated_remark hbehind
  rw [chars, List.append_assoc]
  by_cases hgap : s.gap = []
  · have hnext := SpelledName.forall_head? s.names (fun _ hc => hc) hbehind
    have hplain : IsPlain (marker ++ s.action.name.toList) := by
      intro c hc
      exact (List.mem_append.1 hc).elim (isPlain_marker c) (s.action.isName.plain c)
    have hparts : marker ++ (s.remark ++ behind) =
        (marker ++ s.action.name.toList) ++ (s.names.flatMap SpelledName.chars ++ (s.trail ++ behind)) := by
      simp [remark, hgap]
    rw [hparts, blankSeparated_append _ hnext, blankSeparated_plain (by simp [hmarker]) hplain,
      SpelledName.blankSeparated_flatMap s.names hbehind, blankSeparated_blank_append s.isGap_trail.isBlank]
    simp [allWords, words, hgap]
  · have hnext : ∀ c ∈ (s.remark ++ behind).head?, isBlank c = true := by
      rw [remark, List.append_assoc]
      exact forall_head?_append_of_ne_nil hgap s.isGap_gap.isBlank
    rw [blankSeparated_append _ hnext, blankSeparated_plain hmarker isPlain_marker, hremark]
    simp [allWords, words, hgap]

/-- Where white space keeps two directives apart, it begins what is behind the words of the first one. -/
theorem head_trail {s : Spelling} {row : List Spelling} (hspaced : ∀ r ∈ (s :: row).dropLast, r.trail ≠ []) :
    ∀ c ∈ (s.trail ++ row.flatMap chars).head?, isBlank c = true := by
  cases row with
  | nil =>
      intro c hc
      rw [List.flatMap_nil, List.append_nil] at hc
      exact s.isGap_trail.isBlank c (List.mem_of_mem_head? hc)
  | cons r row =>
      exact forall_head?_append_of_ne_nil (hspaced s List.mem_cons_self) s.isGap_trail.isBlank

/-- The words of a row are those of its directives, markers and actions included. -/
theorem blankSeparated_row {row : List Spelling} (hspaced : ∀ r ∈ row.dropLast, r.trail ≠ []) :
    (blankSeparated (row.flatMap chars)).map String.ofList = row.flatMap allWords := by
  induction row with
  | nil => rfl
  | cons s row ih =>
      have hrest := ih (forall_mem_dropLast_of_cons hspaced)
      rw [List.flatMap_cons, s.blankSeparated_chars (head_trail hspaced), hrest, List.flatMap_cons]

/-- A row begins with a marker. -/
theorem head_row (row : List Spelling) : ∀ c ∈ (row.flatMap chars).head?, c = 's' := by
  cases row with
  | nil => simp
  | cons s row => exact s.head_chars_append _

theorem not_delimiter_row (row : List Spelling) : ¬['*', '/'] <:+: row.flatMap chars := by
  induction row with
  | nil => decide
  | cons s row ih =>
      rw [List.flatMap_cons, chars, List.append_assoc, infix_append_iff (by decide) (by simp [marker])]
      refine s.not_delimiter_remark ih fun c hc => ?_
      rw [head_row row c hc]
      decide

theorem row_within_line (row : List Spelling) : ∀ c ∈ row.flatMap chars, c ≠ '\n' ∧ c ≠ '\r' := by
  intro c hc
  obtain ⟨s, -, hc⟩ := List.mem_flatMap.1 hc
  exact (List.mem_append.1 hc).elim (isPlain_marker.within_line c) (s.within_line c)

/-! ### Reading a row -/

/-- With other directives behind it on its line, a directive is read with their words among its names. -/
theorem ofText?_row {s : Spelling} {row : List Spelling} (hspaced : ∀ r ∈ (s :: row).dropLast, r.trail ≠ [])
    {tail : List Char} (hends : EndsRemark tail) :
    ofText? (s.remark ++ (row.flatMap chars ++ tail)) =
      some ⟨s.action, rulesOfNames (s.words ++ row.flatMap allWords)⟩ := by
  have hline : ∀ c ∈ s.remark ++ row.flatMap chars, c ≠ '\n' ∧ c ≠ '\r' := by
    intro c hc
    exact (List.mem_append.1 hc).elim (s.within_line c) (row_within_line row c)
  have hnone : ¬['*', '/'] <:+: s.remark ++ row.flatMap chars := by
    refine s.not_delimiter_remark (not_delimiter_row row) fun c hc => ?_
    rw [head_row row c hc]
    decide
  have hread : blankSeparated (restOfRemark (s.remark ++ (row.flatMap chars ++ tail))) =
      s.action.name.toList :: (s.names.map SpelledName.word ++ blankSeparated (row.flatMap chars)) := by
    rw [← List.append_assoc, restOfRemark_append hline hnone hends, s.blankSeparated_remark (head_trail hspaced)]
    rfl
  rw [ofText?_eq hread, List.map_append, blankSeparated_row (forall_mem_dropLast_of_cons hspaced), List.map_map]
  rfl

theorem directivesBehind_row (before : List Char) {row : List Spelling}
    (hspaced : ∀ r ∈ row.dropLast, r.trail ≠ []) {tail : List Char} (hends : EndsRemark tail)
    (htail : ¬marker <:+: tail) :
    directivesBehind before (row.flatMap chars ++ tail) = readAt (byteLength before) row := by
  induction row generalizing before with
  | nil =>
      have hnone : directivesBehind before (tail ++ []) = _ := directivesBehind_append before htail (by simp)
      rwa [List.append_nil, directivesBehind_nil] at hnone
  | cons s row ih =>
      have hread := ofText?_row hspaced hends
      rw [List.flatMap_cons, List.append_assoc, readAt]
      cases row with
      | nil =>
          have hstep := @directivesBehind_spelling before s tail [] htail (head_not_mem_marker hends) (by simp)
          simp only [List.append_nil, directivesBehind_nil] at hstep
          simp only [List.flatMap_nil, List.nil_append] at hread ⊢
          rw [hstep, hread]
          rfl
      | cons r row =>
          have hnext := r.head_chars_append (row.flatMap chars ++ tail)
          rw [← List.append_assoc, ← List.flatMap_cons] at hnext
          have hstep := @directivesBehind_spelling before s [] _ (by decide) (by simp) hnext
          have hrest := ih (before ++ s.chars) (forall_mem_dropLast_of_cons hspaced)
          rw [List.nil_append, hread, List.append_nil, hrest, byteLength_append] at hstep
          rw [hstep]
          rfl

end Spelling

/-! ### Rows that are read as they are spelled -/

/-- One of the names means all rules. -/
def NamesAll (names : List String) : Prop := ∃ name ∈ names, normalizeKey name = "all"

section NamesAll

variable {names more : List String}

theorem namesAll_append : NamesAll (names ++ more) ↔ NamesAll names ∨ NamesAll more := by
  simp only [NamesAll, List.mem_append, or_and_right, exists_or]

theorem rulesOfNames_of_namesAll (h : NamesAll names) : rulesOfNames names = [] := by
  obtain ⟨name, hname, hall⟩ := h
  rw [rulesOfNames, if_pos]
  rw [List.contains_iff_mem]
  exact List.mem_map.2 ⟨name, hname, hall⟩

theorem rulesOfNames_of_not_namesAll (h : ¬NamesAll names) : rulesOfNames names = names.map normalizeKey := by
  rw [rulesOfNames, if_neg]
  rw [List.contains_iff_mem]
  intro hmem
  obtain ⟨name, hname, hall⟩ := List.mem_map.1 hmem
  exact h ⟨name, hname, hall⟩

/-- More names change nothing about what some names stand for only where these stand for all rules by themselves and
one of all the names means all rules. -/
theorem rulesOfNames_append_eq_iff :
    rulesOfNames (names ++ more) = rulesOfNames names ↔
      more = [] ∨ rulesOfNames names = [] ∧ NamesAll (names ++ more) := by
  by_cases hall : NamesAll (names ++ more)
  · rw [rulesOfNames_of_namesAll hall]
    constructor
    · intro h
      exact .inr ⟨h.symm, hall⟩
    · rintro (rfl | ⟨h, -⟩)
      · rw [List.append_nil] at hall
        exact (rulesOfNames_of_namesAll hall).symm
      · exact h.symm
  · have hnames : ¬NamesAll names := fun h => hall (namesAll_append.2 (.inl h))
    rw [rulesOfNames_of_not_namesAll hall, rulesOfNames_of_not_namesAll hnames, List.map_append]
    simp [hall]

end NamesAll

namespace Spelling

/-- A marker and an action do not mean all rules, so only a name of a row can. -/
theorem namesAll_allWords (row : List Spelling) : NamesAll (row.flatMap allWords) ↔ NamesAll (row.flatMap words) := by
  have haction : ∀ action : Action, ¬NamesAll [String.ofList (marker ++ action.name.toList)] ∧
      ¬NamesAll [String.ofList marker, action.name] := by
    intro action
    simp only [NamesAll]
    cases action with
    | disable => decide +kernel
    | enable => decide +kernel
    | disableLine target => cases target <;> decide +kernel
  induction row with
  | nil => rfl
  | cons s row ih =>
      obtain ⟨hone, htwo⟩ := haction s.action
      rw [List.flatMap_cons, List.flatMap_cons, namesAll_append, namesAll_append, allWords, namesAll_append]
      refine or_congr ?_ ih
      by_cases hgap : s.gap = []
      · rw [if_pos hgap, or_iff_right hone]
      · rw [if_neg hgap, or_iff_right htwo]

/-- A row is read as it is spelled when each directive but the last one stands for all rules, and it or one behind it
has a name that means all rules. -/
theorem readAt_eq_spelledAt_iff {offset : Nat} {row : List Spelling} :
    readAt offset row = spelledAt offset row ↔ ∀ front s behind, row = front ++ s :: behind →
      behind = [] ∨ s.directive.rules = [] ∧ NamesAll ((s :: behind).flatMap words) := by
  induction row generalizing offset with
  | nil => simp [readAt, spelledAt]
  | cons s row ih =>
      have hfirst : rulesOfNames (s.words ++ row.flatMap allWords) = s.directive.rules ↔
          row = [] ∨ s.directive.rules = [] ∧ NamesAll ((s :: row).flatMap words) := by
        have hnil : row.flatMap allWords = [] ↔ row = [] := by
          cases row with
          | nil => simp
          | cons r row =>
              have hne : r.allWords ≠ [] := by
                rw [allWords]
                split <;> simp
              simp [hne]
        rw [← s.rulesOfNames_words, rulesOfNames_append_eq_iff, hnil, List.flatMap_cons, namesAll_append,
          namesAll_append, namesAll_allWords]
      rw [readAt, spelledAt, List.cons.injEq, ih, Prod.mk.injEq, directive, Directive.mk.injEq]
      simp only [true_and]
      constructor
      · rintro ⟨hrules, hrest⟩ (_ | ⟨r, front⟩) t behind hparts
        · obtain ⟨rfl, rfl⟩ := List.cons.inj hparts
          exact hfirst.1 hrules
        · obtain ⟨-, hrow⟩ := List.cons.inj hparts
          exact hrest front t behind hrow
      · intro h
        refine ⟨hfirst.2 (h [] s row rfl), fun front t behind hparts => ?_⟩
        exact h (s :: front) t behind (by rw [hparts, List.cons_append])

end Spelling

section Row

variable {lead tail : List Char} {row : List Spelling} (hlead : ¬marker <:+: lead) (hrow : row ≠ [])
  (hspaced : ∀ s ∈ row.dropLast, s.trail ≠ []) (hends : EndsRemark tail) (htail : ¬marker <:+: tail)

include hlead hrow hspaced hends htail

/-- In a comment with several directives on one line, each is found at the offset of its marker, and has all words
behind it on the line among its names. -/
theorem ofComment_row :
    ofComment (String.ofList (lead ++ (row.flatMap Spelling.chars ++ tail))) =
      Spelling.readAt (byteLength lead) row := by
  have hnext : ∀ c ∈ (row.flatMap Spelling.chars ++ tail).head?, c = 's' := by
    obtain ⟨s, more, rfl⟩ := List.exists_cons_of_ne_nil hrow
    rw [List.flatMap_cons, List.append_assoc]
    exact s.head_chars_append _
  rw [ofComment_eq, String.toList_ofList, directivesBehind_append [] hlead hnext, List.nil_append,
    Spelling.directivesBehind_row lead hspaced hends htail]

/-- Such directives are read as they are spelled exactly when each but the last one stands for all rules, and it or
one behind it has a name that means all rules. -/
theorem ofComment_row_eq_iff :
    ofComment (String.ofList (lead ++ (row.flatMap Spelling.chars ++ tail))) =
        Spelling.spelledAt (byteLength lead) row ↔
      ∀ front s behind, row = front ++ s :: behind →
        behind = [] ∨ s.directive.rules = [] ∧ NamesAll ((s :: behind).flatMap Spelling.words) := by
  rw [ofComment_row hlead hrow hspaced hends htail, Spelling.readAt_eq_spelledAt_iff]

end Row

/-- Two directives on one line, of which the first one takes the second for names. -/
theorem ofComment_row_takes :
    ofComment "// sift:disable a sift:enable b" =
      [(3, ⟨.disable, ["a", "sift:enable", "b"]⟩), (18, ⟨.enable, ["b"]⟩)] := by
  decide +kernel

end SourceLint.Directive

namespace SourceLint.Suppression

/-- A directive names one rule, and the next one on its line turns another rule off on the next line only. But this
rule is off on the line behind that too. -/
theorem isDisabled_row :
    let source := "// sift:disable a sift:disable:next b\nf()\ng()"
    let tokens := TokenStream.ofList
      [⟨.comment, ⟨0, 37⟩⟩, ⟨.identifier, ⟨38, 1⟩⟩, ⟨.identifier, ⟨42, 1⟩⟩]
    let suppression := ofTokens source tokens (.ofString source)
    directives source tokens (.ofString source) =
        [(1, ⟨.disable, ["a", "sift:disable:next", "b"]⟩), (1, ⟨.disableLine .next, ["b"]⟩)] ∧
      suppression.isDisabled "b" 2 = true ∧ suppression.isDisabled "b" 3 = true := by
  decide +kernel

end SourceLint.Suppression
