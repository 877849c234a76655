import SourceLint.Proofs.Syntax.Shading

/-!
# The last word on a region

A rule is off in a region when the last directive about it says so. The collected form of the directives
keeps less than the directives themselves: one state with exceptions, saved once for each line behind a
directive. The main statement says that reading it back gives the last word before a line:
`isDisabled_iff_last_word`.

## Implementation notes

What a saved state says about one rule is a single answer, and each directive either replaces it or
leaves it alone. So one invariant is enough for the collected form: on each line it has the state behind
all directives on earlier lines. It is kept because directives come in the order of their lines.
-/

namespace SourceLint

/-- The directive is about regions and concerns the rule. -/
def Directive.governs (directive : Directive) (rule : String) : Bool :=
  (directive.action == .disable || directive.action == .enable) &&
    (directive.rules.isEmpty || directive.rules.contains rule)

/-! ### States -/

namespace RegionState

theorem isDisabled_disable (state : RegionState) (name rule : String) :
    (state.disable name).isDisabled rule = (rule == name || state.isDisabled rule) := by
  obtain ⟨allDisabled, disabled, enabled⟩ := state
  rw [Bool.eq_iff_iff]
  cases allDisabled with
  | true =>
      by_cases hrule : rule = name
      · simp [disable, isDisabled, hrule]
      · simp [disable, isDisabled, hrule]
  | false => simp [disable, isDisabled]

theorem isDisabled_enable (state : RegionState) (name rule : String) :
    (state.enable name).isDisabled rule = (rule != name && state.isDisabled rule) := by
  obtain ⟨allDisabled, disabled, enabled⟩ := state
  rw [Bool.eq_iff_iff]
  cases allDisabled with
  | true => simp [enable, isDisabled]
  | false =>
      by_cases hrule : rule = name
      · simp [enable, isDisabled, hrule]
      · simp [enable, isDisabled, hrule]

theorem isDisabled_foldl_disable (state : RegionState) (names : List String) (rule : String) :
    (names.foldl disable state).isDisabled rule = (names.contains rule || state.isDisabled rule) := by
  induction names generalizing state with
  | nil => simp
  | cons name names ih =>
      rw [List.foldl_cons, ih, isDisabled_disable, List.contains_cons, ← Bool.or_assoc,
        Bool.or_comm (names.contains rule)]

theorem isDisabled_foldl_enable (state : RegionState) (names : List String) (rule : String) :
    (names.foldl enable state).isDisabled rule =
      (!names.contains rule && state.isDisabled rule) := by
  induction names generalizing state with
  | nil => simp
  | cons name names ih =>
      rw [List.foldl_cons, ih, isDisabled_enable, List.contains_cons, ← Bool.and_assoc, Bool.not_or,
        Bool.and_comm (!names.contains rule)]
      rfl

/-- A directive that concerns a rule settles whether it is off. All others change nothing about it. -/
theorem isDisabled_apply (state : RegionState) (directive : Directive) (rule : String) :
    (state.apply directive).isDisabled rule =
      if directive.governs rule then directive.action == .disable else state.isDisabled rule := by
  obtain ⟨action, rules⟩ := directive
  cases action with
  | disableLine target => simp [apply, Directive.governs]
  | disable =>
      cases rules with
      | nil => rfl
      | cons name names =>
          have hgoverns : Directive.governs ⟨.disable, name :: names⟩ rule =
              (name :: names).contains rule := rfl
          have hstate : state.apply ⟨.disable, name :: names⟩ = (name :: names).foldl disable state := rfl
          rw [hstate, isDisabled_foldl_disable, hgoverns]
          cases (name :: names).contains rule <;> rfl
  | enable =>
      cases rules with
      | nil => rfl
      | cons name names =>
          have hgoverns : Directive.governs ⟨.enable, name :: names⟩ rule =
              (name :: names).contains rule := rfl
          have hstate : state.apply ⟨.enable, name :: names⟩ = (name :: names).foldl enable state := rfl
          rw [hstate, isDisabled_foldl_enable, hgoverns]
          cases (name :: names).contains rule <;> rfl

/-- Behind some directives a rule is off when the last one that concerns it says so. -/
theorem isDisabled_foldl_apply (directives : List Directive) (rule : String) :
    (directives.foldl apply {}).isDisabled rule =
      ((directives.filter fun d => d.governs rule).getLast?.any fun d => d.action == .disable) := by
  induction directives using List.reverseRecOn with
  | nil => rfl
  | append_singleton directives directive ih =>
      rw [List.foldl_append, List.foldl_cons, List.foldl_nil, isDisabled_apply, List.filter_append]
      cases hgoverns : directive.governs rule with
      | true => simp [hgoverns]
      | false => simp [hgoverns, ih]

end RegionState

/-! ### Collected directives -/

namespace Suppression

/-- The state behind the directives on the lines before a line. -/
def stateBefore (line : Nat) (directives : List (Nat × Directive)) : RegionState :=
  ((directives.filter fun x => x.1 < line).map Prod.snd).foldl RegionState.apply {}

/-- What is collected from some directives: the starts of regions ascend, a region starts behind the line
of a directive, each line has the state behind the directives before it, and the rules turned off on
single lines come from directives about these lines. -/
structure Collects (s : Suppression) (directives : List (Nat × Directive)) : Prop where
  ascending : s.regions.toList.Pairwise fun a b => a.1 < b.1
  starts : ∀ region ∈ s.regions.toList, ∃ x ∈ directives, region.1 = x.1 + 1
  current : s.current = (directives.map Prod.snd).foldl RegionState.apply {}
  regionAt : ∀ line, s.regionAt line = stateBefore line directives
  singleLines : ∀ entry ∈ s.singleLines, ∃ x ∈ directives, ∃ target,
    x.2.action = .disableLine target ∧ target.line? x.1 = some entry.1

/-- On ascending regions the search finds the last one that starts on the line or before. -/
theorem regionAt_eq {s : Suppression} (h : s.regions.toList.Pairwise fun a b => a.1 < b.1)
    (line : Nat) :
    s.regionAt line =
      ((s.regions.toList.filter fun region => region.1 ≤ line).getLast?.map Prod.snd).getD {} := by
  obtain ⟨⟨regions⟩, singleLines⟩ := s
  simp only at h
  have hascending : regions.Pairwise fun a b =>
      decide (b.1 ≤ line) = true → decide (a.1 ≤ line) = true :=
    h.imp fun hlt => by simp only [decide_eq_true_eq]; omega
  have hpartition := partitionedAt_countP hascending
  have hsize := hpartition.1
  rw [regionAt, partitionPoint_eq hpartition, filter_eq_take hpartition]
  cases hcount : regions.countP fun region => decide (region.1 ≤ line) with
  | zero => rfl
  | succ count =>
      rw [hcount, List.size_toArray] at hsize
      simp [List.getLast?_take, List.getElem?_eq_getElem hsize]

/-- A state is put behind the regions that start before its line. -/
theorem toList_setState {s : Suppression} (h : s.regions.toList.Pairwise fun a b => a.1 < b.1)
    {line : Nat} (hle : ∀ region ∈ s.regions.toList, region.1 ≤ line) (state : RegionState) :
    (s.setState line state).regions.toList =
      s.regions.toList.filter (fun region => region.1 < line) ++ [(line, state)] := by
  obtain ⟨⟨regions⟩, singleLines⟩ := s
  simp only at h hle
  induction regions using List.reverseRecOn with
  | nil => rfl
  | append_singleton regions last _ =>
      obtain ⟨hregions, -, hlast⟩ := List.pairwise_append.1 h
      have hbefore : ∀ region ∈ regions, region.1 < last.1 := fun region hregion =>
        hlast region hregion last List.mem_cons_self
      have hlastLe := hle last (by simp)
      have hfront : regions.filter (fun region => decide (region.1 < line)) = regions := by
        rw [List.filter_eq_self]
        intro region hregion
        have := hbefore region hregion
        simp only [decide_eq_true_eq]
        omega
      rw [List.filter_append, hfront]
      by_cases hsame : last.1 = line
      · simp [setState, hsame]
      · have hlt : last.1 < line := by omega
        simp [setState, hsame, hlt]

theorem stateBefore_append (line place : Nat) (directives : List (Nat × Directive))
    (directive : Directive) :
    stateBefore line (directives ++ [(place, directive)]) =
      if place < line then (stateBefore line directives).apply directive
      else stateBefore line directives := by
  rw [stateBefore, List.filter_append, List.map_append, List.foldl_append]
  by_cases hplace : place < line
  · simp [hplace, stateBefore]
  · simp [hplace, stateBefore]

/-- Behind all of them, the state is that of all directives. -/
theorem stateBefore_of_lt {line : Nat} {directives : List (Nat × Directive)}
    (h : ∀ x ∈ directives, x.1 < line) :
    stateBefore line directives = (directives.map Prod.snd).foldl RegionState.apply {} := by
  rw [stateBefore, List.filter_eq_self.2 fun x hx => by simpa using h x hx]

namespace Collects

variable {s : Suppression} {directives : List (Nat × Directive)}

theorem nil : Collects {} [] where
  ascending := .nil
  starts := by simp
  current := rfl
  regionAt := by
    intro line
    rw [regionAt_eq .nil]
    rfl
  singleLines := by simp

/-- A directive on a single line leaves all regions as they are. -/
theorem addSingleLine (h : Collects s directives) (line : Nat) (target : Directive.Target)
    (rules : List String) :
    Collects (s.add line ⟨.disableLine target, rules⟩)
      (directives ++ [(line, ⟨.disableLine target, rules⟩)]) := by
  have hregions : (s.add line ⟨.disableLine target, rules⟩).regions = s.regions := by
    simp only [add]
    split <;> rfl
  have hstate : ∀ state : RegionState, state.apply ⟨.disableLine target, rules⟩ = state := by
    intro state
    cases rules <;> rfl
  have hmore : ∀ x ∈ directives, x ∈ directives ++ [(line, ⟨.disableLine target, rules⟩)] :=
    fun x hx => List.mem_append_left _ hx
  refine ⟨hregions ▸ h.ascending, ?_, ?_, ?_, ?_⟩
  · intro region hregion
    rw [hregions] at hregion
    obtain ⟨x, hx, hstart⟩ := h.starts region hregion
    exact ⟨x, hmore x hx, hstart⟩
  · rw [Suppression.current, hregions, List.map_append, List.foldl_append, ← h.current]
    exact (hstate s.current).symm
  · intro place
    rw [Suppression.regionAt, hregions, stateBefore_append, hstate, ite_self]
    exact h.regionAt place
  · intro entry hentry
    simp only [add] at hentry
    cases htarget : target.line? line with
    | none =>
        rw [htarget] at hentry
        obtain ⟨x, hx, hentry⟩ := h.singleLines entry hentry
        exact ⟨x, hmore x hx, hentry⟩
    | some place =>
        rw [htarget] at hentry
        rcases List.mem_cons.1 hentry with rfl | hentry
        · exact ⟨_, List.mem_append_right _ (List.mem_singleton_self _), target, rfl, htarget⟩
        · obtain ⟨x, hx, hentry⟩ := h.singleLines entry hentry
          exact ⟨x, hmore x hx, hentry⟩

/-- A directive on a region changes what holds behind its line, and nothing before. -/
theorem addRegion (h : Collects s directives) {line : Nat} (hle : ∀ x ∈ directives, x.1 ≤ line)
    (directive : Directive) :
    Collects (s.setState (line + 1) (s.current.apply directive)) (directives ++ [(line, directive)]) := by
  have hbefore : ∀ region ∈ s.regions.toList, region.1 ≤ line + 1 := by
    intro region hregion
    obtain ⟨x, hx, hstart⟩ := h.starts region hregion
    have := hle x hx
    omega
  have hregions := toList_setState h.ascending hbefore (s.current.apply directive)
  have hascending : (s.setState (line + 1) (s.current.apply directive)).regions.toList.Pairwise
      fun a b => a.1 < b.1 := by
    rw [hregions]
    refine List.pairwise_append.2 ⟨h.ascending.filter _, List.pairwise_singleton _ _, ?_⟩
    intro region hregion last hlast
    obtain rfl := List.mem_singleton.1 hlast
    simpa using (List.mem_filter.1 hregion).2
  have hsingle : (s.setState (line + 1) (s.current.apply directive)).singleLines = s.singleLines := by
    rw [setState]
    split
    · split <;> rfl
    · rfl
  refine ⟨hascending, ?_, ?_, ?_, ?_⟩
  · intro region hregion
    rw [hregions] at hregion
    rcases List.mem_append.1 hregion with hregion | hregion
    · obtain ⟨x, hx, hstart⟩ := h.starts region (List.mem_filter.1 hregion).1
      exact ⟨x, List.mem_append_left _ hx, hstart⟩
    · obtain rfl := List.mem_singleton.1 hregion
      exact ⟨_, List.mem_append_right _ (List.mem_singleton_self _), rfl⟩
  · rw [Suppression.current, ← Array.getLast?_toList, hregions, List.getLast?_concat, List.map_append,
      List.foldl_append, ← h.current]
    rfl
  · intro place
    rw [regionAt_eq hascending, hregions, stateBefore_append, List.filter_append]
    by_cases hplace : line < place
    · have hall : stateBefore place directives = s.current := by
        rw [h.current, stateBefore_of_lt fun x hx => Nat.lt_of_le_of_lt (hle x hx) hplace]
      rw [if_pos hplace, hall]
      simp [Nat.succ_le_of_lt hplace]
    · have hsame : (s.regions.toList.filter fun region => decide (region.1 < line + 1)).filter
          (fun region => decide (region.1 ≤ place)) =
          s.regions.toList.filter fun region => decide (region.1 ≤ place) := by
        rw [List.filter_filter]
        apply List.filter_congr
        intro region _
        rw [Bool.eq_iff_iff]
        simp only [Bool.and_eq_true, decide_eq_true_eq]
        omega
      have hnone : ¬line + 1 ≤ place := by omega
      rw [if_neg hplace, hsame, ← h.regionAt, regionAt_eq h.ascending]
      simp [hnone]
  · intro entry hentry
    rw [hsingle] at hentry
    obtain ⟨x, hx, hentry⟩ := h.singleLines entry hentry
    exact ⟨x, List.mem_append_left _ hx, hentry⟩

/-- One more directive, on the line of the last one or behind it. -/
theorem add (h : Collects s directives) {line : Nat} (hle : ∀ x ∈ directives, x.1 ≤ line)
    (directive : Directive) : Collects (s.add line directive) (directives ++ [(line, directive)]) := by
  obtain ⟨action, rules⟩ := directive
  cases action with
  | disableLine target => exact h.addSingleLine line target rules
  | disable => exact h.addRegion hle _
  | enable => exact h.addRegion hle _

/-- Directives in the order of their lines are collected. -/
theorem foldl_add (h : directives.Pairwise fun a b => a.1 ≤ b.1) :
    Collects (directives.foldl (fun s (line, directive) => s.add line directive) {}) directives := by
  induction directives using List.reverseRecOn with
  | nil => exact .nil
  | append_singleton directives last ih =>
      obtain ⟨hfront, -, hlast⟩ := List.pairwise_append.1 h
      rw [List.foldl_append]
      exact (ih hfront).add (fun x hx => hlast x hx last List.mem_cons_self) last.2

end Collects

/-! ### The order of directives -/

/-- Occurrences come from left to right. -/
theorem pairwise_occurrencesFrom (piece : List Char) (offset skip : Nat) (cs : List Char) :
    (occurrencesFrom piece offset skip cs).Pairwise (· < ·) ∧
      ∀ o ∈ occurrencesFrom piece offset skip cs, offset ≤ o := by
  fun_induction occurrencesFrom piece offset skip cs with
  | case1 offset skip hempty => exact ⟨List.pairwise_singleton _ _, by simp⟩
  | case2 => exact ⟨.nil, by simp⟩
  | case3 offset skip c cs hskip ih =>
    exact ⟨ih.1, fun o ho => Nat.le_trans (Nat.le_add_right _ _) (ih.2 o ho)⟩
  | case4 offset skip c cs hskip hfound ih =>
    have hpos := c.utf8Size_pos
    refine ⟨List.pairwise_cons.2 ⟨fun o ho => ?_, ih.1⟩, fun o ho => ?_⟩
    · have := ih.2 o ho
      omega
    · rcases List.mem_cons.1 ho with rfl | ho
      · exact Nat.le_refl _
      · exact Nat.le_trans (Nat.le_add_right _ _) (ih.2 o ho)
  | case5 offset skip c cs hskip hfound ih =>
    exact ⟨ih.1, fun o ho => Nat.le_trans (Nat.le_add_right _ _) (ih.2 o ho)⟩

/-- The directives of a comment come from left to right. -/
theorem pairwise_ofComment (comment : String) :
    (Directive.ofComment comment).Pairwise fun a b => a.1 < b.1 := by
  rw [Directive.ofComment, List.pairwise_filterMap]
  refine (pairwise_occurrencesFrom _ _ _ _).1.imp ?_
  intro o o' hlt found hfound found' hfound'
  obtain ⟨directive, -, rfl⟩ := Option.map_eq_some_iff.1 hfound
  obtain ⟨directive', -, rfl⟩ := Option.map_eq_some_iff.1 hfound'
  exact hlt

/-- A directive of a comment stands within its token. -/
theorem offset_le_of_text? {token : Token} {source comment : String}
    (h : token.text? source = some comment) {found : Nat × Directive}
    (hfound : found ∈ Directive.ofComment comment) : found.1 ≤ token.span.length := by
  have hle := Shading.le_of_mem_ofComment hfound
  rw [Token.text?, Span.slice?_eq] at h
  obtain ⟨piece, hpiece, rfl⟩ := Option.map_eq_some_iff.1 h
  obtain ⟨-, -, -, -, hlength⟩ := Span.chars?_eq_some_iff.1 hpiece
  rwa [String.toList_ofList, hlength] at hle

/-- The directives of tokens in order come in the order of their lines. -/
theorem pairwise_directives {source : String} {tokens : TokenStream} {sourceLength : Nat}
    (h : checkTokens sourceLength 0 0 tokens.toList = .ok ()) :
    (directives source tokens (.ofString source)).Pairwise fun a b => a.1 ≤ b.1 := by
  rw [directives, List.pairwise_flatMap]
  constructor
  · intro token _
    split
    · rw [List.pairwise_map]
      refine (pairwise_ofComment _).imp fun hlt => LineIndex.lineOf_mono source ?_
      omega
    · exact .nil
  · refine ((checkTokens_eq_ok_iff.1 h).2.filter _).imp ?_
    intro token token' hstop x hx y hy
    split at hx
    · split at hy
      · rename_i comment htext _ comment' htext'
        obtain ⟨found, hfound, rfl⟩ := List.mem_map.1 hx
        obtain ⟨found', hfound', rfl⟩ := List.mem_map.1 hy
        have hwithin := offset_le_of_text? htext hfound
        simp only [Span.stop] at hstop
        exact LineIndex.lineOf_mono source (by omega)
      · cases hy
    · cases hx

/-- On a line that no directive singles out, a rule is off exactly when of all directives on the lines
before that are about regions and concern the rule the last one turns it off. -/
theorem isDisabled_iff_last_word {source : String} {tokens : TokenStream} {sourceLength : Nat}
    (htokens : checkTokens sourceLength 0 0 tokens.toList = .ok ()) (rule : String) (line : Nat)
    (hline : ∀ x ∈ directives source tokens (.ofString source), ∀ target,
      x.2.action = .disableLine target → target.line? x.1 ≠ some line) :
    (ofTokens source tokens (.ofString source)).isDisabled rule line = true ↔
      ∃ last, ((directives source tokens (.ofString source)).filter fun x =>
        x.1 < line && x.2.governs rule).getLast? = some last ∧ last.2.action = .disable := by
  have hcollects : Collects (ofTokens source tokens (.ofString source)) _ :=
    .foldl_add (pairwise_directives htokens)
  have hsingle : (ofTokens source tokens (.ofString source)).isLineDisabled rule line = false := by
    rw [isLineDisabled, List.any_eq_false]
    intro entry hentry
    obtain ⟨x, hx, target, haction, htarget⟩ := hcollects.singleLines entry hentry
    have hne : entry.1 ≠ line := fun h => hline x hx target haction (h ▸ htarget)
    simp [hne]
  rw [isDisabled, hsingle, Bool.false_or, hcollects.regionAt, stateBefore,
    RegionState.isDisabled_foldl_apply, List.filter_map, List.getLast?_map, Option.any_map,
    List.filter_filter, Option.any_eq_true]
  simp only [Function.comp_def, beq_iff_eq, Bool.and_comm]

/-- Two directives on one line: all rules are off from the next line on, save one. -/
theorem isDisabled_iff_last_word_exception :
    let source := "/* sift:disable */ /* sift:enable todo */\nf()"
    let tokens := TokenStream.ofList
      [⟨.comment, ⟨0, 18⟩⟩, ⟨.comment, ⟨19, 22⟩⟩, ⟨.identifier, ⟨42, 1⟩⟩]
    let suppression := ofTokens source tokens (.ofString source)
    checkTokens 45 0 0 tokens.toList = .ok () ∧ suppression.isDisabled "line-length" 2 = true ∧
      suppression.isDisabled "todo" 2 = false ∧ suppression.isDisabled "line-length" 1 = false := by
  intro source tokens suppression
  have htokens : checkTokens 45 0 0 tokens.toList = .ok () := by decide +kernel
  have hdirectives : directives source tokens (.ofString source) =
      [(1, ⟨.disable, []⟩), (1, ⟨.enable, ["todo"]⟩)] := by decide +kernel
  have hword := fun rule line => @isDisabled_iff_last_word source tokens 45 htokens rule line
    (by simp [hdirectives])
  simp only [hdirectives] at hword
  refine ⟨htokens, (hword _ _).2 ⟨(1, ⟨.disable, []⟩), by decide⟩, ?_, ?_⟩
  · rw [Bool.eq_false_iff, ne_eq, hword]
    decide +kernel
  · rw [Bool.eq_false_iff, ne_eq, hword]
    decide +kernel

end Suppression

end SourceLint
