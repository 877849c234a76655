import Mathlib.Data.List.FinRange
import SourceLint.Linter
import SourceLint.Proofs.Syntax.Traversal

/-!
# What a linter runs

The rules of a linter are sorted once by what they look at, and the walk looks up the rules for the kind of
each node. This comes to running every rule on the file, and then every rule on every node in the order of
the walk, once for each time the rule lists the kind of the node. A rule on its own is run once on each node
of its kinds, so the two ways of running it agree when it lists no kind twice, and only then.
-/

namespace SourceLint

/-! ### Tables -/

namespace KindTable

variable {α : Type}

theorem entries_cons (k kind : NodeKind) (row : List α) (table : KindTable α) :
    entries ((k, row) :: table) kind = if k = kind then row else table.entries kind := by
  by_cases h : k = kind
  · simp [entries, h]
  · simp [entries, h, List.lookup_cons, beq_false_of_ne (Ne.symm h)]

theorem entries_push (table : KindTable α) (pushed kind : NodeKind) (entry : α) :
    (table.push pushed entry).entries kind =
      table.entries kind ++ if pushed = kind then [entry] else [] := by
  induction table with
  | nil => rw [push, entries_cons]; rfl
  | cons row table ih =>
      obtain ⟨k, row⟩ := row
      rw [push, entries_cons]
      by_cases h : k = pushed
      · rw [if_pos h, entries_cons, h]
        split
        · rfl
        · simp
      · rw [if_neg h, entries_cons, ih]
        split
        · rename_i hk
          simp [← hk, Ne.symm h]
        · rfl

/-- An entry that is put under each kind of a list is there as often as the list has the kind. -/
theorem entries_foldl_push (kinds : List NodeKind) (table : KindTable α) (kind : NodeKind) (entry : α) :
    (kinds.foldl (fun table kind => table.push kind entry) table).entries kind =
      table.entries kind ++ List.replicate (kinds.count kind) entry := by
  induction kinds generalizing table with
  | nil => simp
  | cons first kinds ih =>
      rw [List.foldl_cons, ih, entries_push, List.append_assoc, List.count_cons]
      by_cases h : first = kind
      · simp [h, List.replicate_succ]
      · simp [h]

end KindTable

/-! ### Rules -/

namespace Rule

/-- The kinds of the constructs that the rule looks at. -/
def kinds (rule : Rule) : List NodeKind :=
  match rule.check with
  | .file _ => []
  | .nodes kinds _ => kinds

/-- What the rule reports on a node of the walk: what it reports on the construct, once for each time the
rule lists the kind of the node. -/
def visit (rule : Rule) (context : Context) (node : Node) : List Violation :=
  (List.replicate (rule.kinds.count node.kind) (rule.nodeViolations context node)).flatten

theorem mem_nodeViolations_of_mem_visit {rule : Rule} {context : Context} {node : Node} {v : Violation}
    (h : v ∈ rule.visit context node) : v ∈ rule.nodeViolations context node := by
  rw [visit, List.mem_flatten] at h
  obtain ⟨reported, hreported, hv⟩ := h
  exact List.eq_of_mem_replicate hreported ▸ hv

end Rule

/-! ### Dispatch -/

namespace Dispatch

variable {rules : List Rule}

theorem runFile_add (dispatch : Dispatch rules) (index : Fin rules.length) (context : Context) :
    (dispatch.add index).runFile context =
      dispatch.runFile context ++ (rules.get index).fileViolations context := by
  cases hcheck : (rules.get index).check with
  | file run => simp only [add, hcheck, runFile, List.flatMap_append, List.flatMap_singleton]
  | nodes kinds run => simp only [add, hcheck, runFile, Rule.fileViolations, List.append_nil]

theorem runNode_add (dispatch : Dispatch rules) (index : Fin rules.length) (context : Context)
    (node : Node) :
    (dispatch.add index).runNode context node =
      dispatch.runNode context node ++ (rules.get index).visit context node := by
  cases hcheck : (rules.get index).check with
  | file run =>
      simp only [add, hcheck, runNode, Rule.visit, Rule.kinds, List.count_nil, List.replicate_zero,
        List.flatten_nil, List.append_nil]
  | nodes kinds run =>
      simp only [add, hcheck, runNode, KindTable.entries_foldl_push, List.flatMap_append, Rule.visit,
        Rule.kinds, List.flatMap_replicate]

/-- When every rule that is sorted in adds its report, the dispatch of some rules gives their reports one
after the other. -/
theorem ofRules_eq_flatMap (run : Dispatch rules → List Violation) (report : Rule → List Violation)
    (hempty : run {} = [])
    (hadd : ∀ (dispatch : Dispatch rules) index,
      run (dispatch.add index) = run dispatch ++ report (rules.get index)) :
    run (ofRules rules) = rules.flatMap report := by
  have hfoldl : ∀ (indices : List (Fin rules.length)) (dispatch : Dispatch rules),
      run (indices.foldl add dispatch) =
        run dispatch ++ indices.flatMap fun index => report (rules.get index) := by
    intro indices
    induction indices with
    | nil => simp
    | cons index indices ih =>
        intro dispatch
        rw [List.foldl_cons, ih, hadd, List.append_assoc, List.flatMap_cons]
  calc
    run (ofRules rules) = (List.finRange rules.length).flatMap fun index => report (rules.get index) := by
      rw [ofRules, hfoldl, hempty, List.nil_append]
    _ = ((List.finRange rules.length).map rules.get).flatMap report := by rw [List.flatMap_map]
    _ = rules.flatMap report := by rw [List.map_get_finRange]

theorem runFile_ofRules (rules : List Rule) (context : Context) :
    (ofRules rules).runFile context = rules.flatMap fun rule => rule.fileViolations context :=
  ofRules_eq_flatMap (fun dispatch => dispatch.runFile context) (fun rule => rule.fileViolations context)
    rfl fun dispatch index => dispatch.runFile_add index context

theorem runNode_ofRules (rules : List Rule) (context : Context) (node : Node) :
    (ofRules rules).runNode context node = rules.flatMap fun rule => rule.visit context node :=
  ofRules_eq_flatMap (fun dispatch => dispatch.runNode context node) (fun rule => rule.visit context node)
    rfl fun dispatch index => dispatch.runNode_add index context node

end Dispatch

/-! ### Directives -/

/-- Without directives no rule is off anywhere. -/
theorem Suppression.isDisabled_of_isEmpty {s : Suppression} (h : s.isEmpty = true) (rule : String)
    (line : Nat) : s.isDisabled rule line = false := by
  rw [isEmpty, Bool.and_eq_true, Array.isEmpty_iff, List.isEmpty_iff] at h
  obtain ⟨hregions, hlines⟩ := h
  have hpoint : partitionPoint s.regions (fun region => decide (region.1 ≤ line)) = 0 := by
    rw [hregions]
    exact partitionPoint_eq ⟨Nat.le_refl _, by simp, by simp⟩
  rw [isDisabled, isLineDisabled, hlines, regionAt, hpoint]
  rfl

namespace Linter

/-- What directives turn off is left out, and nothing else. -/
theorem withoutSuppressed_eq (context : Context) (violations : List Violation) :
    withoutSuppressed context violations = violations.filter fun v =>
      !(Suppression.ofTokens context.source context.snapshot.tokens context.lines).isDisabled v.rule
        (context.lines.lineOf v.offset) := by
  rw [withoutSuppressed]
  split
  · rename_i hempty
    symm
    rw [List.filter_eq_self]
    intro v _
    rw [Suppression.isDisabled_of_isEmpty hempty]
    rfl
  · rfl

/-! ### Linting -/

/-- What a linter reports on the file and on the nodes of the walk, as far as directives leave it. -/
theorem lintSnapshot_eq_visits (linter : Linter) (source : String) (snapshot : Snapshot) :
    linter.lintSnapshot source snapshot =
      withoutSuppressed (linter.context source snapshot)
        ((linter.rules.flatMap fun rule => rule.fileViolations (linter.context source snapshot)) ++
          (Node.preOrder snapshot.forest).flatMap fun node =>
            linter.rules.flatMap fun rule => rule.visit (linter.context source snapshot) node) := by
  have hnodes : (Dispatch.ofRules linter.rules).runNode (linter.context source snapshot) = fun node =>
      linter.rules.flatMap fun rule => rule.visit (linter.context source snapshot) node :=
    funext fun node => Dispatch.runNode_ofRules linter.rules _ node
  rw [lintSnapshot, Dispatch.runFile_ofRules, hnodes]

/-- A linter reports what its rules report on the file, in the order of the rules, and then for each node of
the forest, in the order of the listing, what they report on the node, once for each time a rule lists the
kind of the node. Left out is what directives turn off on the line of its offset, and nothing else. -/
theorem lintSnapshot_eq_filter (linter : Linter) (source : String) (snapshot : Snapshot) :
    linter.lintSnapshot source snapshot =
      ((linter.rules.flatMap fun rule => rule.fileViolations (linter.context source snapshot)) ++
        (Node.listingAll snapshot.forest).flatMap fun node => linter.rules.flatMap fun rule =>
          (List.replicate (rule.kinds.count node.kind)
            (rule.nodeViolations (linter.context source snapshot) node)).flatten).filter
        fun v => !(Suppression.ofTokens source snapshot.tokens (.ofString source)).isDisabled v.rule
          ((LineIndex.ofString source).lineOf v.offset) := by
  rw [lintSnapshot_eq_visits, withoutSuppressed_eq, Node.preOrder_eq_listingAll]
  rfl

end Linter

/-! ### One rule -/

namespace Rule

/-- A rule on its own is run on the file, or once on each node of its kinds. -/
theorem validate_eq (rule : Rule) (context : Context) :
    rule.validate context =
      rule.fileViolations context ++ (Node.preOrder context.snapshot.forest).flatMap fun node =>
        if node.kind ∈ rule.kinds then rule.nodeViolations context node else [] := by
  rw [validate, fileViolations]
  cases hcheck : rule.check with
  | file run => simp [kinds, hcheck]
  | nodes kinds run =>
      simp only [Rule.kinds, nodeViolations, hcheck, List.nil_append]
      induction Node.preOrder context.snapshot.forest with
      | nil => rfl
      | cons node nodes ih =>
          rw [List.flatMap_cons, ← ih]
          by_cases h : node.kind ∈ kinds
          · simp [h]
          · simp [h]

theorem visit_eq_of_nodup {rule : Rule} (h : rule.kinds.Nodup) (context : Context) (node : Node) :
    rule.visit context node =
      if node.kind ∈ rule.kinds then rule.nodeViolations context node else [] := by
  rw [visit, h.count]
  split
  · simp
  · rfl

/-- A rule that reports one violation on each construct of some kinds. -/
def alarm (kinds : List NodeKind) : Rule where
  description := { identifier := "alarm", name := "Alarm", explanation := "", category := .lint }
  check := .nodes kinds fun _ node => [⟨"alarm", .warning, node.span.location, "", none⟩]

theorem length_visit_alarm (kinds : List NodeKind) (context : Context) (node : Node) :
    ((alarm kinds).visit context node).length = kinds.count node.kind := by
  simp [visit, alarm, Rule.kinds, nodeViolations]

theorem length_nodeViolations_alarm (kinds : List NodeKind) (context : Context) (node : Node) :
    ((alarm kinds).nodeViolations context node).length = 1 := rfl

end Rule

namespace Linter

/-- Without directives a linter of one rule leaves nothing out. -/
theorem lintSnapshot_singleton {linter : Linter} {rule : Rule} (hrules : linter.rules = [rule])
    {source : String} {snapshot : Snapshot}
    (hdirectives : Suppression.directives source snapshot.tokens (.ofString source) = []) :
    linter.lintSnapshot source snapshot =
      rule.fileViolations (linter.context source snapshot) ++
        (Node.preOrder snapshot.forest).flatMap (rule.visit (linter.context source snapshot)) := by
  have hon : ∀ rule line, (Suppression.ofTokens source snapshot.tokens (.ofString source)).isDisabled rule
      line = false := by
    intro rule line
    rw [Suppression.ofTokens, hdirectives]
    exact Suppression.isDisabled_of_isEmpty rfl rule line
  have hkept : ∀ violations, withoutSuppressed (linter.context source snapshot) violations = violations := by
    intro violations
    rw [withoutSuppressed_eq, List.filter_eq_self]
    intro v _
    exact congrArg not (hon v.rule _)
  rw [lintSnapshot_eq_visits, hkept, hrules]
  simp only [List.flatMap_singleton]

/-- A linter of one rule reports what the rule reports on its own, whatever it reports on a construct and
whatever the source text without directives is, just when the rule lists no kind twice. -/
theorem lintSnapshot_eq_validate_iff {kinds : List NodeKind} :
    (∀ (linter : Linter) (rule : Rule), linter.rules = [rule] → rule.kinds = kinds →
      ∀ source snapshot, Suppression.directives source snapshot.tokens (.ofString source) = [] →
        linter.lintSnapshot source snapshot = rule.validate (linter.context source snapshot)) ↔
      kinds.Nodup := by
  constructor
  · intro hagree
    rw [List.nodup_iff_count_le_one]
    intro kind
    -- on a text with a single node of the kind, the linter runs the rule as often as it lists the kind
    have h := hagree ⟨[.alarm kinds], Snapshot.ofSource, .standard⟩ (.alarm kinds) rfl rfl ""
      ⟨[{ kind := kind, span := ⟨0, 0⟩ }], ⟨#[]⟩⟩ rfl
    rw [lintSnapshot_singleton rfl rfl, Rule.validate_eq] at h
    have hlength := congrArg List.length h
    simp only [context, Node.preOrder_eq_listingAll, Node.listingAll_cons, Node.listingAll_nil,
      Node.listing_eq, List.append_nil, List.length_append, List.flatMap_singleton,
      Rule.length_visit_alarm, Nat.add_left_cancel_iff] at hlength
    rw [hlength]
    split
    · exact Nat.le_of_eq (Rule.length_nodeViolations_alarm kinds _ _)
    · exact Nat.zero_le 1
  · rintro hnodup linter rule hrules rfl source snapshot hdirectives
    have hvisit : rule.visit (linter.context source snapshot) = fun node =>
        if node.kind ∈ rule.kinds then rule.nodeViolations (linter.context source snapshot) node else [] :=
      funext (Rule.visit_eq_of_nodup hnodup _)
    rw [lintSnapshot_singleton hrules hdirectives, rule.validate_eq, hvisit]
    rfl

end Linter

end SourceLint
