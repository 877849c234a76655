import SourceLint.Proofs.Rules.Reports

/-!
# Rules do not get in each other's way

A linter runs its rules in turn on each node and then leaves out what directives turn off. When no two of
its rules have a name in common, and each rule reports under its own name only, what it reports under one
name is what a linter with only this rule reports: the walk, the order of the rules and the directives all
leave the violations of one rule among themselves.
-/

namespace SourceLint

theorem filter_eq_nil_of_forall_ne {name : String} {violations : List Violation}
    (h : ∀ v ∈ violations, v.rule ≠ name) : violations.filter (fun v => v.rule == name) = [] := by
  rw [List.filter_eq_nil_iff]
  exact fun v hv hsame => h v hv (eq_of_beq hsame)

/-- Of the reports of some rules with names of their own, those under one name come from one rule. -/
theorem filter_flatMap_reports {rules : List Rule} {rule : Rule} {reports : Rule → List Violation}
    (hdistinct : (rules.map Rule.identifier).Nodup)
    (hsigned : ∀ r ∈ rules, ∀ v ∈ reports r, v.rule = r.identifier) (hrule : rule ∈ rules) :
    (rules.flatMap reports).filter (fun v => v.rule == rule.identifier) = reports rule := by
  induction rules with
  | nil => cases hrule
  | cons first rules ih =>
      rw [List.map_cons, List.nodup_cons] at hdistinct
      obtain ⟨hfirst, hdistinct⟩ := hdistinct
      obtain ⟨hsignedFirst, hsignedRest⟩ := List.forall_mem_cons.1 hsigned
      rw [List.flatMap_cons, List.filter_append]
      rcases List.mem_cons.1 hrule with rfl | hrule
      · have hown : (reports rule).filter (fun v => v.rule == rule.identifier) = reports rule := by
          rw [List.filter_eq_self]
          intro v hv
          rw [hsignedFirst v hv, BEq.rfl]
        have hothers : (rules.flatMap reports).filter (fun v => v.rule == rule.identifier) = [] := by
          refine filter_eq_nil_of_forall_ne fun v hv hsame => hfirst ?_
          obtain ⟨other, hother, hv⟩ := List.mem_flatMap.1 hv
          have hname : other.identifier = rule.identifier := (hsignedRest other hother v hv).symm.trans hsame
          exact hname ▸ List.mem_map_of_mem hother
        rw [hown, hothers, List.append_nil]
      · have hfront : (reports first).filter (fun v => v.rule == rule.identifier) = [] := by
          refine filter_eq_nil_of_forall_ne fun v hv hsame => hfirst ?_
          have hname : rule.identifier = first.identifier := hsame.symm.trans (hsignedFirst v hv)
          exact hname ▸ List.mem_map_of_mem hrule
        rw [hfront, List.nil_append, ih hdistinct hsignedRest hrule]

namespace Linter

variable {linter : Linter} {rule : Rule}

/-- Directives leave out the same violations of a rule, whether others are reported or not. -/
theorem filter_withoutSuppressed (context : Context) (p : Violation → Bool)
    (violations : List Violation) :
    (withoutSuppressed context violations).filter p =
      withoutSuppressed context (violations.filter p) := by
  simp only [withoutSuppressed_eq, List.filter_filter, Bool.and_comm]

/-- What a linter reports under the name of one of its rules on a text that has been read. -/
theorem filter_lintSnapshot (hdistinct : (linter.rules.map Rule.identifier).Nodup)
    (hsigned : ∀ r ∈ linter.rules, r.SignsReports) (hrule : rule ∈ linter.rules) (source : String)
    (snapshot : Snapshot) :
    (linter.lintSnapshot source snapshot).filter (fun v => v.rule == rule.identifier) =
      withoutSuppressed (linter.context source snapshot)
        (rule.fileViolations (linter.context source snapshot) ++
          (Node.preOrder snapshot.forest).flatMap (rule.visit (linter.context source snapshot))) := by
  have hfile := filter_flatMap_reports hdistinct
    (fun r hr => (hsigned r hr).file (linter.context source snapshot)) hrule
  have hnode : ∀ node, (linter.rules.flatMap fun r => r.visit (linter.context source snapshot) node).filter
      (fun v => v.rule == rule.identifier) = rule.visit (linter.context source snapshot) node :=
    fun node => filter_flatMap_reports hdistinct
      (fun r hr => (hsigned r hr).visit (linter.context source snapshot) node) hrule
  rw [lintSnapshot_eq_visits, filter_withoutSuppressed, List.filter_append, hfile,
    List.filter_flatMap]
  simp only [hnode]

/-- Of what a linter reports on a source text, the violations under the name of a rule are those that a
linter with only this rule reports, in the same order. So they are the same for all linters that run the
rule, whatever other rules these run and in whatever order. -/
theorem filter_lint_eq_lint_alone (hdistinct : (linter.rules.map Rule.identifier).Nodup)
    (hsigned : ∀ r ∈ linter.rules, r.SignsReports) (hrule : rule ∈ linter.rules) (source : String) :
    (linter.lint source).map (List.filter fun v => v.rule == rule.identifier) =
        lint { linter with rules := [rule] } source ∧
      ∀ others : List Rule, (others.map Rule.identifier).Nodup → (∀ r ∈ others, r.SignsReports) →
        rule ∈ others →
        (lint { linter with rules := others } source).map
            (List.filter fun v => v.rule == rule.identifier) =
          (linter.lint source).map (List.filter fun v => v.rule == rule.identifier) := by
  have halone : ∀ others : List Rule, (others.map Rule.identifier).Nodup →
      (∀ r ∈ others, r.SignsReports) → rule ∈ others →
      (lint { linter with rules := others } source).map
          (List.filter fun v => v.rule == rule.identifier) =
        lint { linter with rules := [rule] } source := by
    intro others hdistinct hsigned hrule
    rw [lint, lint, exceptMap_map]
    refine congrArg (fun report => (linter.provider source).map report) (funext fun snapshot => ?_)
    have hothers := @filter_lintSnapshot { linter with rules := others } rule hdistinct hsigned hrule
      source snapshot
    rw [hothers, lintSnapshot_eq_visits]
    simp only [List.flatMap_singleton]
    rfl
  have hlinter := halone linter.rules hdistinct hsigned hrule
  exact ⟨hlinter, fun others hdistinct hsigned hrule =>
    (halone others hdistinct hsigned hrule).trans hlinter.symm⟩

/-- Of the standard rules, the one on commas, which a directive turns off on the last line. -/
theorem filter_lint_eq_lint_alone_commas :
    ∃ linter rule violations, ofConfig {} = .ok linter ∧ linter.rules[4]? = some rule ∧
      linter.lint "f(1 ,2);\n// sift:disable:next comma-spacing\nf(1 ,2); // TODO" = .ok violations ∧
      violations.map (fun v => (v.rule, v.offset)) =
        [("trailing-semicolon", 7), ("comma-spacing", 3), ("todo", 56)] ∧
      lint { linter with rules := [rule] }
        "f(1 ,2);\n// sift:disable:next comma-spacing\nf(1 ,2); // TODO" =
          .ok (violations.filter fun v => v.rule == rule.identifier) := by
  have hrun : ((ofConfig {}).toOption.any fun linter => linter.rules[4]?.isSome &&
      (linter.lint "f(1 ,2);\n// sift:disable:next comma-spacing\nf(1 ,2); // TODO").toOption.any
        fun violations => violations.map (fun v => (v.rule, v.offset)) ==
          [("trailing-semicolon", 7), ("comma-spacing", 3), ("todo", 56)]) = true := by
    decide +kernel
  obtain ⟨linter, hlinter, hrun⟩ := exists_of_toOption_any hrun
  rw [Bool.and_eq_true] at hrun
  obtain ⟨rule, hrule⟩ := Option.isSome_iff_exists.1 hrun.1
  obtain ⟨violations, hviolations, hplaces⟩ := exists_of_toOption_any hrun.2
  obtain ⟨hdistinct, hsigned⟩ := signs_of_ofConfig hlinter
  have halone := (filter_lint_eq_lint_alone hdistinct hsigned (List.mem_of_getElem? hrule)
    "f(1 ,2);\n// sift:disable:next comma-spacing\nf(1 ,2); // TODO").1
  rw [hviolations] at halone
  exact ⟨linter, rule, violations, hlinter, hrule, hviolations, eq_of_beq hplaces, halone.symm⟩

end Linter

end SourceLint
