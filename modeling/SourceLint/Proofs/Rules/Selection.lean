import Mathlib.Data.List.Basic
import SourceLint.Rules.Standard

/-!
# The laws of selection

When a rule runs under some options is said by conditions on the three lists and on the version of the
language, each of which a longer list or a newer version can change in one direction only. So entries that
are added to a list never switch rules in the other direction, and their order and number do not matter.
-/

namespace SourceLint

/-- Versions are compared by their major parts first. -/
theorem LanguageVersion.isAtMost_iff {v w : LanguageVersion} :
    v.isAtMost w = true ↔
      v.major.toNat < w.major.toNat ∨
        v.major.toNat = w.major.toNat ∧ v.minor.toNat ≤ w.minor.toNat := by
  rw [isAtMost, order, Ordering.isLE_then_iff_or, Nat.compare_eq_lt, Nat.compare_eq_eq, Nat.isLE_compare]

theorem LanguageVersion.isAtMost_trans {u v w : LanguageVersion} (huv : u.isAtMost v = true)
    (hvw : v.isAtMost w = true) : u.isAtMost w = true := by
  rw [isAtMost_iff] at huv hvw ⊢
  omega

namespace GlobalOptions

/-- The rule runs under the options, in a given version of the language. -/
structure Runs (options : GlobalOptions) (version : LanguageVersion) (rule : Rule) : Prop where
  /-- When no rules are named alone, a rule that is opt-in is enabled. -/
  enabled : options.only = [] → rule.description.isOptIn = true →
    "all" ∈ options.enable ∨ rule.identifier ∈ options.enable
  /-- When some rules are named alone, the rule is one of them. -/
  named : options.only ≠ [] → rule.identifier ∈ options.only
  kept : rule.identifier ∉ options.disable
  /-- When all rules are disabled, the rule is named. -/
  spared : "all" ∈ options.disable →
    rule.identifier ∈ options.enable ∨ rule.identifier ∈ options.only
  supported : ∀ minimum ∈ rule.description.minimumVersion, minimum.isAtMost version = true

variable {options other : GlobalOptions} {version newer : LanguageVersion} {rule : Rule}

theorem wants_iff :
    options.wants rule.description = true ↔
      (options.only = [] → rule.description.isOptIn = true →
        "all" ∈ options.enable ∨ rule.identifier ∈ options.enable) ∧
      (options.only ≠ [] → rule.identifier ∈ options.only) := by
  by_cases honly : options.only = []
  · simp only [wants, honly, List.isEmpty_nil, if_true, Bool.or_eq_true, Bool.not_eq_true',
      List.contains_iff_mem, Rule.identifier]
    cases rule.description.isOptIn <;> simp
  · simp [wants, honly, Rule.identifier]

theorem removes_eq_false_iff :
    options.removes rule.identifier = false ↔
      rule.identifier ∉ options.disable ∧
      ("all" ∈ options.disable →
        rule.identifier ∈ options.enable ∨ rule.identifier ∈ options.only) := by
  simp only [removes, names, Bool.or_eq_false_iff, Bool.and_eq_false_imp, Bool.not_eq_false',
    List.contains_iff_mem, Bool.or_eq_true]
  simp

theorem selects_iff : options.selects version rule = true ↔ options.Runs version rule := by
  simp only [selects, Bool.and_eq_true, Bool.not_eq_true', wants_iff, removes_eq_false_iff,
    Option.all_eq_true]
  constructor
  · rintro ⟨⟨⟨henabled, hnamed⟩, hkept, hspared⟩, hsupported⟩
    exact ⟨henabled, hnamed, hkept, hspared, hsupported⟩
  · rintro ⟨henabled, hnamed, hkept, hspared, hsupported⟩
    exact ⟨⟨⟨henabled, hnamed⟩, hkept, hspared⟩, hsupported⟩

theorem mem_select_iff {rules : List Rule} :
    rule ∈ options.select version rules ↔ rule ∈ rules ∧ options.Runs version rule := by
  rw [select, List.mem_filter, selects_iff]

/-! ### Longer lists and newer versions -/

theorem Runs.enable {enable : List String} (h : options.Runs version rule)
    (hsub : options.enable ⊆ enable) : { options with enable := enable }.Runs version rule where
  enabled honly hoptIn := (h.enabled honly hoptIn).imp (@hsub _) (@hsub _)
  named := h.named
  kept := h.kept
  spared hall := (h.spared hall).imp_left (@hsub _)
  supported := h.supported

theorem Runs.of_disable {disable : List String}
    (h : { options with disable := disable }.Runs version rule) (hsub : options.disable ⊆ disable) :
    options.Runs version rule where
  enabled := h.enabled
  named := h.named
  kept hmem := h.kept (hsub hmem)
  spared hall := h.spared (hsub hall)
  supported := h.supported

theorem Runs.newerVersion (h : options.Runs version rule) (hle : version.isAtMost newer = true) :
    options.Runs newer rule where
  enabled := h.enabled
  named := h.named
  kept := h.kept
  spared := h.spared
  supported minimum hminimum := LanguageVersion.isAtMost_trans (h.supported minimum hminimum) hle

/-- This needs a rule that is named alone at first: the first name in the list turns the other rules off. -/
theorem Runs.only {only : List String} (h : options.Runs version rule) (hsome : options.only ≠ [])
    (hsub : options.only ⊆ only) : { options with only := only }.Runs version rule where
  enabled honly := by
    obtain rfl : only = [] := honly
    exact absurd (List.subset_nil.1 hsub) hsome
  named _ := hsub (h.named hsome)
  kept := h.kept
  spared hall := (h.spared hall).imp_right (@hsub _)
  supported := h.supported

/-- The three lists that decide which rules run have the same entries, in any order and number. -/
structure SameNames (options other : GlobalOptions) : Prop where
  enable : ∀ name, name ∈ options.enable ↔ name ∈ other.enable
  disable : ∀ name, name ∈ options.disable ↔ name ∈ other.disable
  only : ∀ name, name ∈ options.only ↔ name ∈ other.only

theorem SameNames.symm (h : options.SameNames other) : other.SameNames options where
  enable name := (h.enable name).symm
  disable name := (h.disable name).symm
  only name := (h.only name).symm

theorem SameNames.runs (h : options.SameNames other) (hruns : options.Runs version rule) :
    other.Runs version rule where
  enabled honly hoptIn := by
    have hempty : options.only = [] := by
      simpa only [List.eq_nil_iff_forall_not_mem, h.only] using honly
    simpa only [h.enable] using hruns.enabled hempty hoptIn
  named honly := by
    have hsome : options.only ≠ [] := by
      simpa only [ne_eq, List.eq_nil_iff_forall_not_mem, h.only] using honly
    exact (h.only _).1 (hruns.named hsome)
  kept hmem := hruns.kept ((h.disable _).2 hmem)
  spared hall := (hruns.spared ((h.disable _).2 hall)).imp (h.enable _).1 (h.only _).1
  supported := hruns.supported

/-! ### Selecting from a list of rules -/

/-- Where more rules run, the others stay between them in their order. -/
theorem select_sublist_select (rules : List Rule)
    (h : ∀ rule, options.Runs version rule → other.Runs newer rule) :
    (options.select version rules).Sublist (other.select newer rules) :=
  List.monotone_filter_right rules fun rule hselects => selects_iff.2 (h rule (selects_iff.1 hselects))

/-- Rules are selected in their order, and selecting again changes nothing. More entries under `enable`, a
newer version, and more entries under `only` when there are some keep all rules that run; more entries under
`disable` add none. Only rules that `only` names run when it names some. The order and the number of entries
do not matter. -/
theorem select_laws (options : GlobalOptions) (version : LanguageVersion) (rules : List Rule) :
    (∀ rule, rule ∈ options.select version rules ↔ rule ∈ rules ∧ options.Runs version rule) ∧
    (options.select version rules).Sublist rules ∧
    options.select version (options.select version rules) = options.select version rules ∧
    (∀ enable, options.enable ⊆ enable →
      (options.select version rules).Sublist
        ({ options with enable := enable }.select version rules)) ∧
    (∀ disable, options.disable ⊆ disable →
      ({ options with disable := disable }.select version rules).Sublist
        (options.select version rules)) ∧
    (∀ newer, version.isAtMost newer = true →
      (options.select version rules).Sublist (options.select newer rules)) ∧
    (options.only ≠ [] →
      (∀ rule ∈ options.select version rules, rule.identifier ∈ options.only) ∧
      ∀ only, options.only ⊆ only →
        (options.select version rules).Sublist
          ({ options with only := only }.select version rules)) ∧
    ∀ other : GlobalOptions, options.SameNames other →
      other.select version rules = options.select version rules := by
  refine ⟨fun rule => mem_select_iff, List.filter_sublist, ?_, ?_, ?_, ?_, ?_, ?_⟩
  · simp only [select, List.filter_filter, Bool.and_self]
  · intro enable hsub
    exact select_sublist_select rules fun rule hruns => hruns.enable hsub
  · intro disable hsub
    exact select_sublist_select rules fun rule hruns => hruns.of_disable hsub
  · intro newer hle
    exact select_sublist_select rules fun rule hruns => hruns.newerVersion hle
  · intro hsome
    constructor
    · intro rule hrule
      exact (mem_select_iff.1 hrule).2.named hsome
    · intro only hsub
      exact select_sublist_select rules fun rule hruns => hruns.only hsome hsub
  · intro other hsame
    apply List.filter_congr
    intro rule _
    rw [Bool.eq_iff_iff, selects_iff, selects_iff]
    exact ⟨hsame.symm.runs, hsame.runs⟩

/-- All rules are disabled and one is named alone, which needs version 5.0: it runs from then on, beside what
else is named, and not when it is disabled by name. -/
theorem select_laws_alone :
    ∃ (options : GlobalOptions) (old : LanguageVersion) (rules : List Rule),
      options.only ≠ [] ∧ old.isAtMost .standard = true ∧
      options.SameNames { options with only := options.only ++ options.only } ∧
      (options.select old rules).map Rule.identifier = [] ∧
      (options.select .standard rules).map Rule.identifier = ["unowned-variable-capture"] ∧
      (options.select old rules).Sublist (options.select .standard rules) ∧
      (options.select .standard rules).Sublist
        ({ options with only := "todo" :: options.only }.select .standard rules) ∧
      ({ options with disable := "todo" :: options.disable }.select .standard rules).Sublist
        (options.select .standard rules) ∧
      (options.select .standard rules).Sublist
        ({ options with enable := "todo" :: options.enable }.select .standard rules) ∧
      { options with only := options.only ++ options.only }.select .standard rules =
        options.select .standard rules := by
  let options : GlobalOptions := { disable := ["all"], only := ["unowned-variable-capture"] }
  let rules := [UnownedVariableCapture.rule {}, OpenRemark.rule {}]
  have hsome : options.only ≠ [] := by decide
  have hold : LanguageVersion.isAtMost ⟨4, 2⟩ .standard = true := by decide
  have hsame : options.SameNames { options with only := options.only ++ options.only } :=
    ⟨fun _ => Iff.rfl, fun _ => Iff.rfl, fun _ => by simp⟩
  obtain ⟨-, -, -, -, -, hnewer, -, -⟩ := select_laws options ⟨4, 2⟩ rules
  obtain ⟨-, -, -, henable, hdisable, -, honly, hnames⟩ := select_laws options .standard rules
  exact ⟨options, ⟨4, 2⟩, rules, hsome, hold, hsame, by decide, by decide, hnewer _ hold,
    (honly hsome).2 _ (List.subset_cons_self _ _), hdisable _ (List.subset_cons_self _ _),
    henable _ (List.subset_cons_self _ _), hnames _ hsame⟩

end GlobalOptions

end SourceLint
