import SourceLint.Grammar.Source
import SourceLint.Proofs.Basic
import SourceLint.Proofs.Sorting
import SourceLint.Rule.Verification
import SourceLint.Text.Occurrence

/-!
# What the examples of a rule say about it

A rule fails none of its own examples exactly when each of them can be read, the rule reports the marked
offsets on it and nothing else, and the corrections of the rule turn each example of a correction into the
expected text, on which the rule reports nothing. The examples on which the rule is to report nothing are read
with their marks like all others. So the check says what such examples are there to say just as long as they
have no marks; with marks the check and the rule's being silent on them exclude each other.

## Main results

* `Rule.verify_eq_nil_iff`: when a rule fails none of its examples.
* `Rule.verify_eq_nil_iff_keepsPromises`: without marks on examples that do not trigger it, this is what the
  description of the rule promises.
* `Rule.verify_marked_found`, `Rule.verify_marked_missed`: a mark on such an example hides a violation, or
  asks for one.
-/

namespace SourceLint

namespace Rule

/-! ### What a rule does on a text -/

/-- The text can be read, and the offsets of what the rule reports on it are the given ones in ascending
order. -/
def Finds (rule : Rule) (provider : String → Except SyntaxError Snapshot) (text : String)
    (offsets : List Nat) : Prop :=
  ∃ snapshot, provider text = .ok snapshot ∧ offsets.Pairwise (· ≤ ·) ∧
    offsets.Perm ((rule.validate { source := text, snapshot := snapshot }).map Violation.offset)

/-- The text can be read, and the rule reports nothing on it. -/
def IsSilentOn (rule : Rule) (provider : String → Except SyntaxError Snapshot) (text : String) : Prop :=
  ∃ snapshot, provider text = .ok snapshot ∧
    rule.validate { source := text, snapshot := snapshot } = []

/-- The text can be read, and the corrections of what the rule reports on it turn it into another text. -/
def Corrects (rule : Rule) (provider : String → Except SyntaxError Snapshot) (text corrected : String) :
    Prop :=
  ∃ snapshot, provider text = .ok snapshot ∧
    (Corrector.apply {} text
      (rule.validateSorted { source := text, snapshot := snapshot })).content = corrected

/-- The rule reports the marked offsets of the example, its corrections give the expected text, and it has
nothing to report there. -/
structure Mends (rule : Rule) (provider : String → Except SyntaxError Snapshot) (e : CorrectionExample) :
    Prop where
  finds : rule.Finds provider e.before.text e.before.offsets
  corrects : rule.Corrects provider e.before.text e.expected
  settles : rule.IsSilentOn provider e.expected

/-- The rule does what its description promises: it is silent on the examples that do not trigger it, it
reports the marked offsets on those that do, and it mends the examples of corrections. -/
structure KeepsPromises (rule : Rule) (provider : String → Except SyntaxError Snapshot) : Prop where
  nonTriggering : ∀ e ∈ rule.description.nonTriggering, rule.IsSilentOn provider e.text
  triggering : ∀ e ∈ rule.description.triggering, rule.Finds provider e.text e.offsets
  corrections : ∀ e ∈ rule.description.corrections, rule.Mends provider e

variable {rule : Rule} {provider : String → Except SyntaxError Snapshot} {text : String}

theorem finds_nil_iff : rule.Finds provider text [] ↔ rule.IsSilentOn provider text := by
  simp [Finds, IsSilentOn]

/-- A text is read in one way, so a rule finds one list of offsets on it. -/
theorem Finds.unique {offsets offsets' : List Nat} (h : rule.Finds provider text offsets)
    (h' : rule.Finds provider text offsets') : offsets = offsets' := by
  obtain ⟨snapshot, hsnapshot, hascending, hperm⟩ := h
  obtain ⟨snapshot', hsnapshot', hascending', hperm'⟩ := h'
  obtain rfl := Except.ok.inj (hsnapshot.symm.trans hsnapshot')
  apply List.Perm.eq_of_pairwise _ hascending hascending' (hperm.trans hperm'.symm)
  intro a b _ _ hle hge
  exact Nat.le_antisymm hle hge

/-! ### What the checks say -/

theorem offsetFailures_eq_nil_iff {context : Context} {e : Example} :
    rule.offsetFailures e (rule.validateSorted context) = [] ↔ e.offsets.Pairwise (· ≤ ·) ∧
      e.offsets.Perm ((rule.validate context).map Violation.offset) := by
  simp [offsetFailures, validateSorted, map_sortBy_eq_iff]

theorem validateSorted_eq_nil_iff {context : Context} :
    rule.validateSorted context = [] ↔ rule.validate context = [] := by
  have hperm := sortBy_perm Violation.offset (rule.validate context)
  rw [validateSorted, ← List.length_eq_zero_iff, hperm.length_eq, List.length_eq_zero_iff]

theorem checkExample_eq_nil_iff {e : Example} :
    rule.checkExample provider e = [] ↔ rule.Finds provider e.text e.offsets := by
  simp only [checkExample, validateText, Finds]
  cases provider e.text with
  | error error => simp
  | ok snapshot => simp [offsetFailures_eq_nil_iff]

theorem checkCorrected_eq_nil_iff {corrected : String} :
    rule.checkCorrected provider corrected = [] ↔ rule.IsSilentOn provider corrected := by
  simp only [checkCorrected, validateText, IsSilentOn, ← validateSorted_eq_nil_iff]
  cases provider corrected with
  | error error => simp
  | ok snapshot =>
      simp only [Except.ok.injEq, exists_eq_left']
      cases rule.validateSorted { source := corrected, snapshot := snapshot } with
      | nil => simp
      | cons v violations => simp

theorem checkCorrection_eq_nil_iff {e : CorrectionExample} :
    rule.checkCorrection provider e = [] ↔ rule.Mends provider e := by
  simp only [checkCorrection, validateText]
  cases hread : provider e.before.text with
  | error error =>
      constructor
      · intro hnone
        cases hnone
      · rintro ⟨⟨snapshot, hsnapshot, -⟩, -, -⟩
        cases hread.symm.trans hsnapshot
  | ok snapshot =>
      simp only [List.append_eq_nil_iff, offsetFailures_eq_nil_iff, checkCorrected_eq_nil_iff,
        ite_eq_left_iff, List.cons_ne_nil, imp_false, Decidable.not_not]
      constructor
      · rintro ⟨⟨hoffsets, hexpected⟩, hsettles⟩
        exact ⟨⟨snapshot, hread, hoffsets⟩, ⟨snapshot, hread, hexpected⟩, hexpected ▸ hsettles⟩
      · rintro ⟨⟨_, hfound, hoffsets⟩, ⟨_, hcorrected, hexpected⟩, hsettles⟩
        cases hread.symm.trans hfound
        cases hread.symm.trans hcorrected
        exact ⟨⟨hoffsets, hexpected⟩, hexpected ▸ hsettles⟩

/-! ### All examples -/

/-- A rule fails none of its examples exactly when it finds the marked offsets on those with and without
violations alike, and mends those of corrections. -/
theorem verify_eq_nil_iff :
    rule.verify provider = [] ↔
      (∀ e ∈ rule.description.nonTriggering, rule.Finds provider e.text e.offsets) ∧
      (∀ e ∈ rule.description.triggering, rule.Finds provider e.text e.offsets) ∧
      ∀ e ∈ rule.description.corrections, rule.Mends provider e := by
  simp only [verify, List.append_eq_nil_iff, List.flatMap_eq_nil_iff, List.forall_mem_append,
    checkExample_eq_nil_iff, checkCorrection_eq_nil_iff, and_assoc]

/-- When no example that does not trigger the rule has a mark, the rule fails none of its examples exactly
when it keeps the promises of its description. -/
theorem verify_eq_nil_iff_keepsPromises
    (hmarks : ∀ e ∈ rule.description.nonTriggering, e.offsets = []) :
    rule.verify provider = [] ↔ rule.KeepsPromises provider := by
  have hsilent : ∀ e ∈ rule.description.nonTriggering,
      (rule.Finds provider e.text e.offsets ↔ rule.IsSilentOn provider e.text) := by
    intro e he
    rw [hmarks e he, finds_nil_iff]
  rw [verify_eq_nil_iff, forall₂_congr hsilent]
  constructor
  · rintro ⟨hnonTriggering, htriggering, hcorrections⟩
    exact ⟨hnonTriggering, htriggering, hcorrections⟩
  · rintro ⟨hnonTriggering, htriggering, hcorrections⟩
    exact ⟨hnonTriggering, htriggering, hcorrections⟩

/-- A mark on an example that does not trigger the rule sets the check against the promise: no rule passes the
one and keeps the other. -/
theorem offsets_eq_nil_of_keepsPromises (hverify : rule.verify provider = [])
    (hpromises : rule.KeepsPromises provider) :
    ∀ e ∈ rule.description.nonTriggering, e.offsets = [] := by
  intro e he
  have hfound := (verify_eq_nil_iff.1 hverify).1 e he
  exact hfound.unique (finds_nil_iff.2 (hpromises.nonTriggering e he))

/-! ### Marks on examples without violations -/

/-- A rule that reports each occurrence of a word and that has one example on which it is to report nothing. -/
def wordRule (word : String) (nonTriggering : Example) : Rule where
  description :=
    { identifier := "word", name := "Word", explanation := "", category := .lint
      nonTriggering := [nonTriggering] }
  check := .file fun context => (occurrences word.toList context.source.toList).map fun offset =>
    ⟨"word", .warning, offset, "", none⟩

/-- The rule reports the word on an example on which it should be silent, and the mark makes up for it. -/
theorem verify_marked_found :
    (wordRule "x" (.ofMarked "let ↓x = 1")).verify Snapshot.ofSource = [] ∧
      ¬(wordRule "x" (.ofMarked "let ↓x = 1")).KeepsPromises Snapshot.ofSource := by
  have hverify : (wordRule "x" (.ofMarked "let ↓x = 1")).verify Snapshot.ofSource = [] := by
    decide +kernel
  refine ⟨hverify, fun hpromises => ?_⟩
  have hmarks := offsets_eq_nil_of_keepsPromises hverify hpromises _ (List.mem_singleton_self _)
  exact absurd hmarks (by decide)

/-- The rule is silent on the example, as it should be, and fails it since it does not report the mark. -/
theorem verify_marked_missed :
    (wordRule "x" (.ofMarked "let ↓y = 1")).KeepsPromises Snapshot.ofSource ∧
      (wordRule "x" (.ofMarked "let ↓y = 1")).verify Snapshot.ofSource =
        [.offsets "word" "let y = 1" [4] []] := by
  constructor
  · have hsilent : ((Snapshot.ofSource "let y = 1").toOption.any fun snapshot =>
        (wordRule "x" (.ofMarked "let ↓y = 1")).validate
          { source := "let y = 1", snapshot := snapshot } == []) = true := by decide +kernel
    obtain ⟨snapshot, hsnapshot, hnone⟩ := exists_of_toOption_any hsilent
    refine ⟨?_, ?_, ?_⟩
    · intro e he
      obtain rfl := List.mem_singleton.1 he
      exact ⟨snapshot, hsnapshot, eq_of_beq hnone⟩
    · intro e he
      cases he
    · intro e he
      cases he
  · decide +kernel

end Rule

end SourceLint
