import SourceLint.Proofs.Config.Normal

/-!
# Spelling does not matter in configurations

Two tables hold the same configuration when they differ only in how the names of rules and of their options
and the entries of the global lists are spelled. Since a table is sorted by the spellings, the entries of the
two need not stand in the same order; but no two keys beside each other are alike, so none displaces another.
-/

namespace SourceLint

/-! ### Pairs of computations -/

/-- Two computations fail with the same error, or have results that are related. -/
inductive SameOutcome {ε α β : Type} (related : α → β → Prop) : Except ε α → Except ε β → Prop
  | fault (e : ε) : SameOutcome related (.error e) (.error e)
  | result {a : α} {b : β} (h : related a b) : SameOutcome related (.ok a) (.ok b)

namespace SameOutcome

variable {ε α β γ δ : Type} {related : α → β → Prop} {related' : γ → δ → Prop}

theorem bind {x : Except ε α} {y : Except ε β} {f : α → Except ε γ} {g : β → Except ε δ}
    (h : SameOutcome related x y) (hfg : ∀ a b, related a b → SameOutcome related' (f a) (g b)) :
    SameOutcome related' (x >>= f) (y >>= g) := by
  cases h with
  | fault e => exact .fault e
  | result h => exact hfg _ _ h

theorem map {x : Except ε α} {y : Except ε β} {f : α → γ} {g : β → δ} (h : SameOutcome related x y)
    (hfg : ∀ a b, related a b → related' (f a) (g b)) : SameOutcome related' (x.map f) (y.map g) := by
  cases h with
  | fault e => exact .fault e
  | result h => exact .result (hfg _ _ h)

theorem refl {related : α → α → Prop} (hrefl : ∀ a, related a a) (x : Except ε α) :
    SameOutcome related x x := by
  cases x with
  | error e => exact .fault e
  | ok a => exact .result (hrefl a)

theorem foldlM {R : γ → δ → Prop} {f : α → γ → Except ε α} {g : β → δ → Except ε β} {xs : List γ}
    {ys : List δ} (hxs : List.Forall₂ R xs ys)
    (hstep : ∀ a b x y, R x y → related a b → SameOutcome related (f a x) (g b y)) {a : α} {b : β}
    (h : related a b) : SameOutcome related (xs.foldlM f a) (ys.foldlM g b) := by
  induction hxs generalizing a b with
  | nil => exact .result h
  | cons hxy _ ih =>
      rw [List.foldlM_cons, List.foldlM_cons]
      exact (hstep a b _ _ hxy h).bind fun _ _ => ih

theorem eq {x y : Except ε α} (h : SameOutcome (· = ·) x y) : x = y := by
  cases h with
  | fault e => rfl
  | result h => rw [h]

end SameOutcome

/-! ### Lists up to order -/

/-- The elements of two lists are related one by one, when those of the first are put in some order. -/
def Matching {α β : Type} (R : α → β → Prop) (xs : List α) (ys : List β) : Prop :=
  ∃ zs, xs.Perm zs ∧ List.Forall₂ R zs ys

namespace Matching

variable {α β γ : Type} {R : α → β → Prop} {xs : List α} {ys : List β}

theorem exists_right (h : Matching R xs ys) {x : α} (hx : x ∈ xs) : ∃ y ∈ ys, R x y := by
  obtain ⟨zs, hperm, hzs⟩ := h
  replace hx := hperm.mem_iff.1 hx
  clear hperm
  induction hzs with
  | nil => cases hx
  | cons hxy _ ih =>
      rcases List.mem_cons.1 hx with rfl | hx
      · exact ⟨_, List.mem_cons_self, hxy⟩
      · obtain ⟨y, hy, hxy⟩ := ih hx
        exact ⟨y, List.mem_cons_of_mem _ hy, hxy⟩

theorem exists_left (h : Matching R xs ys) {y : β} (hy : y ∈ ys) : ∃ x ∈ xs, R x y := by
  obtain ⟨zs, hperm, hzs⟩ := h
  suffices ∃ z ∈ zs, R z y by
    obtain ⟨z, hz, hzy⟩ := this
    exact ⟨z, hperm.mem_iff.2 hz, hzy⟩
  clear hperm
  induction hzs with
  | nil => cases hy
  | cons hxy _ ih =>
      rcases List.mem_cons.1 hy with rfl | hy
      · exact ⟨_, List.mem_cons_self, hxy⟩
      · obtain ⟨z, hz, hzy⟩ := ih hy
        exact ⟨z, List.mem_cons_of_mem _ hz, hzy⟩

theorem map_perm {f : α → γ} {g : β → γ} (h : Matching R xs ys) (hfg : ∀ x y, R x y → f x = g y) :
    (xs.map f).Perm (ys.map g) := by
  obtain ⟨zs, hperm, hzs⟩ := h
  have hsame : zs.map f = ys.map g := by
    rw [← List.forall₂_eq_eq_eq, List.forall₂_map_left_iff, List.forall₂_map_right_iff]
    exact hzs.imp hfg
  exact hsame ▸ hperm.map f

theorem all_eq {p : α → Bool} {q : β → Bool} (h : Matching R xs ys)
    (hpq : ∀ x y, R x y → p x = q y) : xs.all p = ys.all q := by
  obtain ⟨zs, hperm, hzs⟩ := h
  rw [hperm.all_eq]
  induction hzs generalizing xs with
  | nil => rfl
  | cons hxy _ ih => rw [List.all_cons, List.all_cons, hpq _ _ hxy, ih (List.Perm.refl _)]

/-- Related elements that give the same entries make the same table, when their keys are distinct. -/
theorem ofEntries_filterMap {f : α → Option (String × γ)} {g : β → Option (String × γ)}
    (h : Matching R xs ys) (hfg : ∀ x ∈ xs, ∀ y, R x y → f x = g y)
    (hdistinct : ((xs.filterMap f).map Prod.fst).Nodup) :
    SortedTable.ofEntries (xs.filterMap f) = SortedTable.ofEntries (ys.filterMap g) := by
  obtain ⟨zs, hperm, hzs⟩ := h
  have hsame : zs.filterMap f = ys.filterMap g := by
    have hmem : ∀ z ∈ zs, ∀ y, R z y → f z = g y := fun z hz => hfg z (hperm.mem_iff.2 hz)
    clear hperm hfg
    induction hzs with
    | nil => rfl
    | cons hxy _ ih =>
        obtain ⟨hfirst, hrest⟩ := List.forall_mem_cons.1 hmem
        rw [List.filterMap_cons, List.filterMap_cons, hfirst _ hxy, ih hrest]
  rw [← hsame]
  exact SortedTable.ofEntries_perm (hperm.filterMap f) hdistinct

end Matching

/-! ### Tables that are spelled alike -/

namespace Toml

/-- Entries of a list that are both the same name, up to spelling, or the same value. -/
inductive ItemAlike : Value → Value → Prop
  | name {name name' : String} (h : SpelledAlike name name') : ItemAlike (.string name) (.string name')
  | same (value : Value) : ItemAlike value value

/-- Lists of names that are the same up to spelling. -/
inductive ListAlike : Value → Value → Prop
  | items {items items' : List Value} (h : List.Forall₂ ItemAlike items items') :
    ListAlike (.array items) (.array items')
  | same (value : Value) : ListAlike value value

/-- Global options, as a table or as a list, that differ in the spelling of the entries of their lists. -/
inductive GlobalAlike : Value → Value → Prop
  | table {entries entries' : List (String × Value)}
    (h : List.Forall₂ (fun e e' => e.1 = e'.1 ∧ ListAlike e.2 e'.2) entries entries') :
    GlobalAlike (.table entries) (.table entries')
  | array {items items' : List Value} (h : List.Forall₂ ListAlike items items') :
    GlobalAlike (.array items) (.array items')
  | same (value : Value) : GlobalAlike value value

/-- Tables of rules that differ in the spelling of their keys. -/
inductive RuleAlike : Value → Value → Prop
  | table {entries entries' : List (String × Value)}
    (h : Matching (fun e e' => SpelledAlike e.1 e'.1 ∧ e.2 = e'.2) entries entries') :
    RuleAlike (.table entries) (.table entries')
  | same (value : Value) : RuleAlike value value

/-- Entries of two documents that differ in spelling: both are the global options, or both are about the
same rule. -/
inductive EntryAlike : String × Value → String × Value → Prop
  | global {value value' : Value} (h : GlobalAlike value value') :
    EntryAlike ("global", value) ("global", value')
  | rule {name name' : String} {value value' : Value} (hname : SpelledAlike name name')
    (hrule : name ≠ "global") (hrule' : name' ≠ "global") (h : RuleAlike value value') :
    EntryAlike (name, value) (name', value')

/-- No two keys beside each other in a document are alike, among the names of rules or in the table of a
rule. -/
structure KeysApart (table : Table) : Prop where
  names : (table.map fun entry => normalizeKey entry.1).Nodup
  options : ∀ name entries, (name, .table entries) ∈ table → name ≠ "global" →
    (entries.map fun entry => normalizeKey entry.1).Nodup

end Toml

open Toml

/-! ### Global options -/

namespace GlobalOptions

/-- Two lists of names have the same spellings. -/
abbrev NamesAlike (names names' : List String) : Prop :=
  names.map normalizeKey = names'.map normalizeKey

/-- Two sets of options are the same up to spelling. -/
structure OptionsAlike (options options' : GlobalOptions) : Prop where
  enable : NamesAlike options.enable options'.enable
  disable : NamesAlike options.disable options'.disable
  only : NamesAlike options.only options'.only
  unfixable : NamesAlike options.unfixable options'.unfixable
  languageVersion : options.languageVersion = options'.languageVersion

theorem OptionsAlike.refl (options : GlobalOptions) : OptionsAlike options options :=
  ⟨rfl, rfl, rfl, rfl, rfl⟩

theorem OptionsAlike.normalized_eq {options options' : GlobalOptions}
    (h : OptionsAlike options options') : options.normalized = options'.normalized := by
  rw [normalized, normalized, h.enable, h.disable, h.only, h.unfixable, h.languageVersion]

theorem sameOutcome_readNames {items items' : List Value} (h : List.Forall₂ ItemAlike items items') :
    SameOutcome NamesAlike (readNames items) (readNames items') := by
  induction h with
  | nil => exact .result rfl
  | @cons item item' items items' hitem _ ih =>
      have hcons : ∀ {name name' : String}, normalizeKey name = normalizeKey name' →
          ∀ names names', NamesAlike names names' → NamesAlike (name :: names) (name' :: names') := by
        intro name name' hname names names' hnames
        exact congrArg₂ List.cons hname hnames
      cases hitem with
      | name hname => exact ih.map (hcons (normalizeKey_eq_iff.2 hname))
      | same =>
          cases item with
          | string name => exact ih.map (hcons rfl)
          | _ => exact .fault _

theorem sameOutcome_readNameList {value value' : Value} (h : ListAlike value value') :
    SameOutcome NamesAlike (readNameList value) (readNameList value') := by
  cases h with
  | items h => exact sameOutcome_readNames h
  | same => exact .refl (fun names => (rfl : NamesAlike names names)) _

theorem readVersion_congr {value value' : Value} (h : ListAlike value value') :
    readVersion value = readVersion value' := by
  cases h with
  | items => rfl
  | same => rfl

theorem sameOutcome_withEntry {options options' : GlobalOptions} (h : OptionsAlike options options')
    {entry entry' : String × Value} (hkey : entry.1 = entry'.1) (hvalue : ListAlike entry.2 entry'.2) :
    SameOutcome OptionsAlike (withEntry options entry) (withEntry options' entry') := by
  obtain ⟨key, value⟩ := entry
  obtain ⟨key', value'⟩ := entry'
  obtain rfl : key = key' := hkey
  have hlist := sameOutcome_readNameList hvalue
  have hversion : readVersion value = readVersion value' := readVersion_congr hvalue
  unfold withEntry
  dsimp only
  split
  · exact hlist.bind fun _ _ hnames => .result { h with enable := hnames }
  · exact hlist.bind fun _ _ hnames => .result { h with disable := hnames }
  · exact hlist.bind fun _ _ hnames => .result { h with only := hnames }
  · exact hlist.bind fun _ _ hnames => .result { h with unfixable := hnames }
  · rw [hversion, h.languageVersion]
    split
    · exact .fault _
    · exact (SameOutcome.refl (fun _ => rfl) _).bind fun _ _ (hread : _ = _) =>
        .result { h with languageVersion := congrArg some hread }
  · rw [hversion, h.languageVersion]
    split
    · exact .fault _
    · exact (SameOutcome.refl (fun _ => rfl) _).bind fun _ _ (hread : _ = _) =>
        .result { h with languageVersion := congrArg some hread }
  · exact .result h

/-- Lists of options with the same positions. -/
theorem forall₂_zip {items items' : List Value} (h : List.Forall₂ ListAlike items items')
    (keys : List String) :
    List.Forall₂ (fun e e' => e.1 = e'.1 ∧ ListAlike e.2 e'.2) (keys.zip items) (keys.zip items') := by
  induction h generalizing keys with
  | nil => simp
  | cons hitem _ ih =>
      cases keys with
      | nil => exact .nil
      | cons key keys => exact .cons ⟨rfl, hitem⟩ (ih keys)

theorem sameOutcome_ofValue {value value' : Value} (h : GlobalAlike value value') :
    SameOutcome OptionsAlike (ofValue value) (ofValue value') := by
  have hfold : ∀ {entries entries' : List (String × Value)},
      List.Forall₂ (fun e e' => e.1 = e'.1 ∧ ListAlike e.2 e'.2) entries entries' →
      SameOutcome OptionsAlike (entries.foldlM withEntry {}) (entries'.foldlM withEntry {}) :=
    fun hentries => SameOutcome.foldlM hentries
      (fun _ _ _ _ hentry halike => sameOutcome_withEntry halike hentry.1 hentry.2) (.refl {})
  cases h with
  | table h => exact hfold h
  | @array items items' h =>
      rw [ofValue, ofValue, h.length_eq]
      refine (hfold (forall₂_zip h positions)).bind fun _ _ halike => ?_
      split
      · exact .fault _
      · exact .result halike
  | same => exact .refl .refl _

end GlobalOptions

namespace Config

variable {table table' : Table}

/-! ### Documents -/

theorem perm_names (h : Matching EntryAlike table table') :
    (table.map fun entry => normalizeKey entry.1).Perm
      (table'.map fun entry => normalizeKey entry.1) := by
  apply h.map_perm
  intro entry entry' halike
  cases halike with
  | global h => rfl
  | rule hname => exact normalizeKey_eq_iff.2 hname

theorem nodup_keys {β : Type} {entries : List (String × β)}
    (h : (entries.map fun entry => normalizeKey entry.1).Nodup) : (entries.map Prod.fst).Nodup := by
  apply List.Nodup.of_map normalizeKey
  rwa [List.map_map]

theorem sameOutcome_globalOf (h : Matching EntryAlike table table')
    (hnames : (table.map fun entry => normalizeKey entry.1).Nodup) :
    SameOutcome GlobalOptions.OptionsAlike (globalOf table) (globalOf table') := by
  have hkeys := nodup_keys hnames
  have hkeys' := nodup_keys ((perm_names h).nodup_iff.1 hnames)
  rw [globalOf, globalOf]
  cases hvalue : table.get? "global" with
  | some value =>
      obtain ⟨entry, hentry, halike⟩ := h.exists_right ((SortedTable.get?_eq_some_iff hkeys).1 hvalue)
      generalize hname : ("global", value) = first at halike
      cases halike with
      | @global value value' h =>
          obtain ⟨-, rfl⟩ := Prod.mk.inj hname
          rw [(SortedTable.get?_eq_some_iff hkeys').2 hentry]
          exact GlobalOptions.sameOutcome_ofValue h
      | rule _ hrule => exact absurd (Prod.mk.inj hname).1.symm hrule
  | none =>
      cases hvalue' : table'.get? "global" with
      | some value' =>
          obtain ⟨entry, hentry, halike⟩ := h.exists_left ((SortedTable.get?_eq_some_iff hkeys').1 hvalue')
          generalize hname : ("global", value') = first at halike
          cases halike with
          | global =>
              rw [(SortedTable.get?_eq_some_iff hkeys).2 hentry] at hvalue
              cases hvalue
          | rule _ _ hrule' => exact absurd (Prod.mk.inj hname).1.symm hrule'
      | none => exact .result (.refl {})

theorem fst_of_spelledRule? {entry : String × Value} {rule : String × Table}
    (h : spelledRule? entry = some rule) : rule.1 = normalizeKey entry.1 := by
  rw [spelledRule?] at h
  split at h
  · cases h
  · obtain ⟨table, -, rfl⟩ := Option.map_eq_some_iff.1 h
    rfl

/-- The keys of the rules in the one spelling are some of the keys of the document in it. -/
theorem nodup_spelledRules (hnames : (table.map fun entry => normalizeKey entry.1).Nodup) :
    ((table.filterMap spelledRule?).map Prod.fst).Nodup := by
  refine hnames.sublist ?_
  clear hnames
  induction table with
  | nil => exact .slnil
  | cons entry table ih =>
      rw [List.filterMap_cons, List.map_cons]
      cases hrule : spelledRule? entry with
      | none => exact ih.cons _
      | some rule =>
          have hname : rule.1 = normalizeKey entry.1 := fst_of_spelledRule? hrule
          rw [List.map_cons, hname]
          exact ih.cons_cons _

theorem isSome_spelledTable? {value value' : Value} (h : RuleAlike value value') :
    (spelledTable? value).isSome = (spelledTable? value').isSome := by
  cases h with
  | table => rfl
  | same => rfl

theorem spelledTable?_congr {value value' : Value} (h : RuleAlike value value')
    (hapart : ∀ entries, value = .table entries →
      (entries.map fun entry => normalizeKey entry.1).Nodup) :
    spelledTable? value = spelledTable? value' := by
  cases h with
  | same => rfl
  | @table entries entries' h =>
      let spelled : String × Value → String × Value :=
        fun entry => (normalizeKey entry.1, withoutDates entry.2)
      have hspelled : ∀ entries : List (String × Value),
          normalizedTable (withoutDatesEntries entries) = SortedTable.ofEntries (entries.map spelled) := by
        intro entries
        rw [withoutDatesEntries_eq_map, normalizedTable, List.map_map]
        rfl
      have hperm : (entries.map spelled).Perm (entries'.map spelled) :=
        h.map_perm fun entry entry' halike =>
          Prod.ext (normalizeKey_eq_iff.2 halike.1) (congrArg withoutDates halike.2)
      have hdistinct : ((entries.map spelled).map Prod.fst).Nodup := by
        rw [List.map_map]
        exact hapart entries rfl
      rw [spelledTable?, spelledTable?, hspelled, hspelled, SortedTable.ofEntries_perm hperm hdistinct]

theorem rulesOf_congr (h : Matching EntryAlike table table') (hapart : KeysApart table) :
    rulesOf table = rulesOf table' := by
  -- only for entries of the first table it is known that their options are apart
  have hspelled : ∀ entry ∈ table, ∀ entry', EntryAlike entry entry' →
      spelledRule? entry = spelledRule? entry' := by
    intro entry hentry entry' halike
    cases halike with
    | global => rfl
    | @rule name name' value value' hname hrule hrule' h =>
        have hvalue : spelledTable? value = spelledTable? value' := by
          apply spelledTable?_congr h
          rintro entries rfl
          exact hapart.options name entries hentry hrule
        rw [spelledRule?, spelledRule?, if_neg hrule, if_neg hrule', hvalue, normalizeKey_eq_iff.2 hname]
  have hform : table.all hasForm = table'.all hasForm := by
    apply h.all_eq
    intro entry entry' halike
    cases halike with
    | global => rfl
    | rule _ hrule hrule' h => simp [hasForm, hrule, hrule', isSome_spelledTable? h]
  rw [rulesOf, rulesOf, hform,
    h.ofEntries_filterMap hspelled (nodup_spelledRules hapart.names)]

/-- Spelling does not matter: configurations that differ in it alone are read alike, with their names in the
one spelling. So the same rules are active with the same options, and the same faults are found. -/
theorem ofTable_alike :
    (∀ table table' : Table, Matching EntryAlike table table' → KeysApart table →
        ofTable table = ofTable table') ∧
      ∀ (table : Table) (config : Config), ofTable table = .ok config →
        config.IsNormal ∧ config.normalized = config := by
  constructor
  · intro table table' halike hapart
    rw [ofTable_eq_rulesOf, ofTable_eq_rulesOf, rulesOf_congr halike hapart]
    apply SameOutcome.eq
    apply (sameOutcome_globalOf halike hapart.names).bind
    intro global global' hglobal
    rw [hglobal.normalized_eq]
    exact .refl (fun _ => rfl) _
  · intro table config hconfig
    have hnormal := isNormal_of_ofTable hconfig
    exact ⟨hnormal, hnormal.normalized_eq⟩

/-- A document whose names are written with capitals and underscores. -/
def capitalized : Table :=
  [("Line_Length", .table [("Warning", .integer 80), ("ignores-urls", .boolean true)]),
    ("global", .table [("enable", .array [.string "Open_Remark"])])]

/-- The same document in small letters, where the entries of both levels stand in another order. -/
def uncapitalized : Table :=
  [("global", .table [("enable", .array [.string " open-remark"])]),
    ("line-length", .table [("ignores_urls", .boolean true), ("warning", .integer 80)])]

theorem ofTable_capitalized :
    Matching EntryAlike capitalized uncapitalized ∧ KeysApart capitalized ∧
      ofTable capitalized = ofTable uncapitalized ∧
      ∃ config, ofTable capitalized = .ok config ∧ config.IsNormal ∧ config.normalized = config ∧
        config.global.enable = ["open-remark"] ∧
        config.rule? "line-length" = some [("ignores-urls", .boolean true), ("warning", .integer 80)] := by
  have hlength : SpelledAlike "Line_Length" "line-length" := normalizeKey_eq_iff.1 (by decide +kernel)
  have hwarning : SpelledAlike "Warning" "warning" := normalizeKey_eq_iff.1 (by decide +kernel)
  have hurls : SpelledAlike "ignores-urls" "ignores_urls" := normalizeKey_eq_iff.1 (by decide +kernel)
  have hremark : SpelledAlike "Open_Remark" " open-remark" := normalizeKey_eq_iff.1 (by decide +kernel)
  have halike : Matching EntryAlike capitalized uncapitalized := by
    refine ⟨_, .swap _ _ _, .cons (.global (.table ?_)) (.cons (.rule hlength ?_ ?_ (.table ?_)) .nil)⟩
    · exact .cons ⟨rfl, .items (.cons (.name hremark) .nil)⟩ .nil
    · decide
    · decide
    · exact ⟨_, .swap _ _ _, .cons ⟨hurls, rfl⟩ (.cons ⟨hwarning, rfl⟩ .nil)⟩
  have hapart : KeysApart capitalized := by
    constructor
    · decide +kernel
    · intro name entries hentry hname
      simp [capitalized, hname] at hentry
      obtain ⟨-, rfl⟩ := hentry
      decide +kernel
  have hconfig : ofTable capitalized = .ok {
      global := { enable := ["open-remark"] }
      rules := [("line-length", [("ignores-urls", .boolean true), ("warning", .integer 80)])] } := by
    rfl
  obtain ⟨hsame, hnormal⟩ := ofTable_alike
  exact ⟨halike, hapart, hsame _ _ halike hapart, _, hconfig, (hnormal _ _ hconfig).1,
    (hnormal _ _ hconfig).2, rfl, rfl⟩

end Config

end SourceLint
