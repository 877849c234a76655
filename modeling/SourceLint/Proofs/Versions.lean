import SourceLint.LanguageVersion
import SourceLint.Proofs.Config.Names

/-!
# How versions are spelled

A version is spelled as one to three components with dots between them, and with white space around all of it.
A component is a decimal numeral of 32 bits. It may begin with zeros, and it may have one plus sign in front. A
text is read as a version just when it spells the version, and what a version is written as spells it.
-/

namespace SourceLint

/-! ### Numerals -/

/-- The characters are the decimal digits of a number, with or without zeros in front. -/
structure IsNumeral (digits : List Char) (n : Nat) : Prop where
  nonempty : digits ≠ []
  digit : ∀ c ∈ digits, c.isDigit = true
  value : Nat.ofDigits 10 (digits.map digitValue).reverse = n

theorem foldl_appendDigit (digits : List Char) :
    digits.foldl appendDigit 0 = Nat.ofDigits 10 (digits.map digitValue).reverse := by
  induction digits using List.reverseRecOn with
  | nil => rfl
  | append_singleton digits c ih =>
      rw [List.foldl_append, ih, List.map_append, List.map_singleton, List.reverse_concat,
        Nat.ofDigits_cons, Nat.add_comm]
      rfl

theorem readDecimal?_eq_some_iff {cs : List Char} {n : Nat} :
    readDecimal? cs = some n ↔ IsNumeral cs n := by
  rw [readDecimal?, foldl_appendDigit]
  constructor
  · intro h
    split at h
    · rename_i hdigits
      obtain ⟨hnonempty, hall⟩ := Bool.and_eq_true_iff.1 hdigits
      exact ⟨by simpa using hnonempty, List.all_eq_true.1 hall, Option.some.inj h⟩
    · cases h
  · rintro ⟨hnonempty, hdigit, rfl⟩
    have hall : cs.all Char.isDigit = true := List.all_eq_true.2 hdigit
    simp [hall, hnonempty]

namespace LanguageVersion

variable {cs text : List Char} {parts : List (List Char)} {version : LanguageVersion}

/-! ### Components -/

/-- The characters are a component of a version: a numeral, with or without a plus sign in front. -/
inductive IsComponent : List Char → UInt32 → Prop
  | bare {digits : List Char} {n : UInt32} (h : IsNumeral digits n.toNat) : IsComponent digits n
  | signed {digits : List Char} {n : UInt32} (h : IsNumeral digits n.toNat) :
    IsComponent ('+' :: digits) n

theorem IsComponent.char {n : UInt32} (h : IsComponent cs n) {c : Char} (hc : c ∈ cs) :
    c = '+' ∨ c.isDigit = true := by
  cases h with
  | bare h => exact .inr (h.digit c hc)
  | signed h => exact (List.mem_cons.1 hc).imp_right (h.digit c)

theorem isComponent_decimal (n : UInt32) : IsComponent (decimal n.toNat) n :=
  .bare (readDecimal?_eq_some_iff.1 (readDecimal?_decimal n.toNat))

theorem ofNat_eq_some_iff {m : Nat} {n : UInt32} :
    (if m < Nat.pow 2 32 then some (UInt32.ofNat m) else none) = some n ↔ m = n.toNat := by
  constructor
  · intro h
    split at h
    · rename_i hlt
      rw [← Option.some.inj h, UInt32.toNat_ofNat_of_lt' hlt]
    · cases h
  · rintro rfl
    rw [if_pos n.toNat_lt, UInt32.ofNat_toNat]

/-- Behind its sign, a component is read as a numeral of 32 bits. -/
theorem readDecimal?_bind_eq_some_iff {digits : List Char} {n : UInt32} :
    ((readDecimal? digits).bind fun m =>
      if m < Nat.pow 2 32 then some (UInt32.ofNat m) else none) = some n ↔
        IsNumeral digits n.toNat := by
  simp only [Option.bind_eq_some_iff, ofNat_eq_some_iff, readDecimal?_eq_some_iff, exists_eq_right]

theorem component?_eq_some_iff {n : UInt32} : component? cs = some n ↔ IsComponent cs n := by
  unfold component?
  dsimp only
  split
  · rename_i rest
    rw [readDecimal?_bind_eq_some_iff]
    constructor
    · exact .signed
    · rintro (h | h)
      · exact absurd (h.digit '+' List.mem_cons_self) (by decide)
      · exact h
  · rename_i hplus
    rw [readDecimal?_bind_eq_some_iff]
    constructor
    · exact .bare
    · rintro (h | h)
      · exact h
      · exact absurd rfl (hplus _)

/-! ### Components with dots between them -/

/-- The components spell a version: its major part, its minor part, which is 0 where it is not given, and a
third one that does not count. -/
inductive Spells : List (List Char) → LanguageVersion → Prop
  | major {first : List Char} {major : UInt32} (hmajor : IsComponent first major) :
    Spells [first] ⟨major, 0⟩
  | minor {first second : List Char} {major minor : UInt32} (hmajor : IsComponent first major)
    (hminor : IsComponent second minor) : Spells [first, second] ⟨major, minor⟩
  | third {first second third : List Char} {major minor patch : UInt32}
    (hmajor : IsComponent first major) (hminor : IsComponent second minor)
    (hthird : IsComponent third patch) : Spells [first, second, third] ⟨major, minor⟩

theorem Spells.exists_isComponent (h : Spells parts version) {part : List Char} (hpart : part ∈ parts) :
    ∃ n, IsComponent part n := by
  cases h with
  | major hmajor =>
      obtain rfl := List.mem_singleton.1 hpart
      exact ⟨_, hmajor⟩
  | minor hmajor hminor =>
      simp only [List.mem_cons, List.not_mem_nil, or_false] at hpart
      rcases hpart with rfl | rfl
      · exact ⟨_, hmajor⟩
      · exact ⟨_, hminor⟩
  | third hmajor hminor hthird =>
      simp only [List.mem_cons, List.not_mem_nil, or_false] at hpart
      rcases hpart with rfl | rfl | rfl
      · exact ⟨_, hmajor⟩
      · exact ⟨_, hminor⟩
      · exact ⟨_, hthird⟩

theorem mapM_eq_some_iff {α β : Type} {f : α → Option β} {xs : List α} {ys : List β} :
    xs.mapM f = some ys ↔ List.Forall₂ (fun x y => f x = some y) xs ys := by
  induction xs generalizing ys with
  | nil => simp [eq_comm]
  | cons x xs ih =>
      simp only [List.mapM_cons, Option.bind_eq_bind, Option.bind_eq_some_iff, ih, Option.pure_def,
        Option.some.injEq, List.forall₂_cons_left_iff]
      constructor
      · rintro ⟨y, hy, ys, hys, rfl⟩
        exact ⟨y, ys, hy, hys, rfl⟩
      · rintro ⟨y, ys, hy, hys, rfl⟩
        exact ⟨y, hy, ys, hys, rfl⟩

theorem ofComponents?_eq_some_iff :
    (parts.mapM component?).bind ofComponents? = some version ↔ Spells parts version := by
  simp only [Option.bind_eq_some_iff, mapM_eq_some_iff, component?_eq_some_iff]
  constructor
  · rintro ⟨ns, hns, hversion⟩
    unfold ofComponents? at hversion
    split at hversion
    · obtain rfl := Option.some.inj hversion
      obtain _ | ⟨hmajor, ⟨⟩⟩ := hns
      exact .major hmajor
    · obtain rfl := Option.some.inj hversion
      obtain _ | ⟨hmajor, _ | ⟨hminor, ⟨⟩⟩⟩ := hns
      exact .minor hmajor hminor
    · obtain rfl := Option.some.inj hversion
      obtain _ | ⟨hmajor, _ | ⟨hminor, _ | ⟨hthird, ⟨⟩⟩⟩⟩ := hns
      exact .third hmajor hminor hthird
    · cases hversion
  · rintro (hmajor | ⟨hmajor, hminor⟩ | ⟨hmajor, hminor, hthird⟩)
    · exact ⟨_, .cons hmajor .nil, rfl⟩
    · exact ⟨_, .cons hmajor (.cons hminor .nil), rfl⟩
    · exact ⟨_, .cons hmajor (.cons hminor (.cons hthird .nil)), rfl⟩

/-! ### Whole texts -/

theorem splitAtDots_eq_splitOn (cs : List Char) : splitAtDots cs = cs.splitOn '.' := by
  induction cs with
  | nil => rfl
  | cons c cs ih =>
      rw [List.splitOn, List.splitOnP_cons_eq_if_modifyHead, ← List.splitOn, ← ih]
      by_cases hc : c = '.'
      · rw [hc]
        rfl
      · have hne : splitAtDots cs ≠ [] := ih ▸ List.splitOn_ne_nil _ _
        obtain ⟨part, parts, hparts⟩ := List.exists_cons_of_ne_nil hne
        rw [if_neg (by simpa using hc), splitAtDots, hparts]
        · rfl
        · exact hc

theorem exists_of_mem_intercalate {c : Char} (h : c ∈ ['.'].intercalate parts) :
    c = '.' ∨ ∃ part ∈ parts, c ∈ part := by
  induction parts with
  | nil => cases h
  | cons part parts ih =>
      cases parts with
      | nil =>
          rw [List.intercalate_singleton] at h
          exact .inr ⟨part, List.mem_cons_self, h⟩
      | cons next parts =>
          rw [List.intercalate_cons_cons, List.mem_append, List.mem_append, List.mem_singleton] at h
          rcases h with (h | h) | h
          · exact .inr ⟨part, List.mem_cons_self, h⟩
          · exact .inl h
          · exact (ih h).imp_right fun ⟨other, hother, hc⟩ => ⟨other, List.mem_cons_of_mem _ hother, hc⟩

theorem parse_eq_ok_iff {text : String} :
    parse text = .ok version ↔ Spells (splitAtDots (trimBlanks text.toList)) version := by
  rw [← ofComponents?_eq_some_iff, parse]
  split
  · rename_i found hfound
    simp [hfound]
  · rename_i hnone
    simp [hnone]

theorem Spells.splitAtDots_intercalate (h : Spells parts version) :
    splitAtDots (['.'].intercalate parts) = parts := by
  have hdots : ∀ part ∈ parts, '.' ∉ part := by
    intro part hpart hdot
    obtain ⟨n, hn⟩ := h.exists_isComponent hpart
    exact absurd (hn.char hdot) (by decide)
  have hne : parts ≠ [] := by cases h <;> exact List.cons_ne_nil _ _
  rw [splitAtDots_eq_splitOn, List.splitOn_intercalate '.' hdots hne]

theorem Spells.isBlank_eq_false (h : Spells parts version) {c : Char}
    (hc : c ∈ ['.'].intercalate parts) : isBlank c = false := by
  rcases exists_of_mem_intercalate hc with rfl | ⟨part, hpart, hc⟩
  · decide
  · obtain ⟨n, hn⟩ := h.exists_isComponent hpart
    rcases hn.char hc with rfl | hdigit
    · decide
    · have hbounds : 48 ≤ c.toNat ∧ c.toNat ≤ 57 := by
        simpa [Char.isDigit, UInt32.le_iff_toNat_le] using hdigit
      exact SourceLint.isBlank_eq_false (by omega) (by omega)

/-- Components that spell a version are read, with dots between them and white space around them. -/
theorem Spells.parse_eq_ok (h : Spells parts version) {text : String}
    (htext : Pads (['.'].intercalate parts) text) : parse text = .ok version := by
  obtain ⟨before, after, hcs, hbefore, hafter⟩ := htext
  have htrim : trimBlanks text.toList = ['.'].intercalate parts := by
    rw [hcs, trimBlanks_padded hbefore _ hafter, trimBlanks_eq_self fun c hc => h.isBlank_eq_false hc]
  rw [parse_eq_ok_iff, htrim, h.splitAtDots_intercalate]
  exact h

theorem exists_of_parse {text : String} (h : parse text = .ok version) :
    ∃ parts, Pads (['.'].intercalate parts) text ∧ Spells parts version := by
  refine ⟨_, ?_, parse_eq_ok_iff.1 h⟩
  rw [splitAtDots_eq_splitOn, List.intercalate_splitOn]
  exact pads_trimBlanks text

/-- A version as it is written, with something behind it. -/
theorem pads_toString_append (version : LanguageVersion) (third : String) :
    Pads (['.'].intercalate [decimal version.major.toNat, decimal version.minor.toNat, third.toList])
      (toString version ++ "." ++ third) := by
  refine ⟨[], [], ?_, by simp, by simp⟩
  simp [toString, List.intercalate]

theorem pads_toString (version : LanguageVersion) :
    Pads (['.'].intercalate [decimal version.major.toNat, decimal version.minor.toNat])
      (toString version) := by
  refine ⟨[], [], ?_, by simp, by simp⟩
  simp [toString, List.intercalate]

/-- A text is read as a version just when it spells the version, without the white space around it. What a
version is written as is read as that version, also with a third component behind it. -/
theorem parse_spec :
    (∀ text version, parse text = .ok version ↔
      ∃ parts, Pads (['.'].intercalate parts) text ∧ Spells parts version) ∧
    (∀ version : LanguageVersion, parse (toString version) = .ok version) ∧
    ∀ (version : LanguageVersion) (third : String) (n : UInt32), IsComponent third.toList n →
      parse (toString version ++ "." ++ third) = .ok version := by
  refine ⟨fun text version => ⟨exists_of_parse, ?_⟩, fun version => ?_, fun version third n hthird => ?_⟩
  · rintro ⟨parts, htext, hparts⟩
    exact hparts.parse_eq_ok htext
  · exact (Spells.minor (isComponent_decimal _) (isComponent_decimal _)).parse_eq_ok (pads_toString version)
  · exact (Spells.third (isComponent_decimal _) (isComponent_decimal _) hthird).parse_eq_ok
      (pads_toString_append version third)

/-- The largest version with a signed third component that begins with zeros. -/
theorem parse_spec_largest :
    IsComponent "+007".toList 7 ∧
      parse (toString (⟨4294967295, 4294967295⟩ : LanguageVersion) ++ "." ++ "+007") =
        .ok ⟨4294967295, 4294967295⟩ := by
  have hthird : IsComponent "+007".toList 7 := component?_eq_some_iff.1 (by decide +kernel)
  exact ⟨hthird, parse_spec.2.2 _ _ _ hthird⟩

/-- A plus sign is neither a digit nor a dot nor white space, but a text with one is read. -/
theorem parse_plus :
    parse "+5" = .ok ⟨5, 0⟩ ∧
      ¬∃ parts : List (List Char), (∀ part ∈ parts, ∀ c ∈ part, c.isDigit = true) ∧
        Pads (['.'].intercalate parts) "+5" := by
  constructor
  · rfl
  · rintro ⟨parts, hdigit, before, after, htext, hbefore, hafter⟩
    have hplus : '+' ∈ before ++ ['.'].intercalate parts ++ after := htext ▸ by decide
    simp only [List.mem_append] at hplus
    rcases hplus with (h | h) | h
    · exact absurd (hbefore '+' h) (by decide)
    · rcases exists_of_mem_intercalate h with h | ⟨part, hpart, h⟩
      · exact absurd h (by decide)
      · exact absurd (hdigit part hpart '+' h) (by decide)
    · exact absurd (hafter '+' h) (by decide)

end LanguageVersion

end SourceLint
