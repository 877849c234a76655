import SourceLint.Correction.Corrector

/-!
# Edits in place are one splice

Accepted corrections are made one after the other in a text whose length changes with each edit. Their
spans do not meet and they are made from the last to the first, so each edit finds the original text
under its span, and together they amount to one cut of the original text at all spans.

## Implementation notes

`Spliced` is the relation behind `splice`: it names the pieces that stay and the pieces that go, so
facts about the outcome are proved by induction on it and not by following byte offsets.
-/

namespace SourceLint

/-- A span has a text under it exactly when the text splits into three parts, and the offsets are the
lengths of the first two. -/
theorem Span.chars?_eq_some_iff {r : Span} {cs piece : List Char} :
    r.chars? cs = some piece ↔
      ∃ front back, cs = front ++ piece ++ back ∧ byteLength front = r.location ∧
        byteLength piece = r.length := by
  simp only [Span.chars?, Option.bind_eq_some_iff]
  constructor
  · rintro ⟨rest, hrest, hpiece⟩
    obtain ⟨front, rfl, hfront⟩ := eq_append_of_dropBytes? hrest
    obtain ⟨back, rfl, hlength⟩ := eq_append_of_takeBytes? hpiece
    exact ⟨front, back, by simp, hfront, hlength⟩
  · rintro ⟨front, back, rfl, hfront, hlength⟩
    refine ⟨piece ++ back, ?_, ?_⟩
    · rw [← hfront, List.append_assoc, dropBytes?_append]
    · rw [← hlength, takeBytes?_append]

theorem Span.stop_le_of_chars? {r : Span} {cs piece : List Char} (h : r.chars? cs = some piece) :
    r.stop ≤ byteLength cs := by
  obtain ⟨front, back, rfl, hfront, hlength⟩ := Span.chars?_eq_some_iff.1 h
  simp only [Span.stop, byteLength_append]
  omega

/-- Two ways to split a text agree on the shorter first part. -/
theorem exists_append_of_byteLength_le {front back front' back' : List Char}
    (h : front ++ back = front' ++ back') (hle : byteLength front ≤ byteLength front') :
    ∃ between, front' = front ++ between ∧ back = between ++ back' := by
  rcases List.append_eq_append_iff.1 h with h | ⟨between, rfl, rfl⟩
  · exact h
  · have hlength : byteLength between = 0 := by
      rw [byteLength_append] at hle; omega
    obtain rfl := byteLength_eq_zero_iff.1 hlength
    exact ⟨[], by simp, by simp⟩

/-- Two ways to split a text at one offset are the same. -/
theorem append_inj_of_byteLength_eq {front back front' back' : List Char}
    (h : front ++ back = front' ++ back') (hlength : byteLength front = byteLength front') :
    front = front' ∧ back = back' := by
  obtain ⟨between, rfl, rfl⟩ := exists_append_of_byteLength_le h (Nat.le_of_eq hlength)
  rw [byteLength_append] at hlength
  obtain rfl := byteLength_eq_zero_iff.1 (by omega : byteLength between = 0)
  exact ⟨(List.append_nil _).symm, rfl⟩

namespace Correction

/-- The text `ds` is the text `cs`, which begins at an offset, with the piece under the span of each
correction replaced. The corrections are in ascending order, and all other pieces stay. -/
inductive Spliced : Nat → List Correction → List Char → List Char → Prop
  | rest (offset : Nat) (cs : List Char) : Spliced offset [] cs cs
  | next {offset : Nat} {corrections : List Correction} {cs ds : List Char} (kept old : List Char)
      (replacement : String)
      (later : Spliced (offset + byteLength kept + byteLength old) corrections cs ds) :
      Spliced offset (⟨⟨offset + byteLength kept, byteLength old⟩, replacement⟩ :: corrections)
        (kept ++ old ++ cs) (kept ++ replacement.toList ++ ds)

/-- An edit of a text in three parts replaces the middle one. -/
theorem edit?_append (front old back : List Char) (replacement : String) :
    (⟨⟨byteLength front, byteLength old⟩, replacement⟩ : Correction).edit? (front ++ old ++ back) =
      some (front ++ replacement.toList ++ back) := by
  have htake : takeBytes? (byteLength front) (front ++ old ++ back) = some front := by
    rw [List.append_assoc, takeBytes?_append]
  have hdrop : dropBytes? (byteLength front + byteLength old) (front ++ old ++ back) = some back := by
    rw [← byteLength_append, dropBytes?_append]
  simp only [edit?, Span.stop, htake, hdrop]
  rfl

theorem editAll?_append (corrections more : List Correction) (cs : List Char) :
    editAll? (corrections ++ more) cs = (editAll? corrections cs).bind (editAll? more) := by
  simp only [editAll?, List.foldlM_append]
  rfl

namespace Spliced

variable {offset : Nat} {corrections : List Correction} {cs ds : List Char}

/-- Splicing is what `splice` computes. -/
theorem splice_eq (h : Spliced offset corrections cs ds) :
    splice offset corrections cs = some ds := by
  induction h with
  | rest => rfl
  | @next offset corrections cs ds kept old replacement later ih =>
      have htake : takeBytes? (byteLength kept) (kept ++ old ++ cs) = some kept := by
        rw [List.append_assoc, takeBytes?_append]
      have hdrop :
          dropBytes? (byteLength kept + byteLength old) (kept ++ old ++ cs) = some cs := by
        rw [← byteLength_append, dropBytes?_append]
      have hstart : offset + byteLength kept - offset = byteLength kept := by omega
      have hstop : offset + byteLength kept + byteLength old - offset =
          byteLength kept + byteLength old := by omega
      simp only [splice, Span.stop, hstart, hstop, htake, hdrop]
      rw [Option.bind_eq_bind, Option.bind_some, Option.bind_some, ih]
      rfl

/-- A piece in front of the text stays. -/
theorem keep {kept : List Char} (h : Spliced (offset + byteLength kept) corrections cs ds) :
    Spliced offset corrections (kept ++ cs) (kept ++ ds) := by
  generalize hstart : offset + byteLength kept = start at h
  cases h with
  | rest => exact .rest _ _
  | @next _ corrections cs ds between old replacement later =>
      have hlater : Spliced (offset + byteLength (kept ++ between) + byteLength old) corrections cs
          ds := by
        rw [byteLength_append, ← Nat.add_assoc, hstart]
        exact later
      have hnext := Spliced.next (kept ++ between) old replacement hlater
      rw [byteLength_append, ← Nat.add_assoc, hstart] at hnext
      simpa only [List.append_assoc] using hnext

/-- Behind a front that ends where the spliced text begins, the edits can be made from the last to
the first, and the outcome is the spliced text. -/
theorem editAll?_reverse (h : Spliced offset corrections cs ds) (front : List Char)
    (hfront : byteLength front = offset) :
    editAll? corrections.reverse (front ++ cs) = some (front ++ ds) := by
  induction h generalizing front with
  | rest => rfl
  | @next offset corrections cs ds kept old replacement later ih =>
      have hlater := ih (front ++ kept ++ old) (by simp only [byteLength_append]; omega)
      have hedit := edit?_append (front ++ kept) old ds replacement
      rw [byteLength_append, hfront] at hedit
      have hcut : front ++ (kept ++ old ++ cs) = front ++ kept ++ old ++ cs := by simp
      rw [List.reverse_cons, editAll?_append, hcut, hlater, Option.bind_some]
      simp only [editAll?, List.foldlM_cons, List.foldlM_nil, hedit]
      simp

/-- What lies before all spans stays. -/
theorem exists_append {front : List Char} (h : Spliced offset corrections (front ++ cs) ds)
    (hle : ∀ correction ∈ corrections, offset + byteLength front ≤ correction.span.location) :
    ∃ rest, ds = front ++ rest ∧ Spliced (offset + byteLength front) corrections cs rest := by
  generalize hwhole : front ++ cs = whole at h
  cases h with
  | rest =>
      obtain rfl := hwhole.symm
      exact ⟨cs, rfl, .rest _ _⟩
  | @next _ corrections cs' ds' kept old replacement later =>
      have hkept : byteLength front ≤ byteLength kept := by
        have := hle _ List.mem_cons_self
        simp only at this
        omega
      rw [List.append_assoc] at hwhole
      obtain ⟨between, rfl, rfl⟩ := exists_append_of_byteLength_le hwhole hkept
      refine ⟨between ++ replacement.toList ++ ds', by simp, ?_⟩
      rw [byteLength_append, ← Nat.add_assoc] at later ⊢
      rw [← List.append_assoc]
      exact .next between old replacement later

/-- The spans are in ascending order, from the offset on. -/
theorem ascending (h : Spliced offset corrections cs ds) :
    (corrections.Pairwise fun a b => a.span.stop ≤ b.span.location) ∧
      ∀ correction ∈ corrections, offset ≤ correction.span.location := by
  induction h with
  | rest => exact ⟨.nil, by simp⟩
  | @next offset corrections cs ds kept old replacement later ih =>
      obtain ⟨hascending, hbehind⟩ := ih
      refine ⟨List.pairwise_cons.2 ⟨hbehind, hascending⟩, ?_⟩
      intro correction hc
      rcases List.mem_cons.1 hc with rfl | hc
      · exact Nat.le_add_right _ _
      · have := hbehind correction hc
        omega

/-- Replacements without a character add none of it to the text. -/
theorem count_le (c : Char) (h : Spliced offset corrections cs ds)
    (hreplacement : ∀ correction ∈ corrections, c ∉ correction.replacement.toList) :
    ds.count c ≤ cs.count c := by
  induction h with
  | rest => exact Nat.le_refl _
  | @next offset corrections cs ds kept old replacement later ih =>
      have hzero := List.count_eq_zero_of_not_mem (hreplacement _ List.mem_cons_self)
      have hrest := ih fun correction hc => hreplacement correction (List.mem_cons_of_mem _ hc)
      simp only [List.count_append, hzero]
      omega

/-- An edit that takes a character away leaves fewer of it, when no replacement brings it back. -/
theorem count_lt {c : Char} {front piece : List Char} {correction : Correction}
    (h : Spliced (byteLength front) corrections cs ds)
    (hreplacement : ∀ correction ∈ corrections, c ∉ correction.replacement.toList)
    (hcorrection : correction ∈ corrections)
    (hpiece : correction.span.chars? (front ++ cs) = some piece) (hmem : c ∈ piece) :
    ds.count c < cs.count c := by
  generalize hoffset : byteLength front = offset at h
  induction h generalizing front with
  | rest => cases hcorrection
  | @next offset corrections cs ds kept old replacement later ih =>
      have hzero := List.count_eq_zero_of_not_mem (hreplacement _ List.mem_cons_self)
      have hlater : ∀ correction ∈ corrections, c ∉ correction.replacement.toList :=
        fun correction hc => hreplacement correction (List.mem_cons_of_mem _ hc)
      simp only [List.count_append, hzero]
      rcases List.mem_cons.1 hcorrection with rfl | hcorrection
      · have hold : old = piece := by
          have hfound : (⟨offset + byteLength kept, byteLength old⟩ : Span).chars?
              (front ++ (kept ++ old ++ cs)) = some old :=
            Span.chars?_eq_some_iff.2 ⟨front ++ kept, cs, by simp, by simp [hoffset], rfl⟩
          exact Option.some.inj (hfound.symm.trans hpiece)
        have hpos := List.count_pos_iff.2 (hold ▸ hmem)
        have := later.count_le c hlater
        omega
      · have hrest := @ih (front ++ kept ++ old) hlater hcorrection (by simpa using hpiece)
          (by simp [hoffset, Nat.add_assoc])
        omega

end Spliced

/-- Corrections with a text under each span, the spans in ascending order, can be spliced. -/
theorem exists_spliced {source front : List Char} {corrections : List Correction} {cs : List Char}
    (hsource : source = front ++ cs)
    (hslices : ∀ correction ∈ corrections, (correction.span.chars? source).isSome)
    (hfront : ∀ correction ∈ corrections, byteLength front ≤ correction.span.location)
    (hascending : corrections.Pairwise fun a b => a.span.stop ≤ b.span.location) :
    ∃ ds, Spliced (byteLength front) corrections cs ds := by
  induction corrections generalizing front cs with
  | nil => exact ⟨cs, .rest _ _⟩
  | cons correction corrections ih =>
      obtain ⟨⟨location, length⟩, replacement⟩ := correction
      obtain ⟨old, hold⟩ := Option.isSome_iff_exists.1 (hslices _ List.mem_cons_self)
      obtain ⟨before, back, hparts, hbefore, hlength⟩ := Span.chars?_eq_some_iff.1 hold
      have hle : byteLength front ≤ byteLength before := by
        rw [hbefore]; exact hfront _ List.mem_cons_self
      rw [hsource, List.append_assoc] at hparts
      obtain ⟨kept, rfl, rfl⟩ := exists_append_of_byteLength_le hparts hle
      rw [List.pairwise_cons] at hascending
      have hparts : source = front ++ kept ++ old ++ back := by simp [hsource]
      obtain ⟨ds, later⟩ := ih hparts
        (fun c hc => hslices c (List.mem_cons_of_mem _ hc))
        (fun c hc => by
          have hc := hascending.1 c hc
          simp only [Span.stop] at hc hlength hbefore
          rw [byteLength_append, hbefore, hlength]
          exact hc)
        hascending.2
      refine ⟨kept ++ replacement.toList ++ ds, ?_⟩
      simp only [byteLength_append] at hbefore hlength later
      obtain rfl := hbefore
      obtain rfl := hlength
      rw [← List.append_assoc]
      exact .next kept old replacement later

end Correction

end SourceLint
