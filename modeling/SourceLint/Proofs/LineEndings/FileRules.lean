import SourceLint.Proofs.LineEndings.Structure
import SourceLint.Proofs.Rules.OpenRemarks
import SourceLint.Proofs.Rules.Places

/-!
# Rules on whole files with carriage returns

Each rule that looks at the whole text takes a carriage return before a newline for the end of the line, so it reports
the same with carriage returns, at the later places.
-/

namespace SourceLint

/-- The second violation is the first one in the text `cs` with carriage returns, whatever edits they carry. -/
structure Violation.Returned (cs : List Char) (v v' : Violation) : Prop where
  rule : v'.rule = v.rule
  severity : v'.severity = v.severity
  offset : v'.offset = returnedOffset cs v.offset
  reason : v'.reason = v.reason

/-! ### Characters up to a newline -/

section Spacing

variable {p : Char → Bool} (hnewline : p '\n' = false) (hreturn : p '\r' = false)

include hnewline hreturn

theorem takeWhile_withReturns (cs : List Char) : (withReturns cs).takeWhile p = cs.takeWhile p := by
  induction cs with
  | nil => rfl
  | cons c cs ih =>
      by_cases hc : c = '\n'
      · simp [hc, hnewline, hreturn]
      · rw [withReturns_cons hc, List.takeWhile_cons, List.takeWhile_cons, ih]

theorem dropWhile_withReturns (cs : List Char) : (withReturns cs).dropWhile p = withReturns (cs.dropWhile p) := by
  induction cs with
  | nil => rfl
  | cons c cs ih =>
      by_cases hc : c = '\n'
      · simp [hc, hnewline, hreturn]
      · rw [withReturns_cons hc, List.dropWhile_cons, List.dropWhile_cons, ih]
        split
        · rfl
        · rw [withReturns_cons hc]

end Spacing

/-- A text, last character first, with a carriage return before each newline. -/
def returnedBefore (before : List Char) : List Char := (withReturns before.reverse).reverse

theorem returnedBefore_newline (before : List Char) :
    returnedBefore ('\n' :: before) = '\n' :: '\r' :: returnedBefore before := by
  simp [returnedBefore]

theorem returnedBefore_cons {c : Char} (hc : c ≠ '\n') (before : List Char) :
    returnedBefore (c :: before) = c :: returnedBefore before := by
  simp [returnedBefore, withReturns_cons hc]

theorem head?_returnedBefore (before : List Char) : (returnedBefore before).head? = before.head? := by
  cases before with
  | nil => rfl
  | cons c before =>
      by_cases hc : c = '\n'
      · rw [hc, returnedBefore_newline, List.head?_cons, List.head?_cons]
      · rw [returnedBefore_cons hc, List.head?_cons, List.head?_cons]

theorem takeWhile_returnedBefore {p : Char → Bool} (hnewline : p '\n' = false) (before : List Char) :
    (returnedBefore before).takeWhile p = before.takeWhile p := by
  induction before with
  | nil => rfl
  | cons c before ih =>
      by_cases hc : c = '\n'
      · simp [hc, returnedBefore_newline, hnewline]
      · rw [returnedBefore_cons hc, List.takeWhile_cons, List.takeWhile_cons, ih]

theorem dropWhile_returnedBefore {p : Char → Bool} (hnewline : p '\n' = false) (before : List Char) :
    (returnedBefore before).dropWhile p = returnedBefore (before.dropWhile p) := by
  induction before with
  | nil => rfl
  | cons c before ih =>
      by_cases hc : c = '\n'
      · simp [hc, returnedBefore_newline, hnewline]
      · rw [returnedBefore_cons hc, List.dropWhile_cons, List.dropWhile_cons, ih]
        split
        · rfl
        · rw [returnedBefore_cons hc]

/-! ### Spans without newlines -/

/-- A piece without newlines has as many bytes with carriage returns. -/
theorem Relocation.span_returns_plain (front : List Char) {piece : List Char} (hpiece : '\n' ∉ piece)
    (back : List Char) :
    (Relocation.returns (front ++ piece ++ back)).span ⟨byteLength front, byteLength piece⟩ =
      ⟨byteLength (withReturns front), byteLength piece⟩ := by
  have hstart := returnedOffset_byteLength front (piece ++ back)
  have hstop := returnedOffset_byteLength (front ++ piece) back
  rw [← List.append_assoc] at hstart
  rw [withReturns_append, withReturns_eq_self hpiece, byteLength_append, byteLength_append] at hstop
  rw [Relocation.span, Relocation.offset_returns, Relocation.offset_returns, Span.stop, hstart, hstop, Span.ofBounds,
    Nat.add_sub_cancel_left]

/-! ### Commas -/

namespace CommaSpacing

variable {whole : List Char}

/-- The two sites are of one comma. -/
def Site.Returned (whole : List Char) (site site' : Site) : Prop :=
  ∃ front after, whole = front ++ ',' :: after ∧ site = ⟨byteLength front, front.reverse, after⟩ ∧
    site' = ⟨byteLength (withReturns front), returnedBefore front.reverse, withReturns after⟩

theorem sitesFrom_returned (front : List Char) {cs : List Char} (hwhole : whole = front ++ cs) :
    List.Forall₂ (Site.Returned whole) (sitesFrom (byteLength front) front.reverse cs)
      (sitesFrom (byteLength (withReturns front)) (returnedBefore front.reverse) (withReturns cs)) := by
  induction cs generalizing front with
  | nil => exact .nil
  | cons c cs ih =>
      have hlater := ih (front ++ [c]) (by rw [hwhole, List.append_assoc, List.singleton_append])
      rw [withReturns_append, byteLength_append, byteLength_append, List.reverse_append,
        List.reverse_singleton, List.singleton_append] at hlater
      by_cases hnewline : c = '\n'
      · subst hnewline
        rw [returnedBefore_newline] at hlater
        rw [withReturns_newline, sitesFrom, if_neg (by decide), sitesFrom, if_neg (by decide), sitesFrom,
          if_neg (by decide)]
        exact hlater
      · rw [returnedBefore_cons hnewline, withReturns_cons hnewline, withReturns_nil] at hlater
        rw [withReturns_cons hnewline, sitesFrom, sitesFrom]
        split
        · rename_i hcomma
          subst hcomma
          exact .cons ⟨front, cs, hwhole, rfl, rfl⟩ hlater
        · exact hlater

namespace Site.Returned

variable {site site' : Site}

theorem excessBefore (h : Returned whole site site') : site'.excessBefore = site.excessBefore := by
  obtain ⟨front, after, -, rfl, rfl⟩ := h
  rw [excessBefore_def, excessBefore_def, takeWhile_returnedBefore rfl, dropWhile_returnedBefore rfl,
    head?_returnedBefore]

theorem endsLine (h : Returned whole site site') : site'.endsLine = site.endsLine := by
  obtain ⟨front, after, -, rfl, rfl⟩ := h
  rw [endsLine_def, endsLine_def, dropWhile_withReturns rfl rfl]
  cases after.dropWhile isSpacing with
  | nil => rfl
  | cons c cs =>
      by_cases hc : c = '\n'
      · rw [hc]
        rfl
      · rw [withReturns_cons hc, List.head?_cons, List.head?_cons]

/-- The edit of a comma begins at the same place. -/
theorem location (h : Returned whole site site') :
    site'.offset - site'.excessBefore = returnedOffset whole (site.offset - site.excessBefore) := by
  rw [h.excessBefore]
  obtain ⟨front, after, hwhole, rfl, rfl⟩ := h
  rw [excessBefore_def]
  dsimp only
  split
  · rw [Nat.sub_zero, Nat.sub_zero, hwhole, returnedOffset_byteLength]
  · obtain ⟨gap, kept, hfront, hgap, hkept⟩ := exists_span isSpacing front.reverse
    have hparts : front = kept.reverse ++ gap.reverse := by
      rw [← List.reverse_append, ← hfront, List.reverse_reverse]
    have hspacing : ∀ c ∈ gap.reverse, isSpacing c = true := fun c hc => hgap c (List.mem_reverse.1 hc)
    have hplain : '\n' ∉ gap.reverse := fun hmem => Bool.noConfusion (hspacing '\n' hmem)
    have hlength : byteLength gap.reverse = gap.length := by
      rw [byteLength_of_spacing hspacing, List.length_reverse]
    rw [hfront, takeWhile_span hgap hkept, hwhole, hparts, withReturns_append, withReturns_eq_self hplain,
      byteLength_append, byteLength_append, hlength, Nat.add_sub_cancel, Nat.add_sub_cancel, List.append_assoc,
      returnedOffset_byteLength]

theorem correction? (h : Returned whole site site') :
    Option.Rel (fun e e' => e'.span.location = returnedOffset whole e.span.location) site.correction?
      site'.correction? := by
  have hspacing : site'.after.takeWhile isSpacing = site.after.takeWhile isSpacing := by
    obtain ⟨front, after, -, rfl, rfl⟩ := h
    exact takeWhile_withReturns rfl rfl after
  have hlocation := h.location
  rw [Site.correction?, Site.correction?, h.endsLine, hspacing]
  rw [h.excessBefore] at hlocation ⊢
  split
  · split
    · exact .none
    · exact .some hlocation
  · split
    · exact .none
    · exact .some hlocation

theorem accepts {context context' : Context} (hcontext : Context.Returned context context')
    (h : Returned context.source.toList site site') (filter : TokenFilter) :
    context'.accepts filter ⟨site'.offset, 1⟩ = context.accepts filter ⟨site.offset, 1⟩ := by
  obtain ⟨front, after, hsource, rfl, rfl⟩ := h
  have hspan := Relocation.span_returns_plain front (show '\n' ∉ [','] by decide) after
  have hnewline : ¬StandsAt ['\n'] (byteLength front) context.source.toList := fun hnewline =>
    absurd (Lexeme.eq_of_standsAt hsource hnewline) (by decide)
  have haccepts : context'.accepts filter ((Relocation.returns context.source.toList).span ⟨byteLength front, 1⟩) =
      context.accepts filter ⟨byteLength front, 1⟩ := hcontext.accepts filter hnewline
  rw [hsource, List.append_cons] at haccepts
  rw [← haccepts]
  exact congrArg _ hspan.symm

end Site.Returned

theorem violations_returned (severity : Severity) {context context' : Context} (h : Context.Returned context context') :
    List.Forall₂ (Violation.Returned context.source.toList) (violations severity context)
      (violations severity context') := by
  have hsites : List.Forall₂ (Site.Returned context.source.toList) (sites context.source.toList)
      (sites context'.source.toList) := by
    rw [h.source, toList_returned]
    exact sitesFrom_returned [] rfl
  rw [violations, violations, List.forall₂_map_left_iff, List.forall₂_map_right_iff]
  have hcommas := forall₂_filter hsites fun site site' hsite =>
    hsite.accepts h (.excluding [.comment, .string])
  exact (List.rel_filterMap (fun site site' hsite => hsite.correction?) hcommas).imp
    fun e e' hlocation => ⟨rfl, rfl, hlocation, rfl⟩

end CommaSpacing

/-! ### Runs of semicolons -/

namespace TrailingSemicolon

variable {whole : List Char}

theorem isRestBlank_withReturns {cs : List Char} (hreturn : '\r' ∉ cs) :
    isRestBlank (withReturns cs) = isRestBlank cs := by
  rw [isRestBlank, isRestBlank, dropWhile_withReturns rfl rfl]
  cases hrest : cs.dropWhile isSpacing with
  | nil => rfl
  | cons c rest =>
      have hc : c ≠ '\r' := by
        rintro rfl
        refine hreturn ((List.dropWhile_suffix isSpacing).subset ?_)
        rw [hrest]
        exact List.mem_cons_self
      by_cases hnewline : c = '\n'
      · rw [hnewline]
        rfl
      · rw [withReturns_cons hnewline]
        split <;> simp_all

/-- The two spans are of one run of semicolons. -/
def IsRunReturned (whole : List Char) (run run' : Span) : Prop :=
  ∃ front n back, whole = front ++ List.replicate (n + 1) ';' ++ back ∧ run = ⟨byteLength front, n + 1⟩ ∧
    run' = ⟨byteLength (withReturns front), n + 1⟩

theorem byteLength_semicolons (n : Nat) : byteLength (List.replicate n ';') = n := by
  induction n with
  | zero => rfl
  | succ n ih =>
      rw [List.replicate_succ, byteLength_cons, ih, Nat.add_comm]
      rfl

theorem semicolons_plain (n : Nat) : '\n' ∉ List.replicate n ';' :=
  fun hmem => absurd (List.eq_of_mem_replicate hmem) (by decide)

/-- A run is reported where it ends its line, in both texts. -/
theorem IsRunReturned.cons {front back : List Char} {n : Nat} {later later' : List Span} {goes : Bool}
    (hwhole : whole = front ++ List.replicate n ';' ++ back)
    (h : List.Forall₂ (IsRunReturned whole) later later') :
    List.Forall₂ (IsRunReturned whole)
      (if n ≠ 0 && goes then ⟨byteLength front + n - n, n⟩ :: later else later)
      (if n ≠ 0 && goes then ⟨byteLength (withReturns front) + n - n, n⟩ :: later' else later') := by
  cases n with
  | zero => exact h
  | succ n =>
      cases goes with
      | false => exact h
      | true =>
          rw [Nat.add_sub_cancel, Nat.add_sub_cancel]
          exact .cons ⟨front, n, back, hwhole, rfl, rfl⟩ h

theorem runsFrom_cons {c : Char} (hc : c ≠ ';') (offset run : Nat) (cs : List Char) :
    runsFrom offset run (c :: cs) =
      if run ≠ 0 && isRestBlank (c :: cs) then ⟨offset - run, run⟩ :: runsFrom (offset + c.utf8Size) 0 cs
      else runsFrom (offset + c.utf8Size) 0 cs := by
  rw [runsFrom, if_neg hc]

theorem runsFrom_returned (front : List Char) (n : Nat) {cs : List Char}
    (hwhole : whole = front ++ List.replicate n ';' ++ cs) (hreturn : '\r' ∉ cs) :
    List.Forall₂ (IsRunReturned whole) (runsFrom (byteLength front + n) n cs)
      (runsFrom (byteLength (withReturns front) + n) n (withReturns cs)) := by
  induction cs generalizing front n with
  | nil =>
      cases n with
      | zero => exact .nil
      | succ n =>
          rw [withReturns_nil, runsFrom, runsFrom, if_neg (Nat.succ_ne_zero n), if_neg (Nat.succ_ne_zero n),
            Nat.add_sub_cancel, Nat.add_sub_cancel]
          exact .cons ⟨front, n, [], hwhole, rfl, rfl⟩ .nil
  | cons c cs ih =>
      have hrest := (not_or.1 (mt List.mem_cons.2 hreturn)).2
      by_cases hsemicolon : c = ';'
      · subst hsemicolon
        have hlonger : whole = front ++ List.replicate (n + 1) ';' ++ cs := by
          rw [hwhole, List.replicate_succ']
          simp
        rw [withReturns_cons (by decide), runsFrom, if_pos rfl, runsFrom, if_pos rfl]
        exact ih front (n + 1) hlonger hrest
      · have hlater := ih (front ++ List.replicate n ';' ++ [c]) 0 (by simp [hwhole]) hrest
        have hfront : byteLength (front ++ List.replicate n ';' ++ [c]) = byteLength front + n + c.utf8Size := by
          rw [byteLength_append, byteLength_append, byteLength_semicolons]
          rfl
        have hfront' : byteLength (withReturns (front ++ List.replicate n ';' ++ [c])) =
            byteLength (withReturns front) + n + byteLength (withReturns [c]) := by
          rw [withReturns_append, withReturns_append, withReturns_eq_self (semicolons_plain n), byteLength_append,
            byteLength_append, byteLength_semicolons]
        rw [hfront, hfront', Nat.add_zero, Nat.add_zero] at hlater
        by_cases hnewline : c = '\n'
        · subst hnewline
          have hends : isRestBlank ('\n' :: cs) = true := rfl
          have hends' : isRestBlank ('\r' :: '\n' :: withReturns cs) = true := rfl
          rw [withReturns_newline, runsFrom_cons (c := '\n') (by decide), hends,
            runsFrom_cons (c := '\r') (by decide), hends', runsFrom_cons (c := '\n') (by decide) _ 0]
          exact IsRunReturned.cons hwhole hlater
        · have hblank := isRestBlank_withReturns hreturn
          rw [withReturns_cons hnewline] at hblank
          rw [withReturns_cons hnewline, withReturns_nil] at hlater
          rw [withReturns_cons hnewline, runsFrom_cons hsemicolon, runsFrom_cons hsemicolon, hblank]
          exact IsRunReturned.cons hwhole hlater

theorem IsRunReturned.accepts {context context' : Context} (hcontext : Context.Returned context context')
    {run run' : Span} (h : IsRunReturned context.source.toList run run') (filter : TokenFilter) :
    context'.accepts filter run' = context.accepts filter run := by
  obtain ⟨front, n, back, hsource, rfl, rfl⟩ := h
  have hspan := Relocation.span_returns_plain front (semicolons_plain (n + 1)) back
  rw [byteLength_semicolons, ← hsource] at hspan
  rw [← hspan]
  refine hcontext.accepts filter fun hnewline => ?_
  rw [List.append_assoc, List.replicate_succ, List.cons_append] at hsource
  exact absurd (Lexeme.eq_of_standsAt hsource hnewline) (by decide)

theorem violations_returned (severity : Severity) {context context' : Context} (h : Context.Returned context context') :
    List.Forall₂ (Violation.Returned context.source.toList) (violations severity context)
      (violations severity context') := by
  have hruns : List.Forall₂ (IsRunReturned context.source.toList) (runs context.source.toList)
      (runs context'.source.toList) := by
    rw [h.source, toList_returned]
    exact runsFrom_returned [] 0 rfl h.plain
  rw [violations, violations, List.forall₂_map_left_iff, List.forall₂_map_right_iff]
  refine (forall₂_filter hruns fun run run' hrun => hrun.accepts h (.excluding [.comment, .string])).imp ?_
  rintro _ _ ⟨front, n, back, hsource, rfl, rfl⟩
  refine ⟨rfl, rfl, ?_, rfl⟩
  show byteLength (withReturns front) = returnedOffset context.source.toList (byteLength front)
  rw [hsource, List.append_assoc, returnedOffset_byteLength]

end TrailingSemicolon

/-! ### Remarks about open work -/

namespace OpenRemark

variable {whole : List Char}

/-- The two markers are one word. -/
def Marker.Returned (whole : List Char) (marker marker' : Marker) : Prop :=
  ∃ front, whole = front ++ marker.word.toList ++ marker.after ∧ marker.word ∈ ["TODO", "FIXME"] ∧
    marker.offset = byteLength front ∧
      marker' = ⟨marker.word, byteLength (withReturns front), withReturns marker.after⟩

/-- Words do not go on at the end of a line. -/
theorem isWordChar_newline : isWordChar '\n' = false ∧ isWordChar '\r' = false := by decide +kernel

theorem word_plain {word : String} (hword : word ∈ ["TODO", "FIXME"]) : '\n' ∉ word.toList ∧ '\r' ∉ word.toList := by
  constructor
  · intro hmem
    cases isWordChar_newline.1.symm.trans (isWordChar_of_mem hword hmem)
  · intro hmem
    cases isWordChar_newline.2.symm.trans (isWordChar_of_mem hword hmem)

theorem isWordEnd_withReturns (cs : List Char) : isWordEnd (withReturns cs) = isWordEnd cs := by
  rw [Bool.eq_iff_iff, isWordEnd_iff, isWordEnd_iff]
  cases cs with
  | nil => rfl
  | cons c cs =>
      by_cases hc : c = '\n'
      · rw [hc, withReturns_newline, List.head?_cons, List.head?_cons, Option.any_some, Option.any_some,
          isWordChar_newline.1, isWordChar_newline.2]
      · rw [withReturns_cons hc, List.head?_cons, List.head?_cons]

/-- A marker begins with carriage returns where it does without them. -/
theorem markerAt?_returned {front cs : List Char} (hwhole : whole = front ++ cs) :
    Option.Rel (Marker.Returned whole) (markerAt? (byteLength front) cs)
      (markerAt? (byteLength (withReturns front)) (withReturns cs)) := by
  cases hfound : markerAt? (byteLength front) cs with
  | some marker =>
      obtain ⟨hoffset, hword, rfl, hends⟩ := markerAt?_eq_some_iff.1 hfound
      have hfound' : markerAt? (byteLength (withReturns front)) (withReturns (marker.word.toList ++ marker.after)) =
          some ⟨marker.word, byteLength (withReturns front), withReturns marker.after⟩ := by
        refine markerAt?_eq_some_iff.2 ⟨rfl, hword, ?_, (isWordEnd_withReturns _).trans hends⟩
        rw [withReturns_append, withReturns_eq_self (word_plain hword).1]
      rw [hfound']
      exact .some ⟨front, by rw [hwhole, List.append_assoc], hword, hoffset, rfl⟩
  | none =>
      cases hfound' : markerAt? (byteLength (withReturns front)) (withReturns cs) with
      | none => exact .none
      | some marker' =>
          exfalso
          obtain ⟨-, hword, hparts, hends⟩ := markerAt?_eq_some_iff.1 hfound'
          have hstarts : Lexeme.startsWith marker'.word.toList (withReturns cs) = true := by
            rw [hparts]
            exact Lexeme.startsWith_self_append _ _
          rw [startsWith_withReturns (word_plain hword).1 (word_plain hword).2] at hstarts
          obtain ⟨after, rfl⟩ := Lexeme.exists_of_startsWith hstarts
          rw [withReturns_append, withReturns_eq_self (word_plain hword).1] at hparts
          rw [← List.append_cancel_left hparts, isWordEnd_withReturns] at hends
          have hmarker := (markerAt?_eq_some_iff (m := ⟨marker'.word, byteLength front, after⟩)).2
            ⟨rfl, hword, rfl, hends⟩
          rw [hfound] at hmarker
          cases hmarker

theorem markersFrom_of_not_isWordChar {c : Char} (hc : isWordChar c = false) (offset : Nat) (withinWord : Bool)
    (cs : List Char) : markersFrom offset withinWord (c :: cs) = markersFrom (offset + c.utf8Size) false cs := by
  have hnone : markerAt? offset (c :: cs) = none := by
    rw [Option.eq_none_iff_forall_ne_some]
    intro marker hmarker
    obtain ⟨-, hword, hparts, -⟩ := markerAt?_eq_some_iff.1 hmarker
    obtain ⟨d, more, hchars⟩ := List.exists_cons_of_ne_nil (toList_ne_nil hword)
    rw [hchars] at hparts
    obtain ⟨rfl, -⟩ := List.cons.inj hparts
    have hd := isWordChar_of_mem hword (by rw [hchars]; exact List.mem_cons_self)
    rw [hc] at hd
    cases hd
  rw [markersFrom_cons, hnone, ite_self, hc]
  rfl

theorem markersFrom_returned (front : List Char) {cs : List Char} (hwhole : whole = front ++ cs) (withinWord : Bool) :
    List.Forall₂ (Marker.Returned whole) (markersFrom (byteLength front) withinWord cs)
      (markersFrom (byteLength (withReturns front)) withinWord (withReturns cs)) := by
  induction cs generalizing front withinWord with
  | nil => exact .nil
  | cons c cs ih =>
      have hlater := ih (front ++ [c]) (by rw [hwhole, List.append_assoc, List.singleton_append])
        (isWordChar c)
      rw [withReturns_append, byteLength_append, byteLength_append] at hlater
      by_cases hnewline : c = '\n'
      · subst hnewline
        rw [isWordChar_newline.1] at hlater
        rw [withReturns_newline, markersFrom_of_not_isWordChar isWordChar_newline.1,
          markersFrom_of_not_isWordChar isWordChar_newline.2, markersFrom_of_not_isWordChar isWordChar_newline.1]
        exact hlater
      · have hfirst : Option.Rel (Marker.Returned whole)
            (if withinWord then none else markerAt? (byteLength front) (c :: cs))
            (if withinWord then none else markerAt? (byteLength (withReturns front)) (withReturns (c :: cs))) := by
          cases withinWord with
          | true => exact .none
          | false => exact markerAt?_returned hwhole
        rw [withReturns_cons hnewline] at hfirst hlater ⊢
        rw [markersFrom_cons, markersFrom_cons]
        exact List.rel_append (forall₂_toList hfirst) hlater

/-- A remark ends with its line in both texts. -/
theorem restOfRemark_withReturns (cs : List Char) : restOfRemark (withReturns cs) = restOfRemark cs := by
  rw [restOfRemark, restOfRemark, restOfLine, restOfLine, takeWhile_withReturns rfl rfl]

namespace Marker.Returned

variable {marker marker' : Marker}

theorem reason (h : Returned whole marker marker') : marker'.reason = marker.reason := by
  obtain ⟨front, -, -, -, rfl⟩ := h
  rw [Marker.reason, Marker.reason, Marker.remark, Marker.remark, restOfRemark_withReturns]

theorem offset (h : Returned whole marker marker') : marker'.offset = returnedOffset whole marker.offset := by
  obtain ⟨front, hwhole, -, hoffset, rfl⟩ := h
  rw [hoffset, hwhole, List.append_assoc, returnedOffset_byteLength]

theorem accepts {context context' : Context} (hcontext : Context.Returned context context')
    (h : Returned context.source.toList marker marker') (filter : TokenFilter) :
    context'.accepts filter marker'.span = context.accepts filter marker.span := by
  obtain ⟨front, hsource, hword, hoffset, rfl⟩ := h
  have hspan := Relocation.span_returns_plain front (word_plain hword).1 marker.after
  rw [← hsource] at hspan
  rw [Marker.span, Marker.span, hoffset, ← hspan]
  refine hcontext.accepts filter fun hnewline => ?_
  obtain ⟨c, more, hchars⟩ := List.exists_cons_of_ne_nil (toList_ne_nil hword)
  rw [List.append_assoc, hchars, List.cons_append] at hsource
  obtain rfl := Lexeme.eq_of_standsAt hsource hnewline
  refine (word_plain hword).1 ?_
  rw [hchars]
  exact List.mem_cons_self

end Marker.Returned

theorem violations_returned (severity : Severity) {context context' : Context} (h : Context.Returned context context') :
    List.Forall₂ (Violation.Returned context.source.toList) (violations severity context)
      (violations severity context') := by
  have hmarkers : List.Forall₂ (Marker.Returned context.source.toList) (markers context.source.toList)
      (markers context'.source.toList) := by
    rw [h.source, toList_returned]
    exact markersFrom_returned [] rfl false
  rw [violations, violations, List.forall₂_map_left_iff, List.forall₂_map_right_iff]
  exact (forall₂_filter hmarkers fun _ _ hmarker => hmarker.accepts h (.only [.comment])).imp
    fun _ _ hmarker => ⟨rfl, rfl, hmarker.offset, hmarker.reason⟩

end OpenRemark

/-! ### Lengths of lines -/

namespace LineLength

/-- A line that is too long does not begin with a newline. -/
theorem not_standsAt_of_isTooLong {options : LineLengthOptions} {source : String} {line : Line}
    (hline : line ∈ (LineIndex.ofString source).lines) (hlong : isTooLong options line = true) :
    ¬StandsAt ['\n'] line.span.location source.toList := by
  intro hnewline
  have hslice := LineIndex.slice?_of_mem_lines hline
  have hplain := LineIndex.not_mem_of_mem_lines source line hline
  rw [Span.slice?_eq, Option.map_eq_some_iff] at hslice
  obtain ⟨piece, hpiece, htext⟩ := hslice
  obtain ⟨front, back, hsource, hlocation, -⟩ := Span.chars?_eq_some_iff.1 hpiece
  cases piece with
  | nil =>
      rw [isTooLong, ← htext] at hlong
      simp at hlong
  | cons c more =>
      rw [List.append_assoc, List.cons_append] at hsource
      rw [← hlocation] at hnewline
      obtain rfl := Lexeme.eq_of_standsAt hsource hnewline
      rw [← htext, String.toList_ofList] at hplain
      exact hplain List.mem_cons_self

theorem violations_returned (options : LineLengthOptions) {context context' : Context}
    (h : Context.Returned context context') :
    List.Forall₂ (Violation.Returned context.source.toList) (violations options context)
      (violations options context') := by
  have hlines : List.Forall₂ (fun line line' => line ∈ context.lines.lines ∧ line' = line.returned context.source)
      context.lines.lines context'.lines.lines := by
    rw [h.lines, h.lines', h.source, LineIndex.lines_returned h.plain, List.forall₂_map_right_iff,
      List.forall₂_same]
    exact fun line hline => ⟨hline, rfl⟩
  rw [violations, violations, List.forall₂_map_left_iff, List.forall₂_map_right_iff]
  refine (forall₂_filter hlines ?_).imp ?_
  · rintro line _ ⟨hline, rfl⟩
    have hlong : isTooLong options (line.returned context.source) = isTooLong options line := rfl
    rw [hlong]
    cases hfound : isTooLong options line with
    | false => rfl
    | true =>
        rw [h.lines] at hline
        have haccepts := h.accepts (.only [.comment]) (not_standsAt_of_isTooLong hline hfound)
        rw [isIgnored, isIgnored, Line.returned, haccepts]
  · rintro line _ ⟨-, rfl⟩
    exact ⟨rfl, rfl, rfl, rfl⟩

end LineLength

end SourceLint
