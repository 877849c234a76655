import SourceLint.Proofs.Correction.Splicing
import SourceLint.Proofs.Syntax.Enclosed
import SourceLint.Proofs.Text.Remarks

/-!
# What lies in a comment

A comment begins with a slash, and it ends before a newline or with its closing delimiter. So a word that shares a byte
with a comment lies in it, and what is said behind the word does not go beyond the comment.
-/

namespace SourceLint.Lexeme

/-- A comment, or what is left of one, ends before the text behind it: a line comment at a newline or at the end of
the text, and a block comment with its closing delimiter. -/
inductive EndsComment : (comment behind : List Char) → Prop
  | line {comment behind : List Char} (plain : '\n' ∉ comment) (ends : EndsLine behind) : EndsComment comment behind
  | block (inside behind : List Char) : EndsComment (inside ++ ['*', '/']) behind

variable {start n : Nat} {c : Char} {cs body behind piece front after : List Char}

/-- A slash begins a comment or is punctuation. -/
theorem endsComment_of_measureSlash (h : measureSlash start (body ++ behind) = .ok (.token .comment, body.length)) :
    EndsComment ('/' :: body) behind := by
  rw [measureSlash] at h
  split at h
  · obtain ⟨line, rest, hparts, hline, hends⟩ := exists_span (· != '\n') (body ++ behind)
    rw [hparts, takeWhile_span hline hends] at h
    obtain ⟨rfl, rfl⟩ := List.append_inj hparts (Prod.mk.inj (Except.ok.inj h)).2.symm
    refine .line (fun hmem => ?_) fun c hc => by simpa using hends c hc
    rcases List.mem_cons.1 hmem with hslash | hmem
    · cases hslash
    · simpa using hline _ hmem
  · split at h
    · rename_i hblock
      obtain ⟨comment, hcomment⟩ := exists_of_startsWith hblock
      split at h
      · rename_i m hm
        rw [hcomment] at hm
        obtain ⟨inside, rest, hinside, hlength, -⟩ := blockCommentTail_closed hm
        have hparts : body ++ behind = ('*' :: (inside ++ ['*', '/'])) ++ rest :=
          hcomment.trans (congrArg ('*' :: ·) hinside)
        obtain ⟨rfl, -⟩ := List.append_inj hparts (by
          rw [← (Prod.mk.inj (Except.ok.inj h)).2, List.length_cons, hlength])
        exact .block ('/' :: '*' :: inside) behind
      · cases h
    · cases (Prod.mk.inj (Except.ok.inj h)).1

/-- A comment begins with a slash and ends as comments end. -/
theorem endsComment_of_measure (h : measure start c (body ++ behind) = .ok (.token .comment, body.length)) :
    c = '/' ∧ EndsComment (c :: body) behind := by
  rcases first_of_shields h rfl with rfl | rfl | rfl
  · exact ⟨rfl, endsComment_of_measureSlash h⟩
  · obtain ⟨k, -, hresult⟩ := exceptMap_eq_ok_iff.1 h
    cases (Prod.mk.inj hresult).1
  · have hhash : measureHash start (body ++ behind) = .ok (.token .comment, body.length) := h
    rw [measureHash] at hhash
    split at hhash
    · obtain ⟨k, -, hresult⟩ := exceptMap_eq_ok_iff.1 hhash
      cases (Prod.mk.inj hresult).1
    · split at hhash
      all_goals cases hhash

/-- Two lists that end alike have a common element. -/
theorem exists_mem_of_append_eq_append {α : Type} {xs ys zs ws : List α} (h : xs ++ ys = zs ++ ws) (hys : ys ≠ [])
    (hws : ws ≠ []) : ∃ e ∈ ys, e ∈ ws := by
  have hlast : ys.getLast? = ws.getLast? := by
    rw [← List.getLast?_append_of_ne_nil xs hys, h, List.getLast?_append_of_ne_nil zs hws]
  rw [List.getLast?_eq_some_getLast hys] at hlast
  exact ⟨ys.getLast hys, List.getLast_mem hys, List.mem_of_getLast? hlast.symm⟩

namespace EndsComment

/-- What is left of a comment behind a piece of it without the characters of delimiters and newlines. -/
theorem of_append {rest : List Char} (h : EndsComment (front ++ (piece ++ rest)) behind) (hpiece : piece ≠ [])
    (hplain : ∀ c ∈ piece, c ∉ ['*', '/', '\n']) : EndsComment rest behind := by
  generalize hwhole : front ++ (piece ++ rest) = whole at h
  cases h with
  | line plain ends =>
      subst hwhole
      exact .line (fun hmem => plain (List.mem_append_right _ (List.mem_append_right _ hmem))) ends
  | block inside =>
      rw [← List.append_assoc] at hwhole
      rcases List.append_eq_append_iff.1 hwhole with ⟨left, -, rfl⟩ | ⟨right, hbeyond, hdelimiter⟩
      · exact .block left behind
      · -- A part of the delimiter would be the end of the piece.
        obtain rfl : right = [] := by
          by_contra hright
          obtain ⟨e, he, he'⟩ := exists_mem_of_append_eq_append hbeyond hpiece hright
          have hmem : e ∈ ['*', '/'] := hdelimiter ▸ List.mem_append_left rest he'
          exact hplain e he (List.mem_append_left ['\n'] hmem)
        rw [List.nil_append] at hdelimiter
        exact hdelimiter ▸ .block [] behind

/-- Where a comment ends within a text, there is a character of a delimiter or a newline on one of the two sides. -/
theorem exists_mem_of_end {inside first beyond : List Char} (h : EndsComment (inside ++ first) (beyond ++ after))
    (hfirst : first ≠ []) (hbeyond : beyond ≠ []) : ∃ c ∈ first ++ beyond, c ∈ ['*', '/', '\n'] := by
  generalize hwhole : inside ++ first = whole at h
  cases h with
  | line plain ends =>
      cases beyond with
      | nil => exact absurd rfl hbeyond
      | cons c beyond =>
          obtain rfl := ends c rfl
          exact ⟨'\n', by simp, by simp⟩
  | block left =>
      obtain ⟨e, he, hmem⟩ := exists_mem_of_append_eq_append hwhole hfirst (by simp)
      exact ⟨e, List.mem_append_left beyond he, List.mem_append_left ['\n'] hmem⟩

/-- A piece without the characters of delimiters and newlines that shares a byte with a comment lies in it, and the
rest of the comment ends where the comment ends. -/
theorem exists_within {before : List Char} (h : EndsComment ('/' :: body) behind) (hpiece : piece ≠ [])
    (hplain : ∀ c ∈ piece, c ∉ ['*', '/', '\n'])
    (hparts : front ++ (piece ++ after) = before ++ ('/' :: body ++ behind))
    (hbegins : byteLength before < byteLength (front ++ piece))
    (hends : byteLength front < byteLength (before ++ '/' :: body)) :
    ∃ inside rest, front = before ++ inside ∧ '/' :: body = inside ++ (piece ++ rest) ∧ after = rest ++ behind ∧
      EndsComment rest behind := by
  rw [byteLength_append] at hbegins hends
  have hle : byteLength before ≤ byteLength front := by
    by_contra hlt
    obtain ⟨between, rfl, hrest⟩ := exists_append_of_byteLength_le hparts (by omega)
    rw [byteLength_append] at hbegins
    obtain ⟨inside, rfl, hslash⟩ := exists_append_of_byteLength_le hrest.symm (by omega)
    cases inside with
    | nil => simp at hbegins
    | cons c inside =>
        obtain ⟨rfl, -⟩ := List.cons.inj hslash
        exact hplain '/' (by simp) (by simp)
  obtain ⟨inside, rfl, hcomment⟩ := exists_append_of_byteLength_le hparts.symm hle
  rw [byteLength_append] at hends
  have hle' : byteLength (inside ++ piece) ≤ byteLength ('/' :: body) := by
    by_contra hlt
    rw [← List.append_assoc] at hcomment
    obtain ⟨beyond, hbeyond, hbehind⟩ := exists_append_of_byteLength_le hcomment (by omega)
    obtain ⟨start, hbody, hpieces⟩ := exists_append_of_byteLength_le hbeyond (by omega)
    have hstart : start ≠ [] := by
      rintro rfl
      rw [hbody, List.append_nil] at hends
      omega
    have hmore : beyond ≠ [] := by
      rintro rfl
      rw [hbeyond, List.append_nil] at hlt
      omega
    rw [hbody, hbehind] at h
    obtain ⟨c, hc, hmem⟩ := h.exists_mem_of_end hstart hmore
    exact hplain c (hpieces ▸ hc) hmem
  rw [← List.append_assoc] at hcomment
  obtain ⟨rest, hrest, rfl⟩ := exists_append_of_byteLength_le hcomment.symm hle'
  rw [List.append_assoc] at hrest
  exact ⟨inside, rest, rfl, hrest, rfl, (hrest ▸ h).of_append hpiece hplain⟩

/-- What a comment says from some place on lies in it. -/
theorem restOfRemark_prefix (h : EndsComment cs behind) : restOfRemark (cs ++ behind) <+: cs := by
  obtain ⟨rest, hparts, -, hline, hnone⟩ := exists_of_restOfRemark (cs ++ behind)
  have hprefix : restOfRemark (cs ++ behind) <+: cs ++ behind := ⟨rest, hparts.symm⟩
  cases h with
  | line plain ends =>
      cases behind with
      | nil => rwa [List.append_nil] at hprefix ⊢
      | cons c behind =>
          obtain rfl := ends c rfl
          exact prefix_of_prefix_append_cons (fun hmem => (hline _ hmem).1 rfl) hprefix
  | block inside behind =>
      rcases List.prefix_or_prefix_of_prefix hprefix (List.prefix_append (inside ++ ['*', '/']) behind) with hin | hout
      · exact hin
      · exact absurd ((List.suffix_append inside ['*', '/']).isInfix.trans hout.isInfix) hnone

end EndsComment

end SourceLint.Lexeme
