import SourceLint.Grammar.Source
import SourceLint.Proofs.Bytes.Scanning
import SourceLint.Proofs.Syntax.Restarting

/-!
# Terms and their texts

Terms are the expressions that consist of names, array and dictionary literals and calls of names. A term is printed
without blanks, and cutting the text into lexemes gives a lexeme for each name and for each mark of punctuation.

## Main definitions

* `Term`, `Term.print` — terms and their texts.
* `Term.forest` — the nodes that a term stands for, from an offset on.
* `Term.lexemes` — the lexemes of the text of a term, from an offset on.

## Main result

* `Term.ofSource_print` — the text of a term is cut into its lexemes.
-/

namespace SourceLint

/-! ### Names -/

/-- A name that begins with a letter of ASCII, goes on with such letters, digits and underscores, and is no
keyword. -/
structure Word where
  first : Char
  others : List Char
  isLetter : first.isAlpha = true
  areWordChars : ∀ c ∈ others, (c.isAlphanum || c == '_') = true
  isNoKeyword : Lexeme.keywords.contains (String.ofList (first :: others)) = false

namespace Word

def chars (word : Word) : List Char := word.first :: word.others

def text (word : Word) : String := String.ofList word.chars

def size (word : Word) : Nat := byteLength word.chars

/-- The name as a lexeme at an offset, right behind what is before it. -/
def lexeme (word : Word) (offset : Nat) : Lexeme := ⟨.token .identifier, "", offset, word.text⟩

theorem utf8ByteSize_text (word : Word) : word.text.utf8ByteSize = word.size := Lexeme.utf8ByteSize_ofList _

end Word

/-! ### Terms -/

/-- A name, an array or a dictionary literal, or a call of a name. -/
inductive Term where
  | word (word : Word)
  | array (items : List Term)
  | dictionary (entries : List (Term × Term))
  | call (callee : Word) (arguments : List Term)

namespace Term

/-- What holds of a term when it holds of all terms in it, holds of every term. -/
@[elab_as_elim]
theorem induction {P : Term → Prop} (word : ∀ name, P (.word name))
    (array : ∀ items, (∀ t ∈ items, P t) → P (.array items))
    (dictionary : ∀ entries, (∀ entry ∈ entries, P entry.1 ∧ P entry.2) → P (.dictionary entries))
    (call : ∀ callee arguments, (∀ t ∈ arguments, P t) → P (.call callee arguments)) (t : Term) : P t :=
  @Term.rec P (fun items => ∀ t ∈ items, P t) (fun entries => ∀ entry ∈ entries, P entry.1 ∧ P entry.2)
    (fun entry => P entry.1 ∧ P entry.2) word array dictionary call
    (List.forall_mem_nil _) (fun _ _ ht hitems => List.forall_mem_cons.2 ⟨ht, hitems⟩)
    (List.forall_mem_nil _) (fun _ _ hentry hentries => List.forall_mem_cons.2 ⟨hentry, hentries⟩)
    (fun _ _ hkey hvalue => ⟨hkey, hvalue⟩) t

mutual

/-- The text of a term. -/
def chars : Term → List Char
  | word name => name.chars
  | array items => '[' :: (charsAll items ++ [']'])
  | dictionary entries => '[' :: (charsEntries entries ++ [']'])
  | call callee arguments => callee.chars ++ '(' :: (charsAll arguments ++ [')'])

/-- The texts of some terms with commas between them. -/
def charsAll : List Term → List Char
  | [] => []
  | t :: others => t.chars ++ if others.isEmpty then [] else ',' :: charsAll others

/-- The texts of the entries of a dictionary with commas between them, or a colon if there are none. -/
def charsEntries : List (Term × Term) → List Char
  | [] => [':']
  | (key, value) :: others =>
    key.chars ++ ':' :: (value.chars ++ if others.isEmpty then [] else ',' :: charsEntries others)

end

/-- The text of a term, without blanks. -/
def print (t : Term) : String := String.ofList t.chars

/-- The number of bytes in the text of a term. -/
def size (t : Term) : Nat := byteLength t.chars

/-- A literal has two brackets around its items. -/
theorem size_array (items : List Term) : (array items).size = byteLength (charsAll items) + 2 := by
  rw [size, chars, byteLength_cons, byteLength_append, Nat.add_comm]
  rfl

theorem size_dictionary (entries : List (Term × Term)) :
    (dictionary entries).size = byteLength (charsEntries entries) + 2 := by
  rw [size, chars, byteLength_cons, byteLength_append, Nat.add_comm]
  rfl

theorem size_call (callee : Word) (arguments : List Term) :
    (call callee arguments).size = callee.size + (byteLength (charsAll arguments) + 2) := by
  rw [size, chars, byteLength_append, byteLength_cons, byteLength_append, Nat.add_comm (Char.utf8Size '(')]
  rfl

mutual

/-- The nodes of a term whose text begins at an offset: none for a name, else one for the whole text, with the text
between the delimiters for its body and the nodes of its parts for its children. -/
def forest : Term → (offset : Nat) → List Node
  | word _, _ => []
  | array items, offset =>
    [{ kind := .array, span := ⟨offset, (array items).size⟩
       body := some ⟨offset + 1, byteLength (charsAll items)⟩, children := forestAll items (offset + 1) }]
  | dictionary entries, offset =>
    [{ kind := .dictionary, span := ⟨offset, (dictionary entries).size⟩
       body := some ⟨offset + 1, byteLength (charsEntries entries)⟩
       children := forestEntries entries (offset + 1) }]
  | call callee arguments, offset =>
    [{ kind := .call, span := ⟨offset, (call callee arguments).size⟩
       name := callee.text, nameSpan := some ⟨offset, callee.size⟩
       body := some ⟨offset + callee.size + 1, byteLength (charsAll arguments)⟩
       children := forestAll arguments (offset + callee.size + 1) }]

/-- The nodes of some terms with commas between them. -/
def forestAll : List Term → (offset : Nat) → List Node
  | [], _ => []
  | t :: others, offset => t.forest offset ++ forestAll others (offset + t.size + 1)

/-- The nodes of the entries of a dictionary. -/
def forestEntries : List (Term × Term) → (offset : Nat) → List Node
  | [], _ => []
  | (key, value) :: others, offset =>
    key.forest offset ++ (value.forest (offset + key.size + 1) ++
      forestEntries others (offset + key.size + 1 + value.size + 1))

end

/-- A mark of punctuation at an offset, right behind what is before it. -/
def mark (c : Char) (offset : Nat) : Lexeme := ⟨.punctuation, "", offset, String.ofList [c]⟩

mutual

/-- The lexemes of a term whose text begins at an offset. -/
def lexemes : Term → (offset : Nat) → List Lexeme
  | word name, offset => [name.lexeme offset]
  | array items, offset =>
    mark '[' offset :: (lexemesAll items (offset + 1) ++
      [mark ']' (offset + 1 + byteLength (charsAll items))])
  | dictionary entries, offset =>
    mark '[' offset :: (lexemesEntries entries (offset + 1) ++
      [mark ']' (offset + 1 + byteLength (charsEntries entries))])
  | call callee arguments, offset =>
    callee.lexeme offset :: mark '(' (offset + callee.size) ::
      (lexemesAll arguments (offset + callee.size + 1) ++
        [mark ')' (offset + callee.size + 1 + byteLength (charsAll arguments))])

/-- The lexemes of some terms with commas between them. -/
def lexemesAll : List Term → (offset : Nat) → List Lexeme
  | [], _ => []
  | t :: others, offset =>
    t.lexemes offset ++
      if others.isEmpty then [] else mark ',' (offset + t.size) :: lexemesAll others (offset + t.size + 1)

/-- The lexemes of the entries of a dictionary. -/
def lexemesEntries : List (Term × Term) → (offset : Nat) → List Lexeme
  | [], offset => [mark ':' offset]
  | (key, value) :: others, offset =>
    key.lexemes offset ++ mark ':' (offset + key.size) :: (value.lexemes (offset + key.size + 1) ++
      if others.isEmpty then []
      else mark ',' (offset + key.size + 1 + value.size) ::
        lexemesEntries others (offset + key.size + 1 + value.size + 1))

end

end Term

/-! ### Cutting -/

namespace Lexeme

/-- The marks of punctuation in the texts of terms. -/
def marks : List Char := ['[', ']', '(', ')', ',', ':']

/-- What holds of all characters in a list can be computed. -/
theorem forall_of_all {ds : List Char} {P : Char → Prop} [DecidablePred P]
    (h : (ds.all fun d => decide (P d)) = true) : ∀ d ∈ ds, P d :=
  fun d hd => of_decide_eq_true (List.all_eq_true.1 h d hd)

theorem byteLength_mark {d : Char} (hd : d ∈ marks) (cs : List Char) : byteLength (d :: cs) = byteLength cs + 1 := by
  have hone : ∀ d ∈ marks, d.utf8Size = 1 := forall_of_all (by decide)
  rw [byteLength_cons, hone d hd, Nat.add_comm]

theorem measure_mark {c : Char} (hc : c ∈ marks) (start : Nat) (cs : List Char) :
    measure start c cs = .ok (.punctuation, 0) := by
  simp only [marks, List.mem_cons, List.not_mem_nil, or_false] at hc
  obtain rfl | rfl | rfl | rfl | rfl | rfl := hc <;> rfl

/-- What holds of each of the first 128 characters, holds of every character that is not beyond ASCII. -/
theorem of_not_isHigh {P : Char → Prop} (hP : ∀ n < 128, P (Char.ofNat n)) {c : Char} (hc : ¬IsHigh c) : P c := by
  have h := hP c.toNat (Nat.lt_of_not_le hc)
  rwa [Char.ofNat_toNat] at h

theorem not_isHigh_of_isAlphanum {c : Char} (hc : (c.isAlphanum || c == '_') = true) : ¬IsHigh c := by
  intro hhigh
  have hunderscore : (c == '_') = false := beq_false_of_ne (ne_of_isHigh hhigh (by decide))
  rw [Char.isAlphanum, isAlpha_of_isHigh hhigh, isDigit_of_isHigh hhigh, hunderscore] at hc
  cases hc

theorem isAlphanum_of_isAlpha {c : Char} (hc : c.isAlpha = true) : (c.isAlphanum || c == '_') = true := by
  rw [Char.isAlphanum, hc, Bool.true_or, Bool.true_or]

theorem isLayout_of_isAlpha {c : Char} (hc : c.isAlpha = true) : isLayout c = false :=
  of_not_isHigh (P := fun c => c.isAlpha = true → isLayout c = false) (by decide)
    (not_isHigh_of_isAlphanum (isAlphanum_of_isAlpha hc)) hc

theorem isWordPart_of_isAlphanum {c : Char} (hc : (c.isAlphanum || c == '_') = true) : isWordPart c = true :=
  of_not_isHigh (P := fun c => (c.isAlphanum || c == '_') = true → isWordPart c = true) (by decide)
    (not_isHigh_of_isAlphanum hc) hc

/-- A letter begins a word. -/
theorem measure_of_isAlpha {c : Char} (hc : c.isAlpha = true) (start : Nat) (cs : List Char) :
    measure start c cs = .ok (.token (wordKind (c :: cs.takeWhile isWordPart)), wordTail cs) := by
  obtain ⟨hmarks, hdigit, hoperator⟩ :
      c ∉ ['/', '"', '#', '\x60', '@', '$', '.'] ∧ c.isDigit = false ∧ isOperatorChar c = false :=
    of_not_isHigh (P := fun c => c.isAlpha = true →
        c ∉ ['/', '"', '#', '\x60', '@', '$', '.'] ∧ c.isDigit = false ∧ isOperatorChar c = false) (by decide)
      (not_isHigh_of_isAlphanum (isAlphanum_of_isAlpha hc)) hc
  simp only [List.mem_cons, List.not_mem_nil, or_false, not_or] at hmarks
  have hstart : isWordStart c = true := by rw [isWordStart, hc, Bool.true_or, Bool.true_or]
  simp [measure, hmarks, hdigit, hoperator, hstart, take_wordTail]

/-- The text does not go on with a character of a word. -/
def EndsWord (cs : List Char) : Prop := ∀ c ∈ cs.head?, isWordPart c = false

theorem endsWord_nil : EndsWord [] := fun c hc => (Option.not_mem_none c hc).elim

theorem EndsWord.append {cs behind : List Char} (hcs : EndsWord cs) (hbehind : EndsWord behind) :
    EndsWord (cs ++ behind) := by
  cases cs with
  | nil => exact hbehind
  | cons c cs => exact hcs

/-- The text `cs` at an offset is cut into these lexemes, which have no blanks or comments between them, whatever is
behind it and does not go on with its last word. -/
structure Cuts (cs : List Char) (offset : Nat) (lexemes : List Lexeme) : Prop where
  scan_append : ∀ {behind : List Char} {rest : List Lexeme}, EndsWord behind →
    scan (offset + byteLength cs) "" behind = .ok rest → scan offset "" (cs ++ behind) = .ok (lexemes ++ rest)
  isTight : ∀ x ∈ lexemes, x.gap = "" ∧ x.isComment = false

namespace Cuts

variable {cs ds : List Char} {offset : Nat} {xs ys : List Lexeme}

theorem nil (offset : Nat) : Cuts [] offset [] := ⟨fun _ hrest => hrest, List.forall_mem_nil _⟩

theorem append (hcs : Cuts cs offset xs) (hds : Cuts ds (offset + byteLength cs) ys) (hends : EndsWord ds) :
    Cuts (cs ++ ds) offset (xs ++ ys) := by
  refine ⟨fun hbehind hrest => ?_, List.forall_mem_append.2 ⟨hcs.isTight, hds.isTight⟩⟩
  rw [byteLength_append, ← Nat.add_assoc] at hrest
  rw [List.append_assoc, List.append_assoc]
  exact hcs.scan_append (hends.append hbehind) (hds.scan_append hbehind hrest)

/-- A lexeme of one character is cut off before what is behind it. -/
theorem mark {c : Char} (hc : c ∈ marks) (hcs : Cuts cs (offset + 1) xs) :
    Cuts (c :: cs) offset (Term.mark c offset :: xs) := by
  have hlayout : ∀ c ∈ marks, isLayout c = false := forall_of_all (by decide)
  have htight : (Term.mark c offset).gap = "" ∧ (Term.mark c offset).isComment = false := ⟨rfl, rfl⟩
  refine ⟨fun {behind rest} hbehind hrest => ?_, List.forall_mem_cons.2 ⟨htight, hcs.isTight⟩⟩
  rw [byteLength_mark hc, Nat.add_comm (byteLength cs), ← Nat.add_assoc] at hrest
  have hone : byteLength (c :: (cs ++ behind).take 0) = 1 := by
    rw [List.take_zero, byteLength_mark hc, byteLength_nil]
  rw [List.cons_append, scan_of_measure (by rw [hlayout c hc]; decide) (measure_mark hc offset _), hone, List.drop_zero,
    hcs.scan_append hbehind hrest]
  rfl

/-- A name is cut off whole. -/
theorem word (name : Word) (offset : Nat) : Cuts name.chars offset [name.lexeme offset] := by
  refine ⟨fun {behind rest} hbehind hrest => ?_, List.forall_mem_singleton.2 ⟨rfl, rfl⟩⟩
  have hrun : (name.others ++ behind).takeWhile isWordPart = name.others :=
    takeWhile_span (fun c hc => isWordPart_of_isAlphanum (name.areWordChars c hc)) hbehind
  have htail : wordTail (name.others ++ behind) = name.others.length := by rw [wordTail, hrun]
  have hkind : wordKind (name.first :: name.others) = .identifier := by rw [wordKind, name.isNoKeyword]; rfl
  have hmeasure := measure_of_isAlpha name.isLetter offset (name.others ++ behind)
  rw [hrun, hkind, htail] at hmeasure
  rw [Word.chars, List.cons_append, scan_of_measure (by rw [isLayout_of_isAlpha name.isLetter]; decide) hmeasure,
    List.take_left, List.drop_left]
  rw [Word.chars] at hrest
  rw [hrest]
  rfl

end Cuts

/-- Without blanks and comments all lexemes are significant as they are. -/
theorem significant_of_isTight {lexemes : List Lexeme} (h : ∀ x ∈ lexemes, x.gap = "" ∧ x.isComment = false) :
    significant "" lexemes = lexemes := by
  induction lexemes with
  | nil => rfl
  | cons x lexemes ih =>
      obtain ⟨⟨hgap, hcomment⟩, hlexemes⟩ := List.forall_mem_cons.1 h
      rw [significant_other hcomment, ih hlexemes, String.empty_append]

end Lexeme

/-! ### Cutting the text of a term -/

namespace Term

open Lexeme

theorem endsWord_mark {c : Char} (hc : c ∈ marks) (cs : List Char) : EndsWord (c :: cs) := by
  rintro _ ⟨⟩
  have hends : ∀ c ∈ marks, isWordPart c = false := forall_of_all (by decide)
  exact hends c hc

/-- Texts with commas between them are cut one after the other. -/
theorem cuts_charsAll {items : List Term} (h : ∀ t ∈ items, ∀ offset, Cuts t.chars offset (t.lexemes offset))
    (offset : Nat) : Cuts (charsAll items) offset (lexemesAll items offset) := by
  induction items generalizing offset with
  | nil => exact .nil offset
  | cons t others ih =>
      rw [charsAll, lexemesAll]
      refine (h t List.mem_cons_self offset).append ?_ ?_
      all_goals split
      · exact .nil _
      · exact .mark (by decide) (ih (fun t ht => h t (List.mem_cons_of_mem _ ht)) _)
      · exact endsWord_nil
      · exact endsWord_mark (by decide) _

theorem cuts_charsEntries {entries : List (Term × Term)}
    (h : ∀ entry ∈ entries, (∀ offset, Cuts entry.1.chars offset (entry.1.lexemes offset)) ∧
      ∀ offset, Cuts entry.2.chars offset (entry.2.lexemes offset))
    (offset : Nat) : Cuts (charsEntries entries) offset (lexemesEntries entries offset) := by
  induction entries generalizing offset with
  | nil => exact .mark (by decide) (.nil _)
  | cons entry others ih =>
      obtain ⟨hkey, hvalue⟩ := h entry List.mem_cons_self
      rw [charsEntries, lexemesEntries]
      refine (hkey offset).append (.mark (by decide) ((hvalue _).append ?_ ?_)) (endsWord_mark (by decide) _)
      all_goals split
      · exact .nil _
      · exact .mark (by decide) (ih (fun entry hentry => h entry (List.mem_cons_of_mem _ hentry)) _)
      · exact endsWord_nil
      · exact endsWord_mark (by decide) _

theorem cuts_chars (t : Term) : ∀ offset, Cuts t.chars offset (t.lexemes offset) := by
  induction t using Term.induction with
  | word name =>
      intro offset
      rw [chars, lexemes]
      exact .word name offset
  | array items ih =>
      intro offset
      rw [chars, lexemes]
      exact .mark (by decide) ((cuts_charsAll ih _).append (.mark (by decide) (.nil _)) (endsWord_mark (by decide) _))
  | dictionary entries ih =>
      intro offset
      rw [chars, lexemes]
      exact .mark (by decide) ((cuts_charsEntries ih _).append (.mark (by decide) (.nil _))
        (endsWord_mark (by decide) _))
  | call callee arguments ih =>
      intro offset
      rw [chars, lexemes]
      exact (Cuts.word callee offset).append (.mark (by decide) ((cuts_charsAll ih _).append
        (.mark (by decide) (.nil _)) (endsWord_mark (by decide) _))) (endsWord_mark (by decide) _)

/-- The text of a term is cut into its lexemes. -/
theorem ofSource_print (t : Term) : ofSource t.print = .ok (t.lexemes 0) := by
  have h := (t.cuts_chars 0).scan_append endsWord_nil (scan.eq_1 _ _)
  rw [List.append_nil, List.append_nil] at h
  rw [ofSource, print, String.toList_ofList, h]

end Term

end SourceLint
