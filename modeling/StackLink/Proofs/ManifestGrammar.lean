import StackLink.Proofs.Manifest

/-!
# The grammar of manifests

A text divides into lines and a line into words in one way only. The words of a line decide whether it is
blank, denotes a symbol or is malformed, and reading a manifest reports just that, line by line. A line that denotes
a symbol can also be described as one pattern of characters, and however the pattern is laid on the line, the symbol is
the same.
-/
namespace StackLink

namespace Text

def IsBlanks (text : List Char) : Prop :=
  ∀ c ∈ text, isBlank c

/-- A text of these words, with blanks around and between them. -/
inductive HasWords : List Char → List (List Char) → Prop
  | nil : HasWords [] []
  | blank {c : Char} {rest : List Char} {words : List (List Char)} :
      isBlank c → HasWords rest words → HasWords (c :: rest) words
  | last {word : List Char} : IsWord word → HasWords word [word]
  | cons {word : List Char} {c : Char} {rest : List Char} {words : List (List Char)} :
      IsWord word → isBlank c → HasWords rest words → HasWords (word ++ c :: rest) (word :: words)

private theorem words_of_hasWords {text : List Char} {found : List (List Char)} (h : HasWords text found) :
    words text = found := by
  induction h with
  | nil => rfl
  | blank hc _ ih => rw [words_cons_of_blank hc, ih]
  | last hword => exact words_of_isWord hword
  | cons hword hc _ ih => rw [words_append_blank hword hc, ih]

private theorem isWord_cons {c : Char} (hc : ¬isBlank c) {rest : List Char} (h : ∀ d ∈ rest, ¬isBlank d) :
    IsWord (c :: rest) :=
  ⟨List.cons_ne_nil _ _, List.forall_mem_cons.mpr ⟨hc, h⟩⟩

/-- A character that is no blank starts a word of its own or makes the first word longer. -/
private theorem HasWords.exists_cons {c : Char} (hc : ¬isBlank c) {rest : List Char} {words : List (List Char)}
    (h : HasWords rest words) : ∃ found, HasWords (c :: rest) found := by
  cases h with
  | nil => exact ⟨_, .last (isWord_cons hc (by simp))⟩
  | blank hd hrest =>
    have hword : IsWord [c] := isWord_cons hc (by simp)
    exact ⟨_, .cons hword hd hrest⟩
  | last hword => exact ⟨_, .last (isWord_cons hc hword.2)⟩
  | cons hword hd hrest => exact ⟨_, .cons (isWord_cons hc hword.2) hd hrest⟩

theorem hasWords_words (text : List Char) : HasWords text (words text) := by
  have hexists : ∃ found, HasWords text found := by
    induction text with
    | nil => exact ⟨_, .nil⟩
    | cons c rest ih =>
      obtain ⟨found, hfound⟩ := ih
      by_cases hc : isBlank c
      · exact ⟨_, .blank hc hfound⟩
      · exact hfound.exists_cons hc
  obtain ⟨found, hfound⟩ := hexists
  rw [words_of_hasWords hfound]
  exact hfound

theorem hasWords_iff {text : List Char} {found : List (List Char)} : HasWords text found ↔ words text = found :=
  ⟨words_of_hasWords, fun h => h ▸ hasWords_words text⟩

theorem words_blanks_append {blanks : List Char} (h : IsBlanks blanks) (rest : List Char) :
    words (blanks ++ rest) = words rest := by
  induction blanks with
  | nil => rfl
  | cons c blanks ih =>
    have hblanks : IsBlanks blanks := fun d hd => h d (List.mem_cons_of_mem _ hd)
    rw [List.cons_append, words_cons_of_blank (h c List.mem_cons_self), ih hblanks]

theorem words_append_blanks {word blanks : List Char} (hword : IsWord word) (h : IsBlanks blanks) (hne : blanks ≠ [])
    (rest : List Char) : words (word ++ (blanks ++ rest)) = word :: words rest := by
  cases blanks with
  | nil => contradiction
  | cons c blanks =>
    have hblanks : IsBlanks blanks := fun d hd => h d (List.mem_cons_of_mem _ hd)
    rw [List.cons_append, words_append_blank hword (h c List.mem_cons_self), words_blanks_append hblanks]

theorem words_last_blanks {word blanks : List Char} (hword : IsWord word) (h : IsBlanks blanks) :
    words (word ++ blanks) = [word] := by
  by_cases hne : blanks = []
  · rw [hne, List.append_nil, words_of_isWord hword]
  · have hlast := words_append_blanks hword h hne []
    rwa [List.append_nil] at hlast

theorem HasWords.isBlanks {text : List Char} (h : HasWords text []) : IsBlanks text := by
  generalize hnil : [] = none at h
  induction h with
  | nil => simp [IsBlanks]
  | blank hc _ ih => exact List.forall_mem_cons.mpr ⟨hc, ih hnil⟩
  | last => cases hnil
  | cons => cases hnil

/-- What stands before the first word, and what follows it: nothing, or a blank and the other words. -/
theorem HasWords.first {text word : List Char} {others : List (List Char)} (h : HasWords text (word :: others)) :
    ∃ front rest, IsBlanks front ∧ IsWord word ∧ text = front ++ (word ++ rest) ∧
      (rest = [] ∧ others = [] ∨ ∃ c later, rest = c :: later ∧ isBlank c ∧ HasWords later others) := by
  generalize hwords : word :: others = all at h
  induction h with
  | nil => cases hwords
  | @blank c _ _ hc _ ih =>
    obtain ⟨front, rest, hfront, hword, rfl, hrest⟩ := ih hwords
    exact ⟨c :: front, rest, List.forall_mem_cons.mpr ⟨hc, hfront⟩, hword, rfl, hrest⟩
  | last hword =>
    cases hwords
    exact ⟨[], [], by simp [IsBlanks], hword, by simp, .inl ⟨rfl, rfl⟩⟩
  | @cons _ c rest _ hword hc hrest _ =>
    cases hwords
    exact ⟨[], c :: rest, by simp [IsBlanks], hword, rfl, .inr ⟨c, rest, rfl, hc, hrest⟩⟩

theorem HasWords.only {text word : List Char} (h : HasWords text [word]) :
    ∃ front back, IsBlanks front ∧ IsWord word ∧ IsBlanks back ∧ text = front ++ (word ++ back) := by
  obtain ⟨front, back, hfront, hword, rfl, ⟨rfl, -⟩ | ⟨c, later, rfl, hc, hlater⟩⟩ := h.first
  · exact ⟨front, [], hfront, hword, by simp [IsBlanks], rfl⟩
  · exact ⟨front, c :: later, hfront, hword, List.forall_mem_cons.mpr ⟨hc, hlater.isBlanks⟩, rfl⟩

theorem HasWords.next {text word second : List Char} {others : List (List Char)}
    (h : HasWords text (word :: second :: others)) :
    ∃ front c later, IsBlanks front ∧ IsWord word ∧ isBlank c ∧ text = front ++ (word ++ c :: later) ∧
      HasWords later (second :: others) := by
  obtain ⟨front, rest, hfront, hword, rfl, ⟨-, hnil⟩ | ⟨c, later, rfl, hc, hlater⟩⟩ := h.first
  · cases hnil
  · exact ⟨front, c, later, hfront, hword, hc, rfl, hlater⟩

/-- A text of these lines. Each ends at a newline, with or without a carriage return before it; the last may do
without, unless it is empty. -/
inductive HasLines : List Char → List (List Char) → Prop
  | nil : HasLines [] []
  | last {line : List Char} : line ≠ [] → '\n' ∉ line → HasLines line [line]
  | newline {line rest : List Char} {lines : List (List Char)} :
      '\n' ∉ line → line.getLast? ≠ some '\r' → HasLines rest lines → HasLines (line ++ '\n' :: rest) (line :: lines)
  | returned {line rest : List Char} {lines : List (List Char)} :
      '\n' ∉ line → HasLines rest lines → HasLines (line ++ '\r' :: '\n' :: rest) (line :: lines)

private theorem lines_of_hasLines {text : List Char} {found : List (List Char)} (h : HasLines text found) :
    lines text = found := by
  induction h with
  | nil => rfl
  | last hne hline => rw [lines_of_newline_not_mem hline, lastLine, if_neg hne]
  | newline hline hreturn _ ih => rw [lines_append_newline hline, dropReturn, if_neg hreturn, ih]
  | @returned line rest _ hline _ ih =>
    have hfront : '\n' ∉ line ++ ['\r'] := by simp [hline]
    have hdrop : dropReturn (line ++ ['\r']) = line := by simp [dropReturn]
    have hlines := lines_append_newline hfront rest
    rwa [List.append_assoc, List.cons_append, List.nil_append, hdrop, ih] at hlines

private theorem exists_hasLines (text : List Char) : ∃ found, HasLines text found := by
  -- on the length of the text: what follows its first newline is shorter
  induction hlength : text.length using Nat.strongRecOn generalizing text with
  | ind n ih =>
    by_cases hmem : '\n' ∈ text
    · obtain ⟨line, rest, rfl, hline⟩ := List.eq_append_cons_of_mem hmem
      obtain ⟨found, hfound⟩ := ih rest.length (by simp at hlength; omega) rest rfl
      by_cases hreturn : line.getLast? = some '\r'
      · obtain ⟨front, rfl⟩ := List.getLast?_eq_some_iff.mp hreturn
        have hfront : '\n' ∉ front := fun h => hline (List.mem_append_left _ h)
        refine ⟨front :: found, ?_⟩
        rw [List.append_assoc]
        exact .returned hfront hfound
      · exact ⟨line :: found, .newline hline hreturn hfound⟩
    · by_cases hnil : text = []
      · exact ⟨[], hnil ▸ .nil⟩
      · exact ⟨[text], .last hnil hmem⟩

theorem hasLines_iff {text : List Char} {found : List (List Char)} : HasLines text found ↔ lines text = found := by
  constructor
  · exact lines_of_hasLines
  · intro h
    obtain ⟨others, hothers⟩ := exists_hasLines text
    rw [← h, lines_of_hasLines hothers]
    exact hothers

end Text

namespace Numeral

/-- One or more digits after an optional sign, and the number that they denote. -/
inductive Denotes : List Char → Int → Prop
  | bare {digits : List Char} : IsDigits digits → Denotes digits (Nat.ofDigitChars 10 digits 0)
  | plus {digits : List Char} : IsDigits digits → Denotes ('+' :: digits) (Nat.ofDigitChars 10 digits 0)
  | minus {digits : List Char} : IsDigits digits → Denotes ('-' :: digits) (-(Nat.ofDigitChars 10 digits 0))

private theorem not_isDigits_cons {c : Char} (h : c.isDigit = false) (rest : List Char) : ¬IsDigits (c :: rest) := by
  intro hdigits
  have hc := hdigits.2 c List.mem_cons_self
  rw [h] at hc
  cases hc

private theorem signed?_minus (digits : List Char) :
    signed? ('-' :: digits) = (natural? digits).map fun n : Nat => -(n : Int) := by
  rw [signed?]
  cases natural? digits <;> rfl

private theorem signed?_plus (digits : List Char) :
    signed? ('+' :: digits) = (natural? digits).map fun n : Nat => (n : Int) := rfl

private theorem signed?_bare {text : List Char} (hminus : ∀ digits, text ≠ '-' :: digits)
    (hplus : ∀ digits, text ≠ '+' :: digits) : signed? text = (natural? text).map fun n : Nat => (n : Int) := by
  rw [signed?.eq_2 _ hminus, unsigned?.eq_2 _ hplus]
  rfl

private theorem signed?_of_denotes {text : List Char} {n : Int} (h : Denotes text n) (hfits : Offset.Fits n) :
    signed? text = some n := by
  obtain ⟨hlow, hhigh⟩ := hfits
  cases h with
  | bare hdigits =>
    have hsign (c : Char) (hc : c.isDigit = false) (rest : List Char) : text ≠ c :: rest := fun heq =>
      not_isDigits_cons hc rest (heq ▸ hdigits)
    rw [signed?_bare (hsign '-' rfl) (hsign '+' rfl), (natural?_eq_some_iff (by omega)).mpr ⟨hdigits, rfl⟩]
    rfl
  | plus hdigits =>
    rw [signed?_plus, (natural?_eq_some_iff (by omega)).mpr ⟨hdigits, rfl⟩]
    rfl
  | minus hdigits =>
    rw [signed?_minus, (natural?_eq_some_iff (by omega)).mpr ⟨hdigits, rfl⟩]
    rfl

private theorem denotes_of_signed? {text : List Char} {n : Int} (h : signed? text = some n) (hfits : Offset.Fits n) :
    Denotes text n := by
  obtain ⟨hlow, hhigh⟩ := hfits
  by_cases hminus : ∃ digits, text = '-' :: digits
  · obtain ⟨digits, rfl⟩ := hminus
    rw [signed?_minus] at h
    obtain ⟨m, hm, rfl⟩ := Option.map_eq_some_iff.mp h
    obtain ⟨hdigits, rfl⟩ := (natural?_eq_some_iff (by omega)).mp hm
    exact .minus hdigits
  · by_cases hplus : ∃ digits, text = '+' :: digits
    · obtain ⟨digits, rfl⟩ := hplus
      rw [signed?_plus] at h
      obtain ⟨m, hm, rfl⟩ := Option.map_eq_some_iff.mp h
      obtain ⟨hdigits, rfl⟩ := (natural?_eq_some_iff (by omega)).mp hm
      exact .plus hdigits
    · rw [signed?_bare (fun digits heq => hminus ⟨digits, heq⟩) fun digits heq => hplus ⟨digits, heq⟩] at h
      obtain ⟨m, hm, rfl⟩ := Option.map_eq_some_iff.mp h
      obtain ⟨hdigits, rfl⟩ := (natural?_eq_some_iff (by omega)).mp hm
      exact .bare hdigits

/-- The offset that is read from a numeral is the one that it denotes; a numeral out of range gives none. -/
theorem bind_signed?_eq_some_iff {text : List Char} {offset : Int16} :
    (signed? text).bind Offset.ofInt? = some offset ↔ Denotes text offset.toInt := by
  have hfits := Offset.fits_toInt offset
  rw [Option.bind_eq_some_iff]
  constructor
  · intro ⟨n, hn, hoffset⟩
    rw [Offset.toInt_of_ofInt? hoffset] at hfits ⊢
    exact denotes_of_signed? hn hfits
  · intro h
    exact ⟨offset.toInt, signed?_of_denotes h hfits, Offset.ofInt?_toInt offset⟩

theorem Denotes.isWord {text : List Char} {n : Int} (h : Denotes text n) : Text.IsWord text := by
  have hdigits {digits : List Char} (h : IsDigits digits) : ∀ c ∈ digits, ¬Text.isBlank c := fun c hc =>
    not_isBlank_of_isDigit (h.2 c hc)
  cases h with
  | bare h => exact ⟨h.1, hdigits h⟩
  | plus h => exact ⟨List.cons_ne_nil _ _, List.forall_mem_cons.mpr ⟨by decide, hdigits h⟩⟩
  | minus h => exact ⟨List.cons_ne_nil _ _, List.forall_mem_cons.mpr ⟨by decide, hdigits h⟩⟩

end Numeral

namespace Manifest

/-- The symbol that the words of a line denote: a name, `D` and a numeral in the range of offsets, or one word that
ends in `U` after a name. -/
inductive Denotes : List (List Char) → Symbol → Prop
  | defined {name number : List Char} {offset : Int16} :
      Numeral.Denotes number offset.toInt → Denotes [name, ['D'], number] ⟨String.ofList name, .defined offset⟩
  | undefined {name : List Char} : name ≠ [] → Denotes [name ++ ['U']] ⟨String.ofList name, .undefined⟩

theorem symbolOfWords?_eq_some_iff {words : List (List Char)} {symbol : Symbol} :
    symbolOfWords? words = some symbol ↔ Denotes words symbol := by
  constructor
  · intro h
    unfold symbolOfWords? at h
    split at h
    · obtain ⟨offset, hoffset, rfl⟩ := Option.map_eq_some_iff.mp h
      exact .defined (Numeral.bind_signed?_eq_some_iff.mp hoffset)
    · rename_i word
      rw [Option.ite_none_right_eq_some] at h
      obtain ⟨⟨hmark, hname⟩, hsymbol⟩ := h
      obtain ⟨name, rfl⟩ := List.getLast?_eq_some_iff.mp hmark
      rw [List.dropLast_concat] at hname hsymbol
      cases hsymbol
      exact .undefined hname
    · cases h
  · intro h
    cases h with
    | defined hnumber => simp [symbolOfWords?, Numeral.bind_signed?_eq_some_iff.mpr hnumber]
    | undefined hname => simp [symbolOfWords?, hname]

/-- A line as one pattern of characters, with the name and the numeral that are found in it: blanks, a name, then `D` and
a numeral, each after blanks, or `U` at once, and blanks up to the end. -/
inductive Pattern : List Char → List Char → Option (List Char) → Prop
  | defined {front name gap space number back : List Char} {n : Int} :
      Text.IsBlanks front → Text.IsWord name → Text.IsBlanks gap → gap ≠ [] → Text.IsBlanks space → space ≠ [] →
      Numeral.Denotes number n → Text.IsBlanks back →
      Pattern (front ++ (name ++ (gap ++ (['D'] ++ (space ++ (number ++ back)))))) name (some number)
  | undefined {front name back : List Char} :
      Text.IsBlanks front → Text.IsWord name → Text.IsBlanks back → Pattern (front ++ (name ++ ['U'] ++ back)) name none

/-- The symbol that a match gives. The numeral, if there is one, has to be in the range of offsets. -/
inductive Gives : List Char → Option (List Char) → Symbol → Prop
  | defined {name number : List Char} {n : Int} {offset : Int16} :
      Numeral.Denotes number n → Offset.ofInt? n = some offset →
      Gives name (some number) ⟨String.ofList name, .defined offset⟩
  | undefined {name : List Char} : Gives name none ⟨String.ofList name, .undefined⟩

def Matches (line : List Char) (symbol : Symbol) : Prop :=
  ∃ name numeral, Pattern line name numeral ∧ Gives name numeral symbol

private theorem isWord_append_mark {name : List Char} : Text.IsWord (name ++ ['U']) ↔ ∀ c ∈ name, ¬Text.isBlank c := by
  have hmark : Text.IsWord ['U'] := by decide
  rw [Text.IsWord, List.forall_mem_append]
  exact ⟨fun h => h.2.1, fun h => ⟨by simp, h, hmark.2⟩⟩

/-- Whichever way the pattern is laid on a line, it says what the line denotes. -/
theorem Pattern.denotes_iff {line name : List Char} {numeral : Option (List Char)} (h : Pattern line name numeral)
    {symbol : Symbol} : Denotes (Text.words line) symbol ↔ Gives name numeral symbol := by
  cases h with
  | @defined front name gap space number back n hfront hname hgap hgapne hspace hspacene hnumber hback =>
    rw [Text.words_blanks_append hfront, Text.words_append_blanks hname hgap hgapne,
      Text.words_append_blanks (by decide) hspace hspacene, Text.words_last_blanks hnumber.isWord hback]
    constructor
    · intro h
      cases h with
      | defined hdenotes => exact .defined hdenotes (Offset.ofInt?_toInt _)
    · intro h
      cases h with
      | defined hdenotes hoffset =>
        rw [← Offset.toInt_of_ofInt? hoffset] at hdenotes
        exact .defined hdenotes
  | undefined hfront hname hback =>
    rw [Text.words_blanks_append hfront, Text.words_last_blanks (isWord_append_mark.mpr hname.2) hback]
    have hdenotes : Denotes [name ++ ['U']] ⟨String.ofList name, .undefined⟩ := .undefined hname.1
    constructor
    · intro h
      have hsame := symbolOfWords?_eq_some_iff.mpr h
      rw [symbolOfWords?_eq_some_iff.mpr hdenotes] at hsame
      cases hsame
      exact .undefined
    · intro h
      cases h with
      | undefined => exact hdenotes

theorem denotes_of_matches {line : List Char} {symbol : Symbol} (h : Matches line symbol) :
    Denotes (Text.words line) symbol := by
  obtain ⟨name, numeral, hpattern, hgives⟩ := h
  exact hpattern.denotes_iff.mpr hgives

theorem matches_of_denotes {line : List Char} {symbol : Symbol} (h : Denotes (Text.words line) symbol) :
    Matches line symbol := by
  have hwords := Text.hasWords_words line
  generalize Text.words line = words at h hwords
  cases h with
  | defined hnumber =>
    -- the blanks that follow a word belong together with those before the next one
    obtain ⟨front, c, later, hfront, hname, hc, rfl, hlater⟩ := hwords.next
    obtain ⟨gap, d, last, hgap, -, hd, rfl, hlast⟩ := hlater.next
    obtain ⟨space, back, hspace, -, hback, rfl⟩ := hlast.only
    have hgap : Text.IsBlanks (c :: gap) := List.forall_mem_cons.mpr ⟨hc, hgap⟩
    have hspace : Text.IsBlanks (d :: space) := List.forall_mem_cons.mpr ⟨hd, hspace⟩
    refine ⟨_, _, ?_, .defined hnumber (Offset.ofInt?_toInt _)⟩
    exact .defined hfront hname hgap (List.cons_ne_nil _ _) hspace (List.cons_ne_nil _ _) hnumber hback
  | undefined hname =>
    obtain ⟨front, back, hfront, hword, hback, rfl⟩ := hwords.only
    exact ⟨_, none, .undefined hfront ⟨hname, isWord_append_mark.mp hword⟩ hback, .undefined⟩

/-- What the lines from the one of this number on give: the symbols of those that denote one, and a report of each line
that is neither blank nor denotes one. -/
inductive Reads (owner : ModuleName) : Nat → List (List Char) → List Symbol → List LinkError → Prop
  | nil {number : Nat} : Reads owner number [] [] []
  | blank {number : Nat} {line : List Char} {rest : List (List Char)} {symbols : List Symbol} {errors : List LinkError} :
      Text.HasWords line [] → Reads owner (number + 1) rest symbols errors →
      Reads owner number (line :: rest) symbols errors
  | symbol {number : Nat} {line : List Char} {words rest : List (List Char)} {symbol : Symbol} {symbols : List Symbol}
      {errors : List LinkError} :
      Text.HasWords line words → Denotes words symbol → Reads owner (number + 1) rest symbols errors →
      Reads owner number (line :: rest) (symbol :: symbols) errors
  | malformed {number : Nat} {line : List Char} {words rest : List (List Char)} {symbols : List Symbol}
      {errors : List LinkError} :
      Text.HasWords line words → words ≠ [] → (∀ symbol, ¬Denotes words symbol) →
      Reads owner (number + 1) rest symbols errors →
      Reads owner number (line :: rest) symbols (.malformedManifest owner number (String.ofList line) :: errors)

section Lines

variable {owner : ModuleName} {number : Nat} {line : List Char}

private theorem readLine_of_blank (h : Text.words line = []) : readLine owner number line = none := by
  simp only [readLine, h]

private theorem readLine_of_denotes {symbol : Symbol} (h : Denotes (Text.words line) symbol) :
    readLine owner number line = some (.ok symbol) := by
  unfold readLine
  split
  · next hnil =>
    rw [hnil] at h
    cases h
  · simp only [symbolOfWords?_eq_some_iff.mpr h]

private theorem readLine_of_malformed (hne : Text.words line ≠ []) (h : ∀ symbol, ¬Denotes (Text.words line) symbol) :
    readLine owner number line = some (.error (.malformedManifest owner number (String.ofList line))) := by
  have hnone : symbolOfWords? (Text.words line) = none :=
    Option.eq_none_iff_forall_ne_some.mpr fun symbol hsymbol => h symbol (symbolOfWords?_eq_some_iff.mp hsymbol)
  unfold readLine
  split
  · contradiction
  · simp only [hnone]

end Lines

private theorem exists_reads (owner : ModuleName) (number : Nat) (lines : List (List Char)) :
    ∃ symbols errors, Reads owner number lines symbols errors := by
  induction lines generalizing number with
  | nil => exact ⟨_, _, .nil⟩
  | cons line rest ih =>
    obtain ⟨symbols, errors, hrest⟩ := ih (number + 1)
    have hwords := Text.hasWords_words line
    by_cases hblank : Text.words line = []
    · exact ⟨_, _, .blank (hblank ▸ hwords) hrest⟩
    · by_cases hsymbol : ∃ symbol, Denotes (Text.words line) symbol
      · obtain ⟨symbol, hsymbol⟩ := hsymbol
        exact ⟨_, _, .symbol hwords hsymbol hrest⟩
      · exact ⟨_, _, .malformed hwords hblank (not_exists.mp hsymbol) hrest⟩

private def outcomes (owner : ModuleName) (number : Nat) (lines : List (List Char)) : List (Except LinkError Symbol) :=
  (lines.zipIdx number).filterMap fun line => readLine owner line.2 line.1

private theorem outcomes_cons (owner : ModuleName) (number : Nat) (line : List Char) (rest : List (List Char)) :
    outcomes owner number (line :: rest) = (readLine owner number line).toList ++ outcomes owner (number + 1) rest := by
  rw [outcomes, List.zipIdx_cons, List.filterMap_cons]
  dsimp only
  cases readLine owner number line <;> rfl

private def error? : Except LinkError Symbol → Option LinkError
  | .ok _ => none
  | .error e => some e

private theorem Reads.outcomes {owner : ModuleName} {number : Nat} {lines : List (List Char)} {symbols : List Symbol}
    {errors : List LinkError} (h : Reads owner number lines symbols errors) :
    (outcomes owner number lines).filterMap Except.toOption = symbols ∧
      (outcomes owner number lines).filterMap error? = errors := by
  induction h with
  | nil => exact ⟨rfl, rfl⟩
  | blank hline _ ih =>
    rw [outcomes_cons, readLine_of_blank (Text.hasWords_iff.mp hline)]
    exact ih
  | symbol hline hsymbol _ ih =>
    rw [← Text.hasWords_iff.mp hline] at hsymbol
    rw [outcomes_cons, readLine_of_denotes hsymbol]
    exact ⟨congrArg (List.cons _) ih.1, ih.2⟩
  | malformed hline hne hnone _ ih =>
    rw [← Text.hasWords_iff.mp hline] at hne hnone
    rw [outcomes_cons, readLine_of_malformed hne hnone]
    exact ⟨ih.1, congrArg (List.cons _) ih.2⟩

private theorem parse_of_reads {owner : ModuleName} {content : String} {symbols : List Symbol}
    {errors : List LinkError} (h : Reads owner 1 (Text.lines content.toList) symbols errors) :
    parse owner content = if errors = [] then .ok symbols else .error errors := by
  obtain ⟨hsymbols, herrors⟩ := h.outcomes
  unfold parse
  dsimp only
  split
  · next hnil =>
    have hnone : errors = [] := herrors.symm.trans hnil
    rw [if_pos hnone]
    exact congrArg Except.ok hsymbols
  · next hne =>
    have hsome : errors ≠ [] := fun hnil => hne (herrors.trans hnil)
    rw [if_neg hsome]
    exact congrArg Except.error herrors

/-- Reading a manifest gives what its lines give, one by one: the symbols in the order of the lines if none is malformed,
and else a report of each malformed line with its number. A line denotes a symbol just if it matches the pattern of such
lines with a numeral in range. All ways to lay the pattern on a line agree on the symbol, and on whether there is one. -/
theorem parse_grammar (owner : ModuleName) (content : String) :
    (∀ result, parse owner content = result ↔
      ∃ lines symbols errors, Text.HasLines content.toList lines ∧ Reads owner 1 lines symbols errors ∧
        result = if errors = [] then .ok symbols else .error errors) ∧
    (∀ line words symbol, Text.HasWords line words → (Denotes words symbol ↔ Matches line symbol)) ∧
    (∀ line first second, Matches line first → Matches line second → first = second) ∧
    ∀ line words name numeral, Text.HasWords line words → Pattern line name numeral →
      ∀ symbol, Denotes words symbol ↔ Gives name numeral symbol := by
  refine ⟨?_, ?_, ?_, ?_⟩
  · intro result
    constructor
    · intro hresult
      obtain ⟨symbols, errors, hreads⟩ := exists_reads owner 1 (Text.lines content.toList)
      refine ⟨_, symbols, errors, Text.hasLines_iff.mpr rfl, hreads, ?_⟩
      rw [← hresult, parse_of_reads hreads]
    · intro ⟨lines, symbols, errors, hlines, hreads, hresult⟩
      rw [← Text.hasLines_iff.mp hlines] at hreads
      rw [hresult, parse_of_reads hreads]
  · intro line words symbol hwords
    rw [← Text.hasWords_iff.mp hwords]
    exact ⟨matches_of_denotes, denotes_of_matches⟩
  · intro line first second hfirst hsecond
    have hone := symbolOfWords?_eq_some_iff.mpr (denotes_of_matches hfirst)
    rw [symbolOfWords?_eq_some_iff.mpr (denotes_of_matches hsecond)] at hone
    exact (Option.some.inj hone).symm
  · intro line words name numeral hwords hpattern symbol
    rw [← Text.hasWords_iff.mp hwords]
    exact hpattern.denotes_iff

example : parse "m" "\tFOOU D +0012 \r\n\x0c\nUU\r" = .ok [⟨"FOOU", .defined 12⟩, ⟨"U", .undefined⟩] := by rfl

example : parse "m" "\u2003x D -32768\nU\nx D 32768\n" =
    .error [.malformedManifest "m" 2 "U", .malformedManifest "m" 3 "x D 32768"] := by rfl

end Manifest
end StackLink
