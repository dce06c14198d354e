import StackLink.Manifest
import StackLink.Proofs.Bytes
import StackLink.Proofs.SymbolTable

/-!
# Manifests as text

Blanks divide a line into words, and newlines divide a text into lines. A manifest whose names are plain, that
is, not empty and without blanks, is read back from its text, and no other names are ever read.
-/
namespace StackLink

namespace Text

def IsWord (word : List Char) : Prop :=
  word ≠ [] ∧ ∀ c ∈ word, ¬isBlank c

theorem isWord_iff {word : List Char} : IsWord word ↔ word ≠ [] ∧ word.all fun c => !isBlank c := by
  simp [IsWord]

instance (word : List Char) : Decidable (IsWord word) :=
  decidable_of_iff _ isWord_iff.symm

private def cutWord (c : Char) (split : List Char × List (List Char)) : List Char × List (List Char) :=
  if isBlank c then ([], consWord split.1 split.2) else (c :: split.1, split.2)

private theorem words_eq (text : List Char) :
    words text = consWord (text.foldr cutWord ([], [])).1 (text.foldr cutWord ([], [])).2 := rfl

private theorem foldr_cutWord_append {word : List Char} (h : ∀ c ∈ word, ¬isBlank c)
    (split : List Char × List (List Char)) :
    word.foldr cutWord split = (word ++ split.1, split.2) := by
  induction word with
  | nil => rfl
  | cons c word ih =>
    have hc : ¬isBlank c := h c List.mem_cons_self
    have hword := ih fun d hd => h d (List.mem_cons_of_mem _ hd)
    rw [List.foldr_cons, hword, cutWord, if_neg hc]
    rfl

theorem words_cons_of_blank {c : Char} (h : isBlank c) (rest : List Char) : words (c :: rest) = words rest := by
  rw [words_eq, words_eq, List.foldr_cons, cutWord, if_pos h]
  rfl

theorem words_append_blank {word : List Char} (h : IsWord word) {c : Char} (hc : isBlank c) (rest : List Char) :
    words (word ++ c :: rest) = word :: words rest := by
  rw [words_eq, List.foldr_append, foldr_cutWord_append h.2, List.foldr_cons, cutWord, if_pos hc, List.append_nil,
    consWord, if_neg h.1, words_eq]

theorem words_of_isWord {word : List Char} (h : IsWord word) : words word = [word] := by
  rw [words_eq, foldr_cutWord_append h.2, List.append_nil, consWord, if_neg h.1]

private theorem mem_consWord_iff {word other : List Char} {later : List (List Char)} :
    other ∈ consWord word later ↔ (word ≠ [] ∧ other = word) ∨ other ∈ later := by
  by_cases h : word = [] <;> simp [consWord, h]

theorem isWord_of_mem_words {text word : List Char} (h : word ∈ words text) : IsWord word := by
  -- the text in front of the first blank may be empty, what follows it is words
  have hsplit : (∀ c ∈ (text.foldr cutWord ([], [])).1, ¬isBlank c) ∧
      ∀ word ∈ (text.foldr cutWord ([], [])).2, IsWord word := by
    clear h
    induction text with
    | nil => simp
    | cons c rest ih =>
      obtain ⟨hfirst, hlater⟩ := ih
      rw [List.foldr_cons, cutWord]
      by_cases hc : isBlank c
      · rw [if_pos hc]
        refine ⟨by simp, ?_⟩
        intro word hword
        rcases mem_consWord_iff.mp hword with ⟨hne, heq⟩ | hword
        · subst heq
          exact ⟨hne, hfirst⟩
        · exact hlater word hword
      · rw [if_neg hc]
        exact ⟨List.forall_mem_cons.mpr ⟨hc, hfirst⟩, hlater⟩
  rw [words_eq] at h
  rcases mem_consWord_iff.mp h with ⟨hne, heq⟩ | hword
  · subst heq
    exact ⟨hne, hsplit.1⟩
  · exact hsplit.2 word hword

private theorem splitNewlines_append {line : List Char} (h : '\n' ∉ line) (rest : List Char) :
    splitNewlines (line ++ rest) = (line ++ (splitNewlines rest).1, (splitNewlines rest).2) := by
  induction line with
  | nil => rfl
  | cons c line ih =>
    have hc : c ≠ '\n' := fun heq => h (heq ▸ List.mem_cons_self)
    have hline : '\n' ∉ line := fun hmem => h (List.mem_cons_of_mem _ hmem)
    have hsplit : splitNewlines (c :: (line ++ rest)) =
        (c :: (splitNewlines (line ++ rest)).1, (splitNewlines (line ++ rest)).2) := if_neg hc
    rw [List.cons_append, hsplit, ih hline]
    rfl

private theorem lines_eq (text : List Char) : lines text = linesOf (splitNewlines text).1 (splitNewlines text).2 := rfl

theorem lines_append_newline {line : List Char} (h : '\n' ∉ line) (rest : List Char) :
    lines (line ++ '\n' :: rest) = dropReturn line :: lines rest := by
  have hnewline : splitNewlines ('\n' :: rest) = ([], (splitNewlines rest).1 :: (splitNewlines rest).2) := rfl
  rw [lines_eq, splitNewlines_append h, hnewline, List.append_nil, linesOf, ← lines_eq]

theorem lines_of_newline_not_mem {line : List Char} (h : '\n' ∉ line) : lines line = lastLine line := by
  have hsplit := splitNewlines_append h []
  rw [List.append_nil] at hsplit
  rw [lines_eq, hsplit]
  exact congrArg lastLine (List.append_nil line)

theorem dropReturn_append_word {front word : List Char} (h : IsWord word) :
    dropReturn (front ++ word) = front ++ word := by
  apply if_neg
  intro hlast
  rw [List.getLast?_append_of_ne_nil _ h.1] at hlast
  exact h.2 '\r' (List.mem_of_getLast? hlast) (by decide)

end Text

namespace Numeral

def IsDigits (digits : List Char) : Prop :=
  digits ≠ [] ∧ ∀ c ∈ digits, c.isDigit

theorem natural?_eq_some_iff {text : List Char} {n : Nat} (h : n < 0x10000) :
    natural? text = some n ↔ IsDigits text ∧ Nat.ofDigitChars 10 text 0 = n := by
  have hdigits : (text ≠ [] ∧ text.all isDigit) ↔ IsDigits text := by
    rw [IsDigits, List.all_eq_true]
    rfl
  have hvalue : valueBelow 0x10000 text = n ↔ value text = n := by
    by_cases hlt : value text < 0x10000
    · rw [valueBelow_eq_value hlt]
    · have hbelow := mt valueBelow_lt_iff.mp hlt
      omega
  rw [natural?, Option.ite_none_right_eq_some, Option.some.injEq, hdigits, hvalue]
  rfl

private theorem natural?_toDigits {n : Nat} (h : n < 0x10000) : natural? (Nat.toDigits 10 n) = some n := by
  have hdigits : IsDigits (Nat.toDigits 10 n) :=
    ⟨Nat.toDigits_ne_nil, fun c hc => Nat.isDigit_of_mem_toDigits (by decide) (by decide) hc⟩
  exact (natural?_eq_some_iff h).mpr ⟨hdigits, Nat.ofDigitChars_ten_toDigits⟩

private theorem ne_cons_of_toDigits {c : Char} (hc : c.isDigit = false) (n : Nat) (rest : List Char) :
    Nat.toDigits 10 n ≠ c :: rest := by
  intro heq
  have hdigit : c.isDigit = true :=
    Nat.isDigit_of_mem_toDigits (by decide) (by decide) (heq ▸ List.mem_cons_self)
  rw [hc] at hdigit
  cases hdigit

theorem unsigned?_toDigits {n : Nat} (h : n < 0x10000) : unsigned? (Nat.toDigits 10 n) = some n := by
  rw [unsigned?.eq_2 _ (ne_cons_of_toDigits (by decide) n), natural?_toDigits h]

private theorem signed?_toDigits {n : Nat} (h : n < 0x10000) : signed? (Nat.toDigits 10 n) = some (n : Int) := by
  rw [signed?.eq_2 _ (ne_cons_of_toDigits (by decide) n), unsigned?_toDigits h]
  rfl

private theorem toList_neg_repr (n : Nat) : ("-" ++ n.repr).toList = '-' :: Nat.toDigits 10 n := by
  rw [Nat.repr_eq_ofList_toDigits, String.toList_append, String.toList_ofList (l := Nat.toDigits 10 n)]
  rfl

/-- The digits of an offset, after a minus sign if it is negative, are read as that offset. -/
theorem signed?_repr {n : Int} (h : Offset.Fits n) : signed? n.repr.toList = some n := by
  obtain ⟨hlow, hhigh⟩ := h
  rw [Int.repr_eq_if]
  split
  · have hn : ((n.toNat : Nat) : Int) = n := by omega
    rw [Nat.repr_eq_ofList_toDigits, String.toList_ofList, signed?_toDigits (by omega), hn]
  · have hn : -(((-n).toNat : Nat) : Int) = n := by omega
    rw [toList_neg_repr, signed?, natural?_toDigits (by omega)]
    exact congrArg some hn

theorem not_isBlank_of_isDigit {c : Char} (h : c.isDigit) : ¬Text.isBlank c := by
  have hrange : 48 ≤ c.toNat ∧ c.toNat ≤ 57 := by
    simp only [Char.isDigit, Bool.and_eq_true, decide_eq_true_eq] at h
    exact h
  obtain ⟨hlow, hhigh⟩ := hrange
  simp only [Text.isBlank, Bool.or_eq_true, Bool.and_eq_true, decide_eq_true_eq, beq_iff_eq]
  omega

theorem isWord_repr (n : Int) : Text.IsWord n.repr.toList := by
  have hdigits (n : Nat) : ∀ c ∈ Nat.toDigits 10 n, ¬Text.isBlank c := by
    intro c hc
    exact not_isBlank_of_isDigit (Nat.isDigit_of_mem_toDigits (by decide) (by decide) hc)
  rw [Int.repr_eq_if]
  split
  · rw [Nat.repr_eq_ofList_toDigits, String.toList_ofList]
    exact ⟨Nat.toDigits_ne_nil, hdigits _⟩
  · rw [toList_neg_repr]
    refine ⟨List.cons_ne_nil _ _, ?_⟩
    exact List.forall_mem_cons.mpr ⟨by decide, hdigits _⟩

end Numeral

/-- A name that a line of a manifest can hold. -/
def SymbolName.Plain (name : SymbolName) : Prop :=
  name ≠ "" ∧ ∀ c ∈ name.toList, ¬Text.isBlank c

theorem SymbolName.plain_iff {name : SymbolName} : name.Plain ↔ Text.IsWord name.toList := by
  rw [Plain, Text.IsWord, ne_eq, ne_eq, String.toList_eq_nil_iff]

instance (name : SymbolName) : Decidable name.Plain :=
  decidable_of_iff _ SymbolName.plain_iff.symm

namespace Manifest

def lineContent (symbol : Symbol) : String :=
  match symbol.binding with
  | .defined offset => "\t" ++ symbol.name ++ " D " ++ offset.toInt.repr
  | .undefined => "\t" ++ symbol.name ++ "U"

private theorem line_eq (symbol : Symbol) : line symbol = lineContent symbol ++ "\n" := by
  obtain ⟨name, binding⟩ := symbol
  cases binding with
  | undefined =>
    have hmark : "U\n" = "U" ++ "\n" := by decide
    change "\t" ++ name ++ "U\n" = "\t" ++ name ++ "U" ++ "\n"
    rw [hmark, ← String.append_assoc]
  | defined offset => rfl

theorem text_cons (symbol : Symbol) (manifest : Manifest) :
    text (symbol :: manifest) = lineContent symbol ++ "\n" ++ text manifest := by
  have hfold (manifest : Manifest) (start : String) :
      manifest.foldl (fun text symbol => text ++ line symbol) start = start ++ text manifest := by
    induction manifest generalizing start with
    | nil => simp [text]
    | cons symbol rest ih =>
      rw [text, List.foldl_cons, List.foldl_cons, ih, ih, String.empty_append, String.append_assoc]
  rw [text, List.foldl_cons, hfold, String.empty_append, line_eq]

theorem lineContent_ne_empty (symbol : Symbol) : lineContent symbol ≠ "" := by
  rw [ne_eq, ← String.toList_eq_nil_iff]
  obtain ⟨name, binding⟩ := symbol
  cases binding <;> simp [lineContent]

private theorem toList_lineContent_undefined (name : SymbolName) :
    (lineContent ⟨name, .undefined⟩).toList = '\t' :: (name.toList ++ ['U']) := by
  simp [lineContent]

private theorem toList_lineContent_defined (name : SymbolName) (offset : Int16) :
    (lineContent ⟨name, .defined offset⟩).toList =
      '\t' :: (name.toList ++ ' ' :: (['D'] ++ ' ' :: offset.toInt.repr.toList)) := by
  simp [lineContent]

section Plain

variable {symbol : Symbol} (h : symbol.name.Plain)
include h

theorem words_lineContent : Text.words (lineContent symbol).toList =
    match symbol.binding with
    | .defined offset => [symbol.name.toList, ['D'], offset.toInt.repr.toList]
    | .undefined => [symbol.name.toList ++ ['U']] := by
  obtain ⟨name, binding⟩ := symbol
  cases binding with
  | undefined =>
    have hmark : Text.IsWord ['U'] := by decide
    have hmarked : Text.IsWord (name.toList ++ ['U']) :=
      ⟨List.append_ne_nil_of_right_ne_nil _ hmark.1, List.forall_mem_append.mpr ⟨h.2, hmark.2⟩⟩
    rw [toList_lineContent_undefined, Text.words_cons_of_blank (by decide), Text.words_of_isWord hmarked]
  | defined offset =>
    rw [toList_lineContent_defined, Text.words_cons_of_blank (by decide),
      Text.words_append_blank (SymbolName.plain_iff.mp h) (by decide),
      Text.words_append_blank (by decide) (by decide),
      Text.words_of_isWord (Numeral.isWord_repr _)]

theorem newline_not_mem_lineContent : '\n' ∉ (lineContent symbol).toList := by
  have hname : '\n' ∉ symbol.name.toList := fun hmem => h.2 _ hmem (by decide)
  obtain ⟨name, binding⟩ := symbol
  cases binding with
  | undefined =>
    rw [toList_lineContent_undefined]
    simp [hname]
  | defined offset =>
    have hdigits : '\n' ∉ offset.toInt.repr.toList := fun hmem =>
      (Numeral.isWord_repr offset.toInt).2 _ hmem (by decide)
    rw [toList_lineContent_defined]
    simp [hname, hdigits]

theorem dropReturn_lineContent : Text.dropReturn (lineContent symbol).toList = (lineContent symbol).toList := by
  obtain ⟨name, binding⟩ := symbol
  cases binding with
  | undefined =>
    rw [toList_lineContent_undefined, ← List.cons_append]
    exact Text.dropReturn_append_word (by decide)
  | defined offset =>
    have hfront : '\t' :: (name.toList ++ ' ' :: (['D'] ++ ' ' :: offset.toInt.repr.toList)) =
        '\t' :: (name.toList ++ [' ', 'D', ' ']) ++ offset.toInt.repr.toList := by simp
    rw [toList_lineContent_defined, hfront]
    exact Text.dropReturn_append_word (Numeral.isWord_repr _)

private theorem symbolOfWords?_lineContent : symbolOfWords? (Text.words (lineContent symbol).toList) = some symbol := by
  rw [words_lineContent h]
  obtain ⟨name, binding⟩ := symbol
  cases binding with
  | undefined =>
    have hname : name.toList ≠ [] := (SymbolName.plain_iff.mp h).1
    simp [symbolOfWords?, hname]
  | defined offset =>
    simp [symbolOfWords?, Numeral.signed?_repr (Offset.fits_toInt offset)]

theorem readLine_lineContent (owner : ModuleName) (number : Nat) :
    readLine owner number (lineContent symbol).toList = some (.ok symbol) := by
  have hsymbol := symbolOfWords?_lineContent h
  rw [readLine]
  cases hwords : Text.words (lineContent symbol).toList with
  | nil =>
    rw [hwords] at hsymbol
    cases hsymbol
  | cons first rest =>
    rw [hwords] at hsymbol
    simp only [hsymbol]

end Plain

theorem lines_text {manifest : Manifest} (h : ∀ symbol ∈ manifest, symbol.name.Plain) :
    Text.lines (text manifest).toList = manifest.map fun symbol => (lineContent symbol).toList := by
  induction manifest with
  | nil => rfl
  | cons symbol rest ih =>
    obtain ⟨hsymbol, hrest⟩ := List.forall_mem_cons.mp h
    have hlist : (text (symbol :: rest)).toList = (lineContent symbol).toList ++ '\n' :: (text rest).toList := by
      rw [text_cons]
      simp
    rw [hlist, Text.lines_append_newline (newline_not_mem_lineContent hsymbol), dropReturn_lineContent hsymbol,
      ih hrest, List.map_cons]

theorem parse_text (owner : ModuleName) {manifest : Manifest} (h : ∀ symbol ∈ manifest, symbol.name.Plain) :
    parse owner (text manifest) = .ok manifest := by
  have houtcomes (number : Nat) : ((Text.lines (text manifest).toList).zipIdx number).filterMap
      (fun line => readLine owner line.2 line.1) = manifest.map .ok := by
    rw [lines_text h]
    induction manifest generalizing number with
    | nil => rfl
    | cons symbol rest ih =>
      obtain ⟨hsymbol, hrest⟩ := List.forall_mem_cons.mp h
      simp only [List.map_cons, List.zipIdx_cons, List.filterMap_cons, readLine_lineContent hsymbol, ih hrest]
  simp only [parse, houtcomes]
  simp [Function.comp_def, Except.toOption]

private theorem plain_of_symbolOfWords? {words : List (List Char)} {symbol : Symbol}
    (hwords : ∀ word ∈ words, Text.IsWord word) (h : symbolOfWords? words = some symbol) : symbol.name.Plain := by
  rw [SymbolName.plain_iff]
  unfold symbolOfWords? at h
  split at h
  · rename_i name number
    obtain ⟨offset, -, rfl⟩ := Option.map_eq_some_iff.mp h
    rw [String.toList_ofList]
    exact hwords name List.mem_cons_self
  · rename_i word
    split at h
    · rename_i hmark
      cases h
      rw [String.toList_ofList]
      refine ⟨hmark.2, ?_⟩
      intro c hc
      exact (hwords word List.mem_cons_self).2 c (List.dropLast_subset _ hc)
    · cases h
  · cases h

private theorem plain_of_readLine {owner : ModuleName} {number : Nat} {line : List Char} {symbol : Symbol}
    (h : readLine owner number line = some (.ok symbol)) : symbol.name.Plain := by
  unfold readLine at h
  split at h
  · cases h
  · split at h
    · rename_i found hfound
      cases h
      exact plain_of_symbolOfWords? (fun word hword => Text.isWord_of_mem_words hword) hfound
    · cases h

theorem plain_of_parse {owner : ModuleName} {content : String} {manifest : Manifest}
    (h : parse owner content = .ok manifest) : ∀ symbol ∈ manifest, symbol.name.Plain := by
  simp only [parse] at h
  split at h
  · cases h
    intro symbol hsymbol
    obtain ⟨outcome, houtcome, hok⟩ := List.mem_filterMap.mp hsymbol
    obtain ⟨⟨line, number⟩, -, hline⟩ := List.mem_filterMap.mp houtcome
    have hread : readLine owner number line = some (.ok symbol) := by
      cases outcome with
      | ok found =>
        cases hok
        exact hline
      | error e => cases hok
    exact plain_of_readLine hread
  · cases h

def Malformed (line : List Char) : Prop :=
  Text.words line ≠ [] ∧ symbolOfWords? (Text.words line) = none

instance (line : List Char) : Decidable (Malformed line) :=
  inferInstanceAs (Decidable (_ ∧ _))

/-- The malformed lines of a text, with their numbers, in their order. -/
def malformedLines (owner : ModuleName) (content : String) : List LinkError :=
  ((Text.lines content.toList).zipIdx 1).filterMap fun (line, number) =>
    if Malformed line then some (.malformedManifest owner number (String.ofList line)) else none

theorem phase_of_mem_malformedLines {owner : ModuleName} {content : String} {error : LinkError}
    (h : error ∈ malformedLines owner content) : error.phase = .load := by
  obtain ⟨⟨line, number⟩, _, hline⟩ := List.mem_filterMap.mp h
  by_cases hmalformed : Malformed line
  · simp only [hmalformed, if_true, Option.some.injEq] at hline
    rw [← hline]
    rfl
  · simp [hmalformed] at hline

private theorem error_of_readLine (owner : ModuleName) (number : Nat) (line : List Char) :
    ((readLine owner number line).bind fun outcome =>
      match outcome with
      | .ok _ => none
      | .error e => some e) =
      if Malformed line then some (.malformedManifest owner number (String.ofList line)) else none := by
  unfold readLine
  split
  · next hblank => simp [Malformed, hblank]
  · next hwords =>
    cases hsymbol : symbolOfWords? (Text.words line) with
    | none =>
      have hmalformed : Malformed line := ⟨hwords, hsymbol⟩
      rw [if_pos hmalformed, Option.bind_some]
    | some symbol => simp [Malformed, hsymbol]

/-- A manifest is read unless it has malformed lines, and else all of these are reported. -/
theorem parse_cases (owner : ModuleName) (content : String) :
    ((∃ manifest, parse owner content = .ok manifest) ∧ malformedLines owner content = []) ∨
      parse owner content = .error (malformedLines owner content) ∧ malformedLines owner content ≠ [] := by
  unfold parse
  dsimp only
  rw [List.filterMap_filterMap]
  generalize herrors : List.filterMap _ ((Text.lines content.toList).zipIdx 1) = errors
  have hmalformed : malformedLines owner content = errors := by
    rw [← herrors]
    apply List.filterMap_congr
    intro ⟨line, number⟩ _
    exact (error_of_readLine owner number line).symm
  rw [hmalformed]
  cases errors with
  | nil => exact .inl ⟨⟨_, rfl⟩, rfl⟩
  | cons error errors => exact .inr ⟨rfl, List.cons_ne_nil _ _⟩

theorem malformedLines_of_parse {owner : ModuleName} {content : String} {manifest : Manifest}
    (h : parse owner content = .ok manifest) : malformedLines owner content = [] := by
  rcases parse_cases owner content with ⟨_, hnil⟩ | ⟨herror, _⟩
  · exact hnil
  · rw [h] at herror
    cases herror

theorem eq_malformedLines_of_parse {owner : ModuleName} {content : String} {errors : List LinkError}
    (h : parse owner content = .error errors) : errors = malformedLines owner content ∧ errors ≠ [] := by
  rcases parse_cases owner content with ⟨⟨manifest, hok⟩, _⟩ | ⟨herror, hne⟩
  · rw [h] at hok
    cases hok
  · rw [h] at herror
    cases herror
    exact ⟨rfl, hne⟩

end Manifest
end StackLink
