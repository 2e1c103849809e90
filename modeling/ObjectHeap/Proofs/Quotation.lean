/-
This file shows that quoted texts can be read back. A reader takes a quoted text apart from left to
right: a backslash belongs to the character behind it, and every other character stands on its own.
Quoting a text makes one such part of every character, so the reader finds the parts again whatever
stands beside a backslash, and the first quote that it finds on its own is the last character.
-/

import Mathlib.Data.List.Basic
import ObjectHeap.Text.Quoted

namespace ObjectHeap.Text.Quoted

/-! ### Reading -/

/-- The parts of a text: a backslash and the character behind it, or one other character. -/
def parts : List Char → List (List Char)
  | [] => []
  | [char] => [[char]]
  | char :: next :: rest =>
    if char = '\\' then [char, next] :: parts rest else [char] :: parts (next :: rest)

/-- What the letters behind a backslash stand for, beside the quote. -/
def letters : List (Char × Char) := [('\\', '\\'), ('n', '\n'), ('r', '\r'), ('t', '\t')]

/-- What a part between quotes stands for. A backslash and a quote of the same kind do not stand
there on their own. -/
def meaning? (mark : Char) : List Char → Option Char
  | [char] => if char = '\\' ∨ char = mark then none else some char
  | [first, letter] =>
    if first ≠ '\\' then none else if letter = mark then some mark else letters.lookup letter
  | _ => none

/-- The text of a quoted form, which begins and ends with the same quote. -/
def decode : List Char → Option (List Char)
  | [] => none
  | mark :: rest =>
    if mark ∈ ['\'', '"'] ∧ rest.getLast? = some mark then
      (parts rest.dropLast).mapM (meaning? mark)
    else
      none

/-- The string of a quoted form. -/
def read? (text : String) : Option String :=
  (decode text.toList).map String.ofList

/-! ### The parts of a quoted text -/

variable {mark char : Char} {text : List Char}

/-- A text is put in quotes of one of the two kinds. -/
theorem quote_mem (text : List Char) : quote text ∈ ['\'', '"'] := by
  unfold quote
  split <;> simp

/-- Double quotes are used just in case they save escaping. -/
theorem quote_eq_double : quote text = '"' ↔ '\'' ∈ text ∧ '"' ∉ text := by
  unfold quote
  split
  · exact iff_of_true rfl ‹_›
  · exact iff_of_false (by decide) ‹_›

/-- A character inside quotes stands on its own, or it is a letter behind a backslash. -/
theorem escape_cases (mark char : Char) :
    escape mark char = [char] ∧ char ≠ '\\' ∧ char ∉ ['\n', '\r', '\t'] ∧ char ≠ mark ∨
      ∃ letter, escape mark char = ['\\', letter] ∧
        ((letter, char) ∈ letters ∨ letter = mark ∧ char = mark) := by
  unfold escape
  split_ifs with backslash newline back tab same
  · subst backslash
    exact Or.inr ⟨_, rfl, Or.inl (by decide)⟩
  · subst newline
    exact Or.inr ⟨_, rfl, Or.inl (by decide)⟩
  · subst back
    exact Or.inr ⟨_, rfl, Or.inl (by decide)⟩
  · subst tab
    exact Or.inr ⟨_, rfl, Or.inl (by decide)⟩
  · exact Or.inr ⟨_, rfl, Or.inr ⟨same, same⟩⟩
  · exact Or.inl ⟨rfl, backslash, by simp [newline, back, tab], same⟩

theorem parts_cons_of_ne (plain : char ≠ '\\') (rest : List Char) :
    parts (char :: rest) = [char] :: parts rest := by
  cases rest with
  | nil => rfl
  | cons next rest => rw [parts, if_neg plain]

/-- A character inside quotes is one part. -/
theorem parts_escape_append (mark char : Char) (rest : List Char) :
    parts (escape mark char ++ rest) = escape mark char :: parts rest := by
  rcases escape_cases mark char with ⟨alone, plain, _⟩ | ⟨letter, escaped, _⟩
  · rw [alone]
    exact parts_cons_of_ne plain rest
  · rw [escaped]
    exact if_pos rfl

/-- A text inside quotes has a part for each of its characters. -/
theorem parts_flatMap_append (mark : Char) (text rest : List Char) :
    parts (text.flatMap (escape mark) ++ rest) = text.map (escape mark) ++ parts rest := by
  induction text with
  | nil => rfl
  | cons char text inductionHypothesis =>
    rw [List.flatMap_cons, List.append_assoc, parts_escape_append, inductionHypothesis,
      List.map_cons, List.cons_append]

theorem parts_flatMap (mark : Char) (text : List Char) :
    parts (text.flatMap (escape mark)) = text.map (escape mark) := by
  simpa [parts] using parts_flatMap_append mark text []

/-- A letter behind a backslash stands for one character, and is neither a quote nor a break. -/
theorem lookup_letters {letter : Char} (listed : (letter, char) ∈ letters) :
    letters.lookup letter = some char ∧ letter ∉ ['\'', '"'] ∧ letter ∉ ['\n', '\r', '\t'] := by
  simp only [letters, List.mem_cons, List.not_mem_nil, or_false, Prod.mk.injEq] at listed
  rcases listed with ⟨rfl, rfl⟩ | ⟨rfl, rfl⟩ | ⟨rfl, rfl⟩ | ⟨rfl, rfl⟩ <;> decide

/-- A part inside quotes stands for the character that it was made of. -/
theorem meaning?_escape (isQuote : mark ∈ ['\'', '"']) (char : Char) :
    meaning? mark (escape mark char) = some char := by
  rcases escape_cases mark char with ⟨alone, plain, _, other⟩ | ⟨letter, escaped, listed | ⟨rfl, rfl⟩⟩
  · rw [alone]
    exact if_neg (not_or.mpr ⟨plain, other⟩)
  · obtain ⟨found, noQuote, _⟩ := lookup_letters listed
    have other : letter ≠ mark := fun same => noQuote (same ▸ isQuote)
    rw [escaped, meaning?, if_neg (not_not.mpr rfl), if_neg other, found]
  · rw [escaped, meaning?, if_neg (not_not.mpr rfl), if_pos rfl]

/-- Inside quotes, no quote of the same kind stands on its own. -/
theorem escape_ne_mark (isQuote : mark ∈ ['\'', '"']) (char : Char) : escape mark char ≠ [mark] := by
  intro alone
  have means := meaning?_escape isQuote char
  rw [alone, meaning?, if_pos (Or.inr rfl)] at means
  cases means

/-- A quote is escaped only inside quotes of its own kind. -/
theorem eq_of_escape (isQuote : char ∈ ['\'', '"']) {other : Char}
    (escaped : escape mark other = ['\\', char]) : mark = char ∧ other = char := by
  rcases escape_cases mark other with ⟨alone, _⟩ | ⟨letter, made, origin⟩
  · rw [alone] at escaped
    cases escaped
  · cases made.symm.trans escaped
    rcases origin with listed | ⟨rfl, rfl⟩
    · exact absurd isQuote (lookup_letters listed).2.1
    · exact ⟨rfl, rfl⟩

/-- Inside quotes, the breaks are written as letters. -/
theorem escape_unbroken (isQuote : mark ∈ ['\'', '"']) (char : Char) :
    ∀ letter ∈ escape mark char, letter ∉ ['\n', '\r', '\t'] := by
  rcases escape_cases mark char with ⟨alone, _, unbroken, _⟩ | ⟨letter, escaped, origin⟩
  · rw [alone]
    exact List.forall_mem_singleton.mpr unbroken
  · have unbroken : letter ∉ ['\n', '\r', '\t'] := by
      rcases origin with listed | ⟨rfl, rfl⟩
      · exact (lookup_letters listed).2.2
      · rcases List.mem_pair.mp isQuote with rfl | rfl <;> decide
    rw [escaped]
    exact List.forall_mem_cons.mpr ⟨by decide, List.forall_mem_singleton.mpr unbroken⟩

/-- The letters of a quoted text come from its characters, and from the quotes around them. -/
theorem mem_encode {letter : Char} (member : letter ∈ encode text) :
    letter = quote text ∨ ∃ char ∈ text, letter ∈ escape (quote text) char := by
  rcases List.mem_cons.mp member with first | member
  · exact Or.inl first
  · rcases List.mem_append.mp member with inside | last
    · exact Or.inr (List.mem_flatMap.mp inside)
    · exact Or.inl (List.mem_singleton.mp last)

/-- Between its quotes, a quoted text has no quote of their kind that is not escaped. -/
theorem mark_notMem_parts (text : List Char) :
    [quote text] ∉ parts (text.flatMap (escape (quote text))) := by
  rw [parts_flatMap]
  intro member
  obtain ⟨char, _, alone⟩ := List.mem_map.mp member
  exact escape_ne_mark (quote_mem text) char alone

/-- No quote is escaped inside double quotes. -/
theorem quote_notMem_parts (double : quote text = '"') (isQuote : char ∈ ['\'', '"']) :
    ['\\', char] ∉ parts (text.flatMap (escape (quote text))) := by
  rw [parts_flatMap]
  intro member
  obtain ⟨other, there, escaped⟩ := List.mem_map.mp member
  obtain ⟨same, rfl⟩ := eq_of_escape isQuote escaped
  rw [← same, double] at there
  exact (quote_eq_double.mp double).2 there

theorem encode_unbroken (text : List Char) : ∀ letter ∈ encode text, letter ∉ ['\n', '\r', '\t'] := by
  intro letter member
  rcases mem_encode member with rfl | ⟨char, _, inside⟩
  · rcases List.mem_pair.mp (quote_mem text) with same | same <;> rw [same] <;> decide
  · exact escape_unbroken (quote_mem text) char letter inside

/-! ### Reading back -/

theorem mapM_meaning? (isQuote : mark ∈ ['\'', '"']) (text : List Char) :
    (text.map (escape mark)).mapM (meaning? mark) = some text := by
  induction text with
  | nil => rfl
  | cons char text inductionHypothesis =>
    rw [List.map_cons, List.mapM_cons, meaning?_escape isQuote, inductionHypothesis]
    rfl

theorem decode_encode (text : List Char) : decode (encode text) = some text := by
  let mark := quote text
  let body := text.flatMap (escape mark)
  have closed : (body ++ [mark]).getLast? = some mark := List.getLast?_concat
  have inside : (body ++ [mark]).dropLast = body := List.dropLast_concat
  show (if mark ∈ ['\'', '"'] ∧ (body ++ [mark]).getLast? = some mark then
    (parts (body ++ [mark]).dropLast).mapM (meaning? mark) else none) = some text
  rw [if_pos ⟨quote_mem text, closed⟩, inside, parts_flatMap, mapM_meaning? (quote_mem text)]

theorem read?_render (text : String) : read? (render text) = some text := by
  unfold read? render
  rw [String.toList_ofList, decode_encode, Option.map_some, String.ofList_toList]

/-- A quoted text begins and ends with the same quote, and the last character is the first quote of
this kind that is not escaped. It has no line break, carriage return or tab in it. A reader that
undoes the escapes finds the very text, so different texts are quoted differently. Double quotes are
used just in case the text has a single quote and no double one, and then no quote is escaped. -/
theorem quoted_texts_are_read_back :
    (∀ text : String, read? (render text) = some text ∧ ∃ mark body,
      (render text).toList = mark :: body ++ [mark] ∧ mark ∈ ['\'', '"'] ∧
      [mark] ∉ parts body ∧ parts (body ++ [mark]) = parts body ++ [[mark]] ∧
      (∀ letter ∈ (render text).toList, letter ∉ ['\n', '\r', '\t']) ∧
      (mark = '"' ↔ '\'' ∈ text.toList ∧ '"' ∉ text.toList) ∧
      (mark = '"' → ['\\', '\''] ∉ parts body ∧ ['\\', '"'] ∉ parts body)) ∧
    Function.Injective render := by
  refine ⟨fun text => ⟨read?_render text, ?_⟩, fun one other same => ?_⟩
  · have written : (render text).toList = encode text.toList := String.toList_ofList
    refine ⟨quote text.toList, text.toList.flatMap (escape (quote text.toList)), written,
      quote_mem text.toList, mark_notMem_parts text.toList, ?_, written ▸ encode_unbroken text.toList,
      quote_eq_double, fun double =>
        ⟨quote_notMem_parts double (by decide), quote_notMem_parts double (by decide)⟩⟩
    rw [parts_flatMap_append, parts_flatMap]
    rfl
  · have read := read?_render one
    rw [same, read?_render] at read
    exact (Option.some.inj read).symm

end ObjectHeap.Text.Quoted
