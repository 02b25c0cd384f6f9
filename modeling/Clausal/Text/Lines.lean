import Clausal.Text.Blank

/-!
# Lines and words

A line ends at a line feed or at the end of the text.  A text that ends in a line
feed has no further, empty line behind it.  The words of a line are its longest
pieces without blank characters.  Both are read off the end of the text, one
character at a time: `consLine` and `Worded.cons` are the steps.
-/

namespace Clausal

/-! ### Lines -/

/-- Put a character in front of the lines that follow it. -/
def consLine (c : Char) : List (List Char) → List (List Char)
  | [] => if c = '\n' then [[]] else [[c]]
  | line :: rest => if c = '\n' then [] :: line :: rest else (c :: line) :: rest

/-- The lines of a text, without their line feeds. -/
def lines (text : List Char) : List (List Char) := text.foldr consLine []

@[simp] theorem lines_nil : lines [] = [] := rfl

@[simp] theorem lines_cons (c : Char) (text : List Char) :
    lines (c :: text) = consLine c (lines text) := rfl

/-- The text without the blank characters at its start and end. -/
def trim (text : List Char) : List Char :=
  ((text.dropWhile isBlank).reverse.dropWhile isBlank).reverse

example : lines "a\n\nb\r\n".toList = ["a".toList, [], "b\r".toList] := by decide

example : trim "\t a b \r".toList = "a b".toList := by decide

/-! ### Words -/

/-- A text read from its end: the word it starts with, which is empty if it starts
with a blank, and the words behind that one. -/
structure Worded where
  /-- The word that the text starts with. -/
  first : List Char
  /-- The words behind it. -/
  others : List (List Char)

/-- The words of the text. -/
def Worded.words (w : Worded) : List (List Char) :=
  if w.first.isEmpty then w.others else w.first :: w.others

/-- Put a character in front of the text. -/
def Worded.cons (c : Char) (w : Worded) : Worded :=
  if isBlank c then ⟨[], w.words⟩ else ⟨c :: w.first, w.others⟩

/-- A text divided into words. -/
def Worded.ofText (text : List Char) : Worded := text.foldr Worded.cons ⟨[], []⟩

/-- The words of a text. -/
def words (text : List Char) : List (List Char) := (Worded.ofText text).words

@[simp] theorem words_nil : words [] = [] := rfl

theorem Worded.ofText_cons (c : Char) (text : List Char) :
    Worded.ofText (c :: text) = (Worded.ofText text).cons c := rfl

/-- A blank in front adds nothing. -/
theorem words_cons_of_isBlank {c : Char} (h : isBlank c = true) (text : List Char) :
    words (c :: text) = words text := by
  simp [words, Worded.ofText_cons, Worded.cons, Worded.words, h]

example : words " ab c\td ".toList = ["ab".toList, ['c'], ['d']] := by decide

end Clausal
