import TemplateRecovery.Text.Blank

/-!
# Searching and splitting texts

A text is taken as the list of its characters.

* `Text.find?` and `Text.findLast?` look for one text in another.
* `Text.splitOver`, `Text.splitOverLast`, `Text.words` and `Text.wordsLast` cut a text into pieces, at
  most so many times, from the front or from the back.
* `Text.lines` cuts a text into its lines.
-/

namespace TemplateRecovery

namespace Text

def find? (part : List Char) : List Char → Option Nat
  | [] => if part.isEmpty then some 0 else none
  | c :: rest =>
    if part.isPrefixOf (c :: rest) then some 0 else (find? part rest).map (· + 1)

def findLast? (part cs : List Char) : Option Nat :=
  (find? part.reverse cs.reverse).map fun p => cs.length - p - part.length

/-- The pieces of a text between the first occurrences of another that is not empty. -/
def splitOver (part : List Char) : Nat → List Char → List (List Char)
  | 0, cs => [cs]
  | limit + 1, cs =>
    match find? part cs with
    | some p => cs.take p :: splitOver part limit (cs.drop (p + part.length))
    | none => [cs]

/-- The pieces of a text between the last occurrences of another that is not empty. -/
def splitOverLast (part : List Char) (limit : Nat) (cs : List Char) : List (List Char) :=
  ((splitOver part.reverse limit cs.reverse).map List.reverse).reverse

/-- The first words of a text, which are separated by blanks, and what is left after them. -/
def words : Nat → List Char → List (List Char)
  | limit, cs =>
    match limit, cs.dropWhile isBlank with
    | _, [] => []
    | 0, cs => [cs]
    | limit + 1, cs => cs.takeWhile (!isBlank ·) :: words limit (cs.dropWhile (!isBlank ·))

/-- The last words of a text, and what is left in front of them. -/
def wordsLast (limit : Nat) (cs : List Char) : List (List Char) :=
  ((words limit cs.reverse).map List.reverse).reverse

def isLineEnd (c : Char) : Bool :=
  let n := c.toNat
  (0x0A ≤ n && n ≤ 0x0D) || (0x1C ≤ n && n ≤ 0x1E) || n == 0x85 || n == 0x2028 || n == 0x2029

/-- The lines of a text, with or without their ends. -/
def lines (keep : Bool) : Nat → List Char → List (List Char)
  | 0, _ => []
  | fuel + 1, cs =>
    let ended (line mark : List Char) : List Char := if keep then line ++ mark else line
    match cs.takeWhile (!isLineEnd ·), cs.dropWhile (!isLineEnd ·) with
    | [], [] => []
    | line, [] => [line]
    | line, '\r' :: '\n' :: rest => ended line ['\r', '\n'] :: lines keep fuel rest
    | line, c :: rest => ended line [c] :: lines keep fuel rest

/-- The text without the characters at its front that pass a test. -/
def dropFront (drop : Char → Bool) (cs : List Char) : List Char := cs.dropWhile drop

/-- The text without the characters at its end that pass a test. -/
def dropBack (drop : Char → Bool) (cs : List Char) : List Char :=
  (cs.reverse.dropWhile drop).reverse

/-- A capital for the first letter of each word, small letters for the others. -/
def capitals : Bool → List Char → List Char
  | _, [] => []
  | inside, c :: rest =>
    (if inside then c.toLower else c.toUpper) :: capitals c.isAlpha rest

/-- Whether a capital starts each word and small letters follow it. -/
def isTitle (cs : List Char) : Bool := cs.any Char.isAlpha && capitals false cs == cs

/-- A small letter for a capital and a capital for a small letter. -/
def swapCase (c : Char) : Char := if c.isUpper then c.toLower else c.toUpper

/-- One character on both sides of a text. -/
def pad (left right : Nat) (fill : Char) (cs : List Char) : List Char :=
  List.replicate left fill ++ cs ++ List.replicate right fill

/-- A text with blanks in place of its tabs, from a column on. -/
def expandTabs (size : Nat) : Nat → List Char → List Char
  | _, [] => []
  | column, '\t' :: rest =>
    if size = 0 then expandTabs size column rest
    else
      let width := size - column % size
      List.replicate width ' ' ++ expandTabs size (column + width) rest
  | column, c :: rest =>
    c :: expandTabs size (if c = '\n' ∨ c = '\r' then 0 else column + 1) rest

/-- A text with another in the place of the first occurrences of a part. -/
def replace (part other : List Char) (limit : Nat) (cs : List Char) : List Char :=
  if part.isEmpty then
    let front := cs.take (limit - 1)
    if limit = 0 then cs
    else other ++ front.flatMap (fun c => c :: other) ++ cs.drop (limit - 1)
  else List.flatten ((splitOver part limit cs).intersperse other)

end Text

end TemplateRecovery
