import TemplateRecovery.Number.Binary64
import TemplateRecovery.Text.Blank
import TemplateRecovery.Text.Digit

/-!
# Reading decimal numbers

`Binary64.ofText?` reads a signed decimal with an optional fraction and an optional exponent, or one
of the names of the special values. Blanks may surround it, its digits may come from any script, and
single underscores may stand between digits.
-/

namespace TemplateRecovery

namespace Binary64

def digitsValue (cs : List Char) : Nat := cs.foldl (fun n c => 10 * n + (c.toNat - '0'.toNat)) 0

/-- A sign at the front of a text and what follows it. -/
def readSign : List Char → Bool × List Char
  | '-' :: cs => (true, cs)
  | '+' :: cs => (false, cs)
  | cs => (false, cs)

/-- The digits after the point, if there is a point. -/
def readFraction : List Char → List Char × List Char
  | '.' :: cs => (cs.takeWhile Char.isDigit, cs.dropWhile Char.isDigit)
  | cs => ([], cs)

/-- An exponent that ends the text; no exponent counts as zero. -/
def readExponent? : List Char → Option Int
  | [] => some 0
  | c :: cs =>
    if c = 'e' ∨ c = 'E' then
      let (negative, ds) := readSign cs
      if ds.isEmpty || !ds.all Char.isDigit then none else some (signed negative (digitsValue ds))
    else none

/-- The double nearest to an unsigned decimal. -/
def ofUnsigned? (negative : Bool) (cs : List Char) : Option Binary64 :=
  let whole := cs.takeWhile Char.isDigit
  let (fraction, rest) := readFraction (cs.dropWhile Char.isDigit)
  if whole.isEmpty && fraction.isEmpty then none
  else (readExponent? rest).map fun e =>
    ofDecimal negative (digitsValue (whole ++ fraction)) (e - fraction.length)

/-- The plain digit with the value of a digit; any other character stays. -/
def plainDigit (c : Char) : Char :=
  match Text.digitValue? c with
  | some n => Char.ofNat ('0'.toNat + n)
  | none => c

/-- A text without its underscores, each of which has to stand between two digits. -/
def dropUnderscores? : List Char → Option (List Char)
  | [] => some []
  | '_' :: _ => none
  | [c] => some [c]
  | [_, '_'] => none
  | c :: '_' :: d :: rest =>
    if c.isDigit && d.isDigit then (dropUnderscores? (d :: rest)).map (c :: ·) else none
  | c :: d :: rest => (dropUnderscores? (d :: rest)).map (c :: ·)

/-- The double that plain characters stand for. -/
def ofPlain? (cs : List Char) : Option Binary64 :=
  let (negative, cs) := readSign cs
  let name := String.ofList (cs.map Char.toLower)
  if name = "nan" then some .nan
  else if name = "inf" ∨ name = "infinity" then some (.infinity negative)
  else ofUnsigned? negative cs

def ofText? (s : String) : Option Binary64 := do
  let cs ← dropUnderscores? ((Text.trimMargins s.toList).map plainDigit)
  ofPlain? cs

end Binary64

end TemplateRecovery
