import TemplateRecovery.Text.Printable

/-!
# Quoted text

A text is quoted with apostrophes, or with double quotes if it holds an apostrophe and no double
quote. The quote, the backslash and every character that cannot be printed are escaped.
-/

namespace TemplateRecovery

namespace Text

/-- The lower case hexadecimal digits of a number, at least `width` of them. -/
def hex (width n : Nat) : List Char :=
  let ds := Nat.toDigits 16 n
  List.replicate (width - ds.length) '0' ++ ds

/-- The mark that stands around a text. -/
def quoteMark (cs : List Char) : Char :=
  if '\'' ∈ cs ∧ '"' ∉ cs then '"' else '\''

/-- A character by its number. -/
def escapeCode (c : Char) : List Char :=
  if c.toNat ≤ 0xFF then '\\' :: 'x' :: hex 2 c.toNat
  else if c.toNat ≤ 0xFFFF then '\\' :: 'u' :: hex 4 c.toNat
  else '\\' :: 'U' :: hex 8 c.toNat

def escape (mark c : Char) : List Char :=
  if c = mark ∨ c = '\\' then ['\\', c]
  else if c = '\n' then ['\\', 'n']
  else if c = '\r' then ['\\', 'r']
  else if c = '\t' then ['\\', 't']
  else if isPrintable c then [c]
  else escapeCode c

def quote (s : String) : String :=
  let cs := s.toList
  let mark := quoteMark cs
  String.ofList (mark :: (cs.flatMap (escape mark) ++ [mark]))

end Text

end TemplateRecovery
