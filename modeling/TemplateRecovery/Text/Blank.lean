/-!
# Blank characters

`Text.isBlank` holds for the characters that are dropped from the end of a message, and
`Text.isMargin` for those of them that may surround a number.
-/

namespace TemplateRecovery

namespace Text

/-- Whether a character is blank: the separators, the line and tabulation controls, and the four
information separators. -/
def isBlank (c : Char) : Bool :=
  let n := c.toNat
  (0x09 ≤ n && n ≤ 0x0D) || (0x1C ≤ n && n ≤ 0x20) || n == 0x85 || n == 0xA0 || n == 0x1680 ||
    (0x2000 ≤ n && n ≤ 0x200A) || n == 0x2028 || n == 0x2029 || n == 0x202F || n == 0x205F ||
    n == 0x3000

/-- Whether a character may stand around a number: any blank but the information separators. -/
def isMargin (c : Char) : Bool := isBlank c && !(0x1C ≤ c.toNat && c.toNat ≤ 0x1F)

def dropBlanksRight (cs : List Char) : List Char := (cs.reverse.dropWhile isBlank).reverse

/-- The text without margins at either end. -/
def trimMargins (cs : List Char) : List Char :=
  ((cs.dropWhile isMargin).reverse.dropWhile isMargin).reverse

end Text

end TemplateRecovery
