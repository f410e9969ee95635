import TemplateRecovery.Yaml.Timestamp

/-!
# Tags

A `Tag` says what kind of value a node of an option file stands for. A plain scalar without a tag gets
one by its form.

* `Tag.ofName` is the tag with a name.
* `Tag.ofPlain` is the tag that the form of a plain scalar gives it.
-/

namespace TemplateRecovery

namespace Yaml

/-- What a node stands for. -/
inductive Tag where
  | text
  | integer
  | float
  | bool
  | null
  | sequence
  | mapping
  | timestamp
  /-- The key whose value is merged into its mapping. -/
  | merge
  /-- The key of the main value of a mapping. -/
  | value
  | set
  | orderedMapping
  | pairs
  | bytes
  | other
  deriving DecidableEq, Inhabited, Repr

namespace Tag

/-- The common front of the names of known tags. -/
def root : String := "tag:yaml.org,2002:"

def known : List (String × Tag) := [
  ("str", .text), ("int", .integer), ("float", .float), ("bool", .bool), ("null", .null),
  ("seq", .sequence), ("map", .mapping), ("timestamp", .timestamp), ("merge", .merge),
  ("value", .value), ("set", .set), ("omap", .orderedMapping), ("pairs", .pairs),
  ("binary", .bytes)]

def ofName (name : String) : Tag :=
  ((known.find? fun (short, _) => root ++ short == name).map Prod.snd).getD .other

/-- A text without a sign at its front. -/
def unsigned : List Char → List Char
  | '-' :: cs => cs
  | '+' :: cs => cs
  | cs => cs

/-- Whether a text is not empty and each of its characters passes a test. -/
def allOf (test : Char → Bool) (cs : List Char) : Bool := !cs.isEmpty && cs.all test

def isDigits (cs : List Char) : Bool := allOf Char.isDigit cs

/-- Whether a character is a digit or an underscore. -/
def isLoose (c : Char) : Bool := c.isDigit || c == '_'

def isExponent (needsSign : Bool) : List Char → Bool
  | 'e' :: cs => marked cs
  | 'E' :: cs => marked cs
  | _ => false
where
  /-- The exponent after its mark. -/
  marked : List Char → Bool
    | '-' :: cs => isDigits cs
    | '+' :: cs => isDigits cs
    | cs => !needsSign && isDigits cs

/-- Whether a text has the form of a decimal number with a point or an exponent. -/
def isDecimal (cs : List Char) : Bool :=
  match unsigned cs with
  | '.' :: cs =>
    let rest := cs.dropWhile isLoose
    rest.length < cs.length && (rest.isEmpty || isExponent true rest)
  | c :: cs =>
    c.isDigit &&
      match cs.dropWhile isLoose with
      | '.' :: cs =>
        let rest := cs.dropWhile isLoose
        rest.isEmpty || isExponent false rest
      | cs => isExponent false cs
  | [] => false

/-- Whether a text names a number that is no decimal. -/
def isSpecial (cs : List Char) : Bool :=
  [".nan", ".NaN", ".NAN"].contains (String.ofList cs) ||
    [".inf", ".Inf", ".INF"].contains (String.ofList (unsigned cs))

/-- Whether a character is a digit of a number in base sixteen, or an underscore. -/
def isLooseHex (c : Char) : Bool :=
  isLoose c || ('a' ≤ c && c ≤ 'f') || ('A' ≤ c && c ≤ 'F')

/-- Whether a character is a digit of a number in base eight, or an underscore. -/
def isLooseOctal (c : Char) : Bool := ('0' ≤ c && c ≤ '7') || c == '_'

def isInteger (cs : List Char) : Bool :=
  match unsigned cs with
  | '0' :: 'b' :: cs => allOf (fun c => c == '0' || c == '1' || c == '_') cs
  | '0' :: 'o' :: cs => allOf isLooseOctal cs
  | '0' :: 'x' :: cs => allOf isLooseHex cs
  | cs => allOf isLoose cs

def boolWords : List String := ["true", "True", "TRUE", "false", "False", "FALSE"]

def nullWords : List String := ["~", "null", "Null", "NULL"]

/-- A text without a break at its end. -/
def chomp (cs : List Char) : List Char :=
  if cs.getLast? = some '\n' then cs.dropLast else cs

/-- The tag that the form of a plain scalar gives it. -/
def ofPlain (text : String) : Tag :=
  match text.toList with
  | [] => .null
  | c :: rest =>
    let cs := chomp (c :: rest)
    let word := String.ofList cs
    if boolWords.contains word then .bool
    else if isDecimal cs || isSpecial cs then .float
    else if c != '_' && isInteger cs then .integer
    else if word = "<<" then .merge
    else if nullWords.contains word then .null
    else if Timestamp.isPlain cs then .timestamp
    else if word = "=" then .value
    else if ["!", "&", "*"].contains word then .other
    else .text

end Tag

end Yaml

end TemplateRecovery
