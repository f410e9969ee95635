import Mathlib.Data.List.Chain
import TemplateRecovery.Proofs.Refusal
import TemplateRecovery.Proofs.Unambiguous

/-!
# Expressions can be read back

An expression is *well formed* if its names are tokens, its strings hold no quotes and no braces, and
every helper in it is given something. What such an expression is as an argument, and what it is as
the value of an attribute, both determine it, however deeply helpers and concatenations are nested in
one another.

* `View.WellFormed` are the well-formed expressions.
* `View.Formed.texts` says what they are as an argument, as a value and as a part.
* `View.Formed.word_append_inj` reads an expression off the front of a text, `tail_append_inj` the
  arguments of a helper and `parts_append_inj` the parts of a concatenation.
* `expression_eq_of_text` says that two well-formed expressions with one text are equal.
-/

namespace TemplateRecovery

variable {s : String} {hash hash' : List (String × View)} {params parts rest : List View}
  {v w : View} {r r' : List Char} {c : Char}

/-! ### Well-formed expressions -/

/-- The characters of names, paths and keys. -/
def isTokenChar (c : Char) : Bool := c.isAlphanum || ['_', '-', '.', '/'].contains c

def leadsLetter (s : String) : Bool := s.toList.head?.any Char.isAlpha

/-- A token: a letter, followed by letters, digits, underscores, dashes, dots and slashes. -/
def IsToken (s : String) : Prop := leadsLetter s = true ∧ s.toList.all isTokenChar = true

instance (s : String) : Decidable (IsToken s) :=
  inferInstanceAs (Decidable (leadsLetter s = true ∧ s.toList.all isTokenChar = true))

theorem IsToken.all (h : IsToken s) : ∀ c ∈ s.toList, isTokenChar c = true :=
  List.all_eq_true.1 h.2

theorem IsToken.chars (h : IsToken s) : ∃ c cs, s.toList = c :: cs ∧ c.isAlpha = true := by
  have hlead := h.1
  rw [leadsLetter] at hlead
  cases hs : s.toList with
  | nil => rw [hs] at hlead; cases hlead
  | cons c cs => rw [hs] at hlead; exact ⟨c, cs, rfl, hlead⟩

/-- Quotes and braces. -/
def isMark (c : Char) : Bool := ['\'', '"', '\x7b', '\x7d'].contains c

/-- A text without quotes and braces. -/
def Unmarked (s : String) : Prop := s.toList.any isMark = false

instance (s : String) : Decidable (Unmarked s) :=
  inferInstanceAs (Decidable (s.toList.any isMark = false))

theorem Unmarked.all (h : Unmarked s) : ∀ c ∈ s.toList, isMark c = false := by
  intro c hc
  rw [Unmarked, List.any_eq_false] at h
  exact Bool.eq_false_iff.2 (h c hc)

namespace View

/-- What may stand in a concatenation: strings that are not empty, paths and helpers. -/
def isPiece : View → Bool
  | .literal (.str s) => s != ""
  | .path _ => true
  | .subexpr _ _ _ => true
  | _ => false

/-- Named arguments as the entries of a mapping. -/
def named (hash : List (String × View)) : View := .map (hash.map fun e => (.str e.1, e.2))

/-- The well-formed expressions whose numbers are of some kind. -/
inductive Formed (number : Int → Prop) : View → Prop
  | null : Formed number (.literal .null)
  | bool (b : Bool) : Formed number (.literal (.bool b))
  | int {n : Int} (hn : number n) : Formed number (.literal (.int n))
  | str {s : String} (hs : Unmarked s) : Formed number (.literal (.str s))
  /-- The words of the language are no paths. -/
  | path {p : String} (hp : IsToken p) (hword : p ∉ ["true", "false", "null"]) :
      Formed number (.path (.str p))
  /-- Two strings never stand beside one another. -/
  | concat {parts : List View} (hparts : ∀ v ∈ parts, Formed number v)
      (hkind : ∀ v ∈ parts, v.isPiece = true)
      (happart : parts.IsChain fun v w => ¬ (v.isLiteral = true ∧ w.isLiteral = true)) :
      Formed number (.concat (.list parts))
  /-- A helper that is given nothing would look like a path. -/
  | subexpr {name : String} {params : List View} {hash : List (String × View)}
      (hname : IsToken name) (hparams : ∀ v ∈ params, Formed number v)
      (hkeys : ∀ e ∈ hash, IsToken e.1) (hvalues : ∀ e ∈ hash, Formed number e.2)
      (hdistinct : (hash.map Prod.fst).Nodup) (hgiven : params ≠ [] ∨ hash ≠ []) :
      Formed number (.subexpr (.str name) (.list params) (named hash))

/-- The well-formed expressions whose numbers can be written. -/
abbrev WellFormed (v : View) : Prop := v.Formed fun n => isSpelled n = true

/-! ### Their texts -/

/-- An expression as an argument, if it has a text there. -/
def word (v : View) : String := v.argumentPlain.toOption.getD ""

/-- An expression as the value of an attribute: a path stands between braces. -/
def braced : View → String
  | .path (.str p) => mustache p
  | v => v.word

/-- An expression in a concatenation: a string loses its quotes. -/
def bare : View → String
  | .literal (.str s) => s
  | v => v.braced

/-- The texts of an expression are what they should be. -/
structure Texts (v : View) : Prop where
  plain : v.argumentPlain = .ok v.word
  argument : v.argument = .ok (.str v.word)
  inline : v.inlineText = .ok v.braced
  part : v.partText = .ok v.bare

end View

theorem argumentItems_eq {vs : List View} (h : ∀ v ∈ vs, v.Texts) :
    argumentItems vs = .ok (vs.map View.word) := by
  induction vs with
  | nil => rfl
  | cons v rest ih =>
    have hrest := ih fun w hw => h w (List.mem_cons_of_mem v hw)
    rw [argumentItems, (h v List.mem_cons_self).argument, hrest]
    rfl

theorem partItems_eq {vs : List View} (h : ∀ v ∈ vs, v.Texts) :
    partItems vs = .ok (vs.map View.bare) := by
  induction vs with
  | nil => rfl
  | cons v rest ih =>
    have hrest := ih fun w hw => h w (List.mem_cons_of_mem v hw)
    rw [partItems, (h v List.mem_cons_self).part, hrest]
    rfl

/-- A named argument. -/
def pairText (e : String × View) : String := e.1 ++ "=" ++ e.2.word

theorem hashText_named (h : ∀ e ∈ hash, e.2.Texts) :
    hashText (View.named hash) = .ok (hash.map pairText) := by
  rw [View.named, hashText]
  induction hash with
  | nil => rfl
  | cons e rest ih =>
    have hrest := ih fun f hf => h f (List.mem_cons_of_mem e hf)
    have hkey : pairOf "=" "" (.ok e.1) (.ok e.2.word) = .ok (pairText e) := by
      show Except.ok (e.1 ++ "=" ++ e.2.word ++ "") = _
      rw [String.append_empty, pairText]
    rw [List.map_cons, hashItems, (h e List.mem_cons_self).plain, hrest]
    show consText (pairOf "=" "" (.ok e.1) (.ok e.2.word)) _ = _
    rw [hkey]
    rfl

def helperText (name : String) (params : List View) (hash : List (String × View)) : String :=
  mustache (name ++ Text.group (Text.join " " (params.map View.word)) ++
    Text.group (Text.join " " (hash.map pairText)))

theorem helperOf_eq (name : String) (hparams : ∀ v ∈ params, v.Texts)
    (hvalues : ∀ e ∈ hash, e.2.Texts) :
    helperOf (.str name) (argumentsText (.list params)) (hashText (View.named hash)) =
      .ok (helperText name params hash) := by
  rw [argumentsText, argumentItems_eq hparams, hashText_named hvalues]
  rfl

def concatText (parts : List View) : String := "\"" ++ Text.join "" (parts.map View.bare) ++ "\""

theorem concatOf_eq (h : ∀ v ∈ parts, v.Texts) :
    concatOf (partsText (.list parts)) = .ok (concatText parts) := by
  rw [partsText, partItems_eq h]
  rfl

namespace View

theorem texts_int (n : Int) : (View.literal (.int n)).argumentPlain =
        (if isSpelled n then .ok (toString n) else .error .longNumber) ∧
      (View.literal (.int n)).argument = (View.literal (.int n)).argumentPlain.map .str ∧
      (View.literal (.int n)).inlineText = (View.literal (.int n)).argumentPlain ∧
      (View.literal (.int n)).partText = (View.literal (.int n)).argumentPlain := by
  simp [argumentPlain, argument, inlineText, partText, literalOf, primitiveOf, plainOf_int]

theorem Formed.texts (h : v.WellFormed) : v.Texts := by
  induction h with
  | null => exact ⟨rfl, rfl, rfl, rfl⟩
  | bool b => cases b <;> exact ⟨rfl, rfl, rfl, rfl⟩
  | @int n hn =>
    obtain ⟨hplain, hargument, hinline, hpart⟩ := texts_int n
    rw [if_pos hn] at hplain
    simp only [hplain] at hargument hinline hpart
    constructor <;> simp only [bare, braced, word, hplain, hargument, hinline, hpart] <;> rfl
  | str _ => exact ⟨rfl, rfl, rfl, rfl⟩
  | path _ _ => exact ⟨rfl, rfl, rfl, rfl⟩
  | concat _ _ _ ih =>
    have h := concatOf_eq ih
    constructor <;>
      simp only [bare, braced, word, argumentPlain, argument, inlineText, partText, h] <;> rfl
  | @subexpr name _ _ _ _ _ _ _ _ ihp ihv =>
    have h := helperOf_eq name ihp ihv
    constructor <;>
      simp only [bare, braced, word, argumentPlain, argument, inlineText, partText, h] <;> rfl

/-! ### Reading a text from the front -/

/-- The expressions that a blank has to end. -/
def isAtom : View → Bool
  | .literal (.str _) => false
  | .literal _ => true
  | .path _ => true
  | _ => false

end View

/-- Nothing follows, or a blank does. -/
def AtGap (r : List Char) : Prop := r = [] ∨ ∃ x, r = ' ' :: x

theorem atGap_cons (x : List Char) : AtGap (' ' :: x) := .inr ⟨x, rfl⟩

/-- Two runs of token characters that a blank or the end of the text follows. -/
theorem tokens_append_inj {a b : List Char} (ha : ∀ c ∈ a, isTokenChar c = true)
    (hb : ∀ c ∈ b, isTokenChar c = true) (hr : AtGap r) (hr' : AtGap r') (h : a ++ r = b ++ r') :
    a = b ∧ r = r' := by
  -- a blank is put at the end of both texts, so that one follows each of the runs
  have hblank : ∀ {r : List Char}, AtGap r → ∃ y, r ++ [' '] = ' ' :: y := by
    rintro r (rfl | ⟨x, rfl⟩)
    · exact ⟨[], rfl⟩
    · exact ⟨x ++ [' '], rfl⟩
  obtain ⟨y, hy⟩ := hblank hr
  obtain ⟨y', hy'⟩ := hblank hr'
  have hcat : a ++ ' ' :: y = b ++ ' ' :: y' := by
    rw [← hy, ← hy', ← List.append_assoc, ← List.append_assoc, h]
  obtain ⟨rfl, -, -⟩ := append_cons_inj_of_class (p := fun c => isTokenChar c = true) ha hb
    (by decide) (by decide) hcat
  exact ⟨rfl, List.append_cancel_left h⟩

theorem isDigit_toDigits {k : Nat} (h : c ∈ Nat.toDigits 10 k) : c.isDigit = true :=
  Nat.isDigit_of_mem_toDigits (by omega) (by omega) h

theorem toList_toString_int (n : Int) : (toString n).toList =
      if 0 ≤ n then Nat.toDigits 10 n.toNat else '-' :: Nat.toDigits 10 (-n).toNat := by
  rw [Int.toString_eq_repr, Int.repr_eq_if]
  split_ifs <;> simp [Nat.toList_repr]

/-- A number begins with a sign or with a digit. -/
theorem head_toString_int (n : Int) :
    ∃ c cs, (toString n).toList = c :: cs ∧ (c = '-' ∨ c.isDigit = true) := by
  rw [toList_toString_int]
  split_ifs
  · obtain ⟨c, cs, hcs⟩ := List.exists_cons_of_ne_nil (Nat.toDigits_ne_nil (n := n.toNat) (b := 10))
    exact ⟨c, cs, hcs, .inr (isDigit_toDigits (hcs ▸ List.mem_cons_self))⟩
  · exact ⟨'-', _, rfl, .inl rfl⟩

theorem isTokenChar_toString_int {n : Int} (h : c ∈ (toString n).toList) :
    isTokenChar c = true := by
  have hdigit : ∀ {k : Nat}, c ∈ Nat.toDigits 10 k → isTokenChar c = true := by
    intro k hc
    simp [isTokenChar, Char.isAlphanum, isDigit_toDigits hc]
  rw [toList_toString_int] at h
  split_ifs at h
  · exact hdigit h
  · rcases List.mem_cons.1 h with rfl | h
    · decide
    · exact hdigit h

def readInt : List Char → Int
  | '-' :: digits => -(Nat.ofDigitChars 10 digits 0 : Int)
  | digits => Nat.ofDigitChars 10 digits 0

theorem readInt_toString (n : Int) : readInt (toString n).toList = n := by
  rw [toList_toString_int]
  split_ifs with hn
  · -- no digit is a sign, so the second equation applies
    have hsign : ∀ ds, Nat.toDigits 10 n.toNat ≠ '-' :: ds := by
      intro ds h
      have hdash : '-'.isDigit = true := isDigit_toDigits (h ▸ List.mem_cons_self)
      exact absurd hdash (by decide)
    rw [readInt, Nat.ofDigitChars_ten_toDigits, Int.toNat_of_nonneg hn]
    exact hsign
  · rw [readInt, Nat.ofDigitChars_ten_toDigits]
    omega

/-! ### Atoms -/

namespace View

theorem word_int {n : Int} (hn : isSpelled n = true) :
    (View.literal (.int n)).word = toString n := by
  rw [word, (texts_int n).1, if_pos hn]
  rfl

@[simp] theorem word_path (p : String) : (View.path (.str p)).word = p := rfl

theorem Formed.word_atom (h : v.WellFormed) (hatom : v.isAtom = true) :
    v.word ≠ "" ∧ ∀ c ∈ v.word.toList, isTokenChar c = true := by
  cases h with
  | null => exact ⟨by decide, List.all_eq_true.1 rfl⟩
  | bool b => cases b <;> exact ⟨by decide, List.all_eq_true.1 rfl⟩
  | @int n hn =>
    obtain ⟨c, cs, hcs, -⟩ := head_toString_int n
    rw [word_int hn]
    exact ⟨fun h => by simp [h] at hcs, fun _ => isTokenChar_toString_int⟩
  | path hp _ =>
    obtain ⟨c, cs, hcs, -⟩ := hp.chars
    exact ⟨fun h => by rw [word_path] at h; simp [h] at hcs, hp.all⟩
  | str _ => cases hatom
  | concat _ _ _ => cases hatom
  | subexpr _ _ _ _ _ _ => cases hatom

end View

theorem isAlpha_of_isDigit (h : c.isDigit = true) : c.isAlpha = false := by
  have hdigit : (decide (c.val ≥ '0'.val) && decide (c.val ≤ '9'.val)) = true := h
  have h9 : '9'.val.toNat = 57 := rfl
  have hA : 'A'.val.toNat = 65 := rfl
  have ha : 'a'.val.toNat = 97 := rfl
  show (decide (c.val ≥ 'A'.val ∧ c.val ≤ 'Z'.val) ||
    (decide (c.val ≥ 'a'.val) && decide (c.val ≤ 'z'.val))) = false
  simp only [Bool.and_eq_true, decide_eq_true_eq, UInt32.le_iff_toNat_le, ge_iff_le] at hdigit
  simp only [Bool.or_eq_false_iff, Bool.and_eq_false_iff, decide_eq_false_iff_not,
    UInt32.le_iff_toNat_le, ge_iff_le]
  omega

/-- A number does not begin with a letter. -/
theorem leadsLetter_toString_int (n : Int) : leadsLetter (toString n) = false := by
  obtain ⟨c, cs, hcs, hc⟩ := head_toString_int n
  rw [leadsLetter, hcs, List.head?_cons, Option.any_some]
  rcases hc with rfl | hc
  · decide
  · exact isAlpha_of_isDigit hc

def readAtom (s : String) : View :=
  if s = "null" then .literal .null
  else if s = "true" then .literal (.bool true)
  else if s = "false" then .literal (.bool false)
  else if leadsLetter s then .path (.str s)
  else .literal (.int (readInt s.toList))

namespace View

theorem Formed.readAtom_word (h : v.WellFormed) (hatom : v.isAtom = true) :
    readAtom v.word = v := by
  cases h with
  | null => rfl
  | bool b => cases b <;> rfl
  | @int n hn =>
    have hne : ∀ {k : String}, leadsLetter k = true → toString n ≠ k := by
      rintro k hk rfl
      rw [leadsLetter_toString_int] at hk
      cases hk
    rw [word_int hn, readAtom, if_neg (hne (by decide)), if_neg (hne (by decide)),
      if_neg (hne (by decide)), leadsLetter_toString_int, readInt_toString]
    rfl
  | path hp hword =>
    simp only [List.mem_cons, List.not_mem_nil, or_false, not_or] at hword
    rw [word_path, readAtom, if_neg hword.2.2, if_neg hword.1, if_neg hword.2.1, hp.1]
    rfl
  | str _ => cases hatom
  | concat _ _ _ => cases hatom
  | subexpr _ _ _ _ _ _ => cases hatom

/-! ### Strings, concatenations and helpers -/

theorem toList_word_str (s : String) :
    (View.literal (.str s)).word.toList = '\'' :: (s.toList ++ ['\'']) := by
  show ("'" ++ s ++ "'").toList = _
  simp

end View

theorem toList_join_empty (xs : List String) :
    (Text.join "" xs).toList = xs.flatMap String.toList := by
  induction xs with
  | nil => rfl
  | cons x rest ih =>
    cases rest with
    | nil => simp
    | cons y more =>
      rw [Text.join_cons_cons, List.flatMap_cons, ← ih]
      simp

/-- The parts of a concatenation, one after the other. -/
def partsChars (parts : List View) : List Char := parts.flatMap fun v => v.bare.toList

/-- The parameters and named arguments of a helper, each behind a blank, and the closing braces. -/
def tailChars (params : List View) (hash : List (String × View)) : List Char :=
  params.flatMap (fun v => ' ' :: v.word.toList) ++
    (hash.flatMap (fun e => ' ' :: (e.1.toList ++ '=' :: e.2.word.toList)) ++ [' ', '\x7d', '\x7d'])

@[simp] theorem tailChars_cons (v : View) (params : List View) (hash : List (String × View)) :
    tailChars (v :: params) hash = ' ' :: (v.word.toList ++ tailChars params hash) := by
  simp [tailChars]

@[simp] theorem tailChars_nil_cons (e : String × View) (hash : List (String × View)) :
    tailChars [] (e :: hash) =
      ' ' :: (e.1.toList ++ '=' :: (e.2.word.toList ++ tailChars [] hash)) := by
  simp [tailChars]

@[simp] theorem tailChars_nil : tailChars [] [] = [' ', '\x7d', '\x7d'] := rfl

/-- A blank follows every name and every argument. -/
theorem tailChars_eq (params : List View) (hash : List (String × View)) :
    ∃ x, tailChars params hash = ' ' :: x := by
  cases params with
  | cons v params => exact ⟨_, tailChars_cons v params hash⟩
  | nil =>
    cases hash with
    | cons e hash => exact ⟨_, tailChars_nil_cons e hash⟩
    | nil => exact ⟨_, tailChars_nil⟩

namespace View

theorem toList_word_concat (h : ∀ v ∈ parts, v.Texts) :
    (View.concat (.list parts)).word.toList = '"' :: (partsChars parts ++ ['"']) := by
  rw [word, argumentPlain, concatOf_eq h]
  show (concatText parts).toList = _
  simp [concatText, toList_join_empty, partsChars, List.flatMap_map]

/-- No well-formed expression is empty, and none begins with a blank or a closing brace. -/
theorem Formed.head_word (h : v.WellFormed) :
    ∃ c cs, v.word.toList = c :: cs ∧ (isTokenChar c = true ∧ v.isAtom = true ∨
      (c = '\'' ∨ c = '"' ∨ c = '\x7b') ∧ v.isAtom = false) := by
  by_cases hatom : v.isAtom = true
  · obtain ⟨hne, hall⟩ := h.word_atom hatom
    obtain ⟨c, cs, hcs⟩ := List.exists_cons_of_ne_nil fun hnil => hne (String.toList_eq_nil_iff.1 hnil)
    exact ⟨c, cs, hcs, .inl ⟨hall c (hcs ▸ List.mem_cons_self), hatom⟩⟩
  · cases h with
    | null => exact absurd rfl hatom
    | bool _ => exact absurd rfl hatom
    | int _ => exact absurd rfl hatom
    | path _ _ => exact absurd rfl hatom
    | str _ => exact ⟨_, _, toList_word_str _, .inr ⟨.inl rfl, rfl⟩⟩
    | concat hparts _ _ =>
      exact ⟨_, _, toList_word_concat fun v hv => (hparts v hv).texts, .inr ⟨.inr (.inl rfl), rfl⟩⟩
    | @subexpr name _ _ _ hparams _ hvalues _ _ =>
      have hword := helperOf_eq name (fun v hv => (hparams v hv).texts)
        fun e he => (hvalues e he).texts
      rw [word, argumentPlain, hword]
      exact ⟨_, _, toList_mustache _, .inr ⟨.inr (.inr rfl), rfl⟩⟩

theorem Formed.word_ne_empty (h : v.WellFormed) : v.word ≠ "" := by
  obtain ⟨c, cs, hcs, -⟩ := h.head_word
  exact fun hempty => by simp [hempty] at hcs

theorem toList_word_subexpr (name : String) (hparams : ∀ v ∈ params, v.WellFormed)
    (hvalues : ∀ e ∈ hash, e.2.WellFormed) :
    (View.subexpr (.str name) (.list params) (named hash)).word.toList =
      '\x7b' :: '\x7b' :: ' ' :: (name.toList ++ tailChars params hash) := by
  have hword := helperOf_eq name (fun v hv => (hparams v hv).texts)
    fun e he => (hvalues e he).texts
  have hfirst := toList_group_join View.word (fun v => ' ' :: v.word.toList) params
    (fun v hv => (hparams v hv).word_ne_empty) (fun _ _ => rfl)
  have hsecond := toList_group_join pairText
    (fun e => ' ' :: (e.1.toList ++ '=' :: e.2.word.toList)) hash
    (fun e _ => by simp [pairText]) (fun e _ => by simp [pairText])
  rw [word, argumentPlain, hword]
  show (helperText name params hash).toList = _
  rw [helperText, toList_mustache, String.toList_append, String.toList_append, hfirst, hsecond]
  simp [tailChars]

/-- An expression can be read off the front of a text. An atom has to be followed by a blank or by
nothing; every other expression shows where it ends. -/
def Readable (v : View) : Prop :=
  ∀ {w : View}, w.WellFormed → ∀ {r r' : List Char}, (v.isAtom = true → AtGap r) →
    (w.isAtom = true → AtGap r') → v.word.toList ++ r = w.word.toList ++ r' → v = w ∧ r = r'

/-- Atoms are readable: nothing else begins with a token character. -/
theorem Formed.readable_of_atom (hv : v.WellFormed) (hatom : v.isAtom = true) : v.Readable := by
  intro w hw r r' hr hr' h
  obtain ⟨c, cs, hcs, ⟨hc, -⟩ | ⟨-, hfalse⟩⟩ := hv.head_word
  · obtain ⟨d, ds, hds, ⟨-, hwatom⟩ | ⟨hd, -⟩⟩ := hw.head_word
    · obtain ⟨hword, hrest⟩ := tokens_append_inj (hv.word_atom hatom).2 (hw.word_atom hwatom).2
        (hr hatom) (hr' hwatom) h
      have hread := congrArg readAtom (String.toList_injective hword)
      rw [hv.readAtom_word hatom, hw.readAtom_word hwatom] at hread
      exact ⟨hread, hrest⟩
    · rw [hcs, hds] at h
      obtain ⟨rfl, -⟩ := List.cons.inj h
      rcases hd with rfl | rfl | rfl <;> exact absurd hc (by decide)
  · rw [hatom] at hfalse
    cases hfalse

/-- An expression that begins with a mark is neither an atom nor one that begins with another mark. -/
theorem Formed.head_eq (hv : v.WellFormed) (hw : w.WellFormed) (hatom : v.isAtom = false)
    (h : v.word.toList ++ r = w.word.toList ++ r') :
    w.isAtom = false ∧ v.word.toList.head? = w.word.toList.head? := by
  obtain ⟨c, cs, hcs, ⟨-, htrue⟩ | ⟨hc, -⟩⟩ := hv.head_word
  · rw [hatom] at htrue
    cases htrue
  · obtain ⟨d, ds, hds, hd⟩ := hw.head_word
    rw [hcs, hds] at h
    obtain ⟨rfl, -⟩ := List.cons.inj h
    rcases hd with ⟨hd, -⟩ | ⟨-, hd⟩
    · rcases hc with rfl | rfl | rfl <;> exact absurd hd (by decide)
    · exact ⟨hd, by rw [hcs, hds]; rfl⟩

end View

/-! ### The arguments of a helper -/

/-- A parameter does not look like a named argument. -/
theorem word_ne_pair {key : String} {x y : List Char} (hv : v.WellFormed) (hkey : IsToken key) :
    v.word.toList ++ ' ' :: x ≠ key.toList ++ '=' :: y := by
  intro h
  obtain ⟨c, cs, hcs, ⟨-, hatom⟩ | ⟨hc, -⟩⟩ := hv.head_word
  · obtain ⟨-, hsep, -⟩ := append_cons_inj_of_class (p := fun c => isTokenChar c = true)
      (hv.word_atom hatom).2 hkey.all (by decide) (by decide) h
    exact absurd hsep (by decide)
  · obtain ⟨d, ds, hds, hd⟩ := hkey.chars
    rw [hcs, hds] at h
    obtain ⟨rfl, -⟩ := List.cons.inj h
    rcases hc with rfl | rfl | rfl <;> exact absurd hd (by decide)

/-- A parameter does not look like the end of a helper. -/
theorem word_ne_close {x y : List Char} (hv : v.WellFormed) : v.word.toList ++ x ≠ '\x7d' :: y := by
  intro h
  obtain ⟨c, cs, hcs, hc⟩ := hv.head_word
  rw [hcs] at h
  obtain ⟨rfl, -⟩ := List.cons.inj h
  rcases hc with ⟨hc, -⟩ | ⟨hc | hc | hc, -⟩ <;> exact absurd hc (by decide)

/-- Parameters are not taken for named arguments, nor for the end of the helper. -/
theorem cons_tail_ne (hv : v.WellFormed) (hkeys : ∀ e ∈ hash', IsToken e.1) :
    tailChars (v :: params) hash ++ r ≠ tailChars [] hash' ++ r' := by
  intro h
  obtain ⟨x, hx⟩ := tailChars_eq params hash
  rw [tailChars_cons, hx] at h
  cases hash' with
  | nil =>
    simp only [tailChars_nil, List.cons_append, List.append_assoc, List.cons.injEq, true_and] at h
    exact word_ne_close hv h
  | cons e rest =>
    simp only [tailChars_nil_cons, List.cons_append, List.append_assoc, List.cons.injEq,
      true_and] at h
    exact word_ne_pair hv (hkeys e List.mem_cons_self) h

/-- The named arguments of a helper are read one by one. -/
theorem hash_append_inj (hkeys : ∀ e ∈ hash, IsToken e.1) (hkeys' : ∀ e ∈ hash', IsToken e.1)
    (hread : ∀ e ∈ hash, e.2.Readable) (hvalues' : ∀ e ∈ hash', e.2.WellFormed)
    (h : tailChars [] hash ++ r = tailChars [] hash' ++ r') : hash = hash' ∧ r = r' := by
  have hclose : ∀ {key : String} {x y : List Char}, IsToken key →
      key.toList ++ x ≠ '\x7d' :: y := by
    intro key x y hkey heq
    obtain ⟨c, cs, hcs, hc⟩ := hkey.chars
    rw [hcs] at heq
    obtain ⟨rfl, -⟩ := List.cons.inj heq
    exact absurd hc (by decide)
  induction hash generalizing hash' with
  | nil =>
    cases hash' with
    | nil => simpa using h
    | cons e rest =>
      simp only [tailChars_nil, tailChars_nil_cons, List.cons_append, List.append_assoc,
        List.cons.injEq, true_and] at h
      exact absurd h.symm (hclose (hkeys' e List.mem_cons_self))
  | cons e rest ih =>
    cases hash' with
    | nil =>
      simp only [tailChars_nil, tailChars_nil_cons, List.cons_append, List.append_assoc,
        List.cons.injEq, true_and] at h
      exact absurd h (hclose (hkeys e List.mem_cons_self))
    | cons e' rest' =>
      simp only [tailChars_nil_cons, List.cons_append, List.append_assoc, List.cons.injEq,
        true_and] at h
      obtain ⟨hkey, -, h⟩ := append_cons_inj_of_class (p := fun c => isTokenChar c = true)
        (hkeys e List.mem_cons_self).all (hkeys' e' List.mem_cons_self).all (by decide) (by decide) h
      obtain ⟨x, hx⟩ := tailChars_eq [] rest
      obtain ⟨x', hx'⟩ := tailChars_eq [] rest'
      obtain ⟨hvalue, h⟩ := hread e List.mem_cons_self (hvalues' e' List.mem_cons_self)
        (fun _ => by rw [hx]; exact atGap_cons _) (fun _ => by rw [hx']; exact atGap_cons _) h
      obtain ⟨rfl, rfl⟩ := ih (fun f hf => hkeys f (List.mem_cons_of_mem e hf))
        (fun f hf => hkeys' f (List.mem_cons_of_mem e' hf))
        (fun f hf => hread f (List.mem_cons_of_mem e hf))
        (fun f hf => hvalues' f (List.mem_cons_of_mem e' hf)) h
      exact ⟨by rw [Prod.ext (String.toList_injective hkey) hvalue], rfl⟩

/-- The arguments of a helper are read one by one, up to the closing braces. -/
theorem tail_append_inj {params' : List View} (hparams : ∀ v ∈ params, v.WellFormed)
    (hparams' : ∀ v ∈ params', v.WellFormed) (hkeys : ∀ e ∈ hash, IsToken e.1)
    (hkeys' : ∀ e ∈ hash', IsToken e.1) (hvalues' : ∀ e ∈ hash', e.2.WellFormed)
    (hread : ∀ v ∈ params, v.Readable) (hreadHash : ∀ e ∈ hash, e.2.Readable)
    (h : tailChars params hash ++ r = tailChars params' hash' ++ r') :
    params = params' ∧ hash = hash' ∧ r = r' := by
  induction params generalizing params' with
  | nil =>
    cases params' with
    | nil =>
      obtain ⟨rfl, rfl⟩ := hash_append_inj hkeys hkeys' hreadHash hvalues' h
      exact ⟨rfl, rfl, rfl⟩
    | cons w rest' => exact absurd h.symm (cons_tail_ne (hparams' w List.mem_cons_self) hkeys)
  | cons v rest ih =>
    cases params' with
    | nil => exact absurd h (cons_tail_ne (hparams v List.mem_cons_self) hkeys')
    | cons w rest' =>
      simp only [tailChars_cons, List.cons_append, List.append_assoc, List.cons.injEq,
        true_and] at h
      obtain ⟨x, hx⟩ := tailChars_eq rest hash
      obtain ⟨x', hx'⟩ := tailChars_eq rest' hash'
      obtain ⟨rfl, hrest⟩ := hread v List.mem_cons_self (hparams' w List.mem_cons_self)
        (fun _ => by rw [hx]; exact atGap_cons _) (fun _ => by rw [hx']; exact atGap_cons _) h
      obtain ⟨rfl, rfl, rfl⟩ := ih (fun u hu => hparams u (List.mem_cons_of_mem v hu))
        (fun u hu => hparams' u (List.mem_cons_of_mem v hu))
        (fun u hu => hread u (List.mem_cons_of_mem v hu)) hrest
      exact ⟨rfl, rfl, rfl⟩

/-- A helper is read up to its closing braces. -/
theorem helper_append_inj {name name' : String} {params' : List View} (hname : IsToken name)
    (hname' : IsToken name') (hparams : ∀ v ∈ params, v.WellFormed)
    (hparams' : ∀ v ∈ params', v.WellFormed) (hkeys : ∀ e ∈ hash, IsToken e.1)
    (hkeys' : ∀ e ∈ hash', IsToken e.1) (hvalues' : ∀ e ∈ hash', e.2.WellFormed)
    (hread : ∀ v ∈ params, v.Readable) (hreadHash : ∀ e ∈ hash, e.2.Readable)
    (h : name.toList ++ (tailChars params hash ++ r) =
      name'.toList ++ (tailChars params' hash' ++ r')) :
    name = name' ∧ params = params' ∧ hash = hash' ∧ r = r' := by
  obtain ⟨x, hx⟩ := tailChars_eq params hash
  obtain ⟨x', hx'⟩ := tailChars_eq params' hash'
  obtain ⟨hnames, htail⟩ := tokens_append_inj hname.all hname'.all (by rw [hx]; exact atGap_cons _)
    (by rw [hx']; exact atGap_cons _) h
  exact ⟨String.toList_injective hnames,
    tail_append_inj hparams hparams' hkeys hkeys' hvalues' hread hreadHash htail⟩

/-! ### The parts of a concatenation -/

namespace View

/-- A path between braces looks like a helper that is given nothing. -/
theorem toList_bare_path (p : String) :
    (View.path (.str p)).bare.toList = '\x7b' :: '\x7b' :: ' ' :: (p.toList ++ tailChars [] []) :=
  toList_mustache p

/-- A part that is not a string stands between braces. -/
theorem Formed.bare_reference (h : v.WellFormed) (hpart : v.isPiece = true)
    (hlit : v.isLiteral = false) : ∃ cs, v.bare.toList = '\x7b' :: cs := by
  cases h with
  | null => cases hlit
  | bool _ => cases hlit
  | int _ => cases hlit
  | str _ => cases hlit
  | path _ _ => exact ⟨_, toList_bare_path _⟩
  | concat _ _ _ => cases hpart
  | subexpr _ hparams _ hvalues _ _ => exact ⟨_, toList_word_subexpr _ hparams hvalues⟩

/-- A part that is a string is not empty and holds no marks. -/
theorem Formed.bare_literal (h : v.WellFormed) (hpart : v.isPiece = true)
    (hlit : v.isLiteral = true) :
    ∃ s, v = .literal (.str s) ∧ v.bare = s ∧ Unmarked s ∧ ∃ c cs, s.toList = c :: cs := by
  cases h with
  | null => cases hpart
  | bool _ => cases hpart
  | int _ => cases hpart
  | @str s hs =>
    have hne : s.toList ≠ [] := fun h => by simp [isPiece, String.toList_eq_nil_iff.1 h] at hpart
    exact ⟨s, rfl, rfl, hs, List.exists_cons_of_ne_nil hne⟩
  | path _ _ => cases hlit
  | concat _ _ _ => cases hlit
  | subexpr _ _ _ _ _ _ => cases hlit

/-- A path between braces is not taken for a helper, which is given something. -/
theorem Formed.path_append_inj {p : String} (hp : IsToken p) (hw : w.WellFormed)
    (hpart : w.isPiece = true) (hlit : w.isLiteral = false)
    (h : (View.path (.str p)).bare.toList ++ r = w.bare.toList ++ r') :
    View.path (.str p) = w ∧ r = r' := by
  rw [toList_bare_path] at h
  cases hw with
  | null => cases hlit
  | bool _ => cases hlit
  | int _ => cases hlit
  | str _ => cases hlit
  | concat _ _ _ => cases hpart
  | path hp' _ =>
    simp only [toList_bare_path, List.cons_append, List.append_assoc, List.cons.injEq,
      true_and] at h
    obtain ⟨rfl, -, -, rfl⟩ := helper_append_inj hp hp' (List.forall_mem_nil _)
      (List.forall_mem_nil _) (List.forall_mem_nil _) (List.forall_mem_nil _)
      (List.forall_mem_nil _) (List.forall_mem_nil _) (List.forall_mem_nil _) h
    exact ⟨rfl, rfl⟩
  | @subexpr name' params' hash' hname' hparams' hkeys' hvalues' _ hgiven' =>
    have htext : (View.subexpr (.str name') (.list params') (named hash')).bare.toList = _ :=
      toList_word_subexpr _ hparams' hvalues'
    rw [htext] at h
    simp only [List.cons_append, List.append_assoc, List.cons.injEq, true_and] at h
    obtain ⟨-, hparams, hhash, -⟩ := helper_append_inj hp hname' (List.forall_mem_nil _) hparams'
      (List.forall_mem_nil _) hkeys' hvalues' (List.forall_mem_nil _) (List.forall_mem_nil _) h
    rcases hgiven' with hne | hne
    · exact absurd hparams.symm hne
    · exact absurd hhash.symm hne

/-- A part between braces is read up to the closing braces. -/
theorem Formed.reference_append_inj (hv : v.WellFormed) (hw : w.WellFormed)
    (hpart : v.isPiece = true) (hpart' : w.isPiece = true) (hlit : v.isLiteral = false)
    (hlit' : w.isLiteral = false) (hread : v.Readable)
    (h : v.bare.toList ++ r = w.bare.toList ++ r') : v = w ∧ r = r' := by
  cases hv with
  | null => cases hlit
  | bool _ => cases hlit
  | int _ => cases hlit
  | str _ => cases hlit
  | concat _ _ _ => cases hpart
  | path hp _ => exact hw.path_append_inj hp hpart' hlit' h
  | subexpr hname hparams hkeys hvalues hdistinct hgiven =>
    cases hw with
    | null => cases hlit'
    | bool _ => cases hlit'
    | int _ => cases hlit'
    | str _ => cases hlit'
    | concat _ _ _ => cases hpart'
    | path hp' _ =>
      obtain ⟨heq, hrest⟩ := Formed.path_append_inj hp'
        (.subexpr hname hparams hkeys hvalues hdistinct hgiven) rfl rfl h.symm
      exact ⟨heq.symm, hrest.symm⟩
    | subexpr hname' hparams' hkeys' hvalues' hdistinct' hgiven' =>
      exact hread (.subexpr hname' hparams' hkeys' hvalues' hdistinct' hgiven')
        (fun hatom => by cases hatom) (fun hatom => by cases hatom) h

end View

/-- Parts that make a well-formed concatenation. -/
structure AreParts (parts : List View) : Prop where
  wellFormed : ∀ v ∈ parts, v.WellFormed
  kind : ∀ v ∈ parts, v.isPiece = true
  apart : parts.IsChain fun v w => ¬ (v.isLiteral = true ∧ w.isLiteral = true)

theorem AreParts.tail (h : AreParts (v :: rest)) : AreParts rest where
  wellFormed w hw := h.wellFormed w (List.mem_cons_of_mem v hw)
  kind w hw := h.kind w (List.mem_cons_of_mem v hw)
  apart := h.apart.tail

@[simp] theorem partsChars_cons (v : View) (rest : List View) :
    partsChars (v :: rest) = v.bare.toList ++ partsChars rest := rfl

/-- A part does not begin with a double quote; if it is a string, it begins with no mark at all, and
otherwise with a brace. -/
theorem AreParts.head_bare (h : AreParts (v :: rest)) :
    ∃ c cs, v.bare.toList = c :: cs ∧ c ≠ '"' ∧ (c = '\x7b' ↔ v.isLiteral = false) := by
  have hv := h.wellFormed v List.mem_cons_self
  have hkind := h.kind v List.mem_cons_self
  cases hlit : v.isLiteral with
  | false =>
    obtain ⟨cs, hcs⟩ := hv.bare_reference hkind hlit
    exact ⟨_, cs, hcs, by decide, by simp⟩
  | true =>
    obtain ⟨s, -, hbare, hs, c, cs, hcs⟩ := hv.bare_literal hkind hlit
    have hc : isMark c = false := hs.all c (hcs ▸ List.mem_cons_self)
    refine ⟨c, cs, hbare ▸ hcs, ?_, ?_⟩
    · rintro rfl
      exact absurd hc (by decide)
    · refine ⟨?_, fun h => by cases h⟩
      rintro rfl
      exact absurd hc (by decide)

/-- What follows a string in a concatenation shows where the string ends. -/
theorem AreParts.mark_after (h : AreParts (v :: rest)) (hlit : v.isLiteral = true) (r : List Char) :
    ∃ c x, partsChars rest ++ '"' :: r = c :: x ∧ isMark c = true := by
  cases rest with
  | nil => exact ⟨'"', r, rfl, by decide⟩
  | cons w more =>
    have hapart := (List.isChain_cons_cons.1 h.apart).1
    have hwlit : w.isLiteral = false := by
      cases hw : w.isLiteral with
      | false => rfl
      | true => exact absurd ⟨hlit, hw⟩ hapart
    obtain ⟨c, cs, hcs, -, hbrace⟩ := h.tail.head_bare
    obtain rfl := hbrace.2 hwlit
    exact ⟨'\x7b', cs ++ (partsChars more ++ '"' :: r), by simp [hcs], by decide⟩

/-- The parts of a concatenation are read one by one, up to the closing quote. -/
theorem parts_append_inj {parts' : List View} (hparts : AreParts parts) (hparts' : AreParts parts')
    (hread : ∀ v ∈ parts, v.Readable)
    (h : partsChars parts ++ '"' :: r = partsChars parts' ++ '"' :: r') :
    parts = parts' ∧ r = r' := by
  have hquote : ∀ {v : View} {rest : List View} {x y : List Char}, AreParts (v :: rest) →
      '"' :: x ≠ partsChars (v :: rest) ++ y := by
    intro v rest x y hp heq
    obtain ⟨c, cs, hcs, hc, -⟩ := hp.head_bare
    rw [partsChars_cons, hcs] at heq
    exact hc (List.cons.inj heq).1.symm
  induction parts generalizing parts' with
  | nil =>
    cases parts' with
    | nil => simpa [partsChars] using h
    | cons w rest' => exact absurd h (hquote hparts')
  | cons v rest ih =>
    cases parts' with
    | nil => exact absurd h.symm (hquote hparts)
    | cons w rest' =>
      have hv := hparts.wellFormed v List.mem_cons_self
      have hw := hparts'.wellFormed w List.mem_cons_self
      have hvkind := hparts.kind v List.mem_cons_self
      have hwkind := hparts'.kind w List.mem_cons_self
      rw [partsChars_cons, partsChars_cons, List.append_assoc, List.append_assoc] at h
      -- both parts are strings, or both stand between braces
      have hsame : v.isLiteral = w.isLiteral := by
        obtain ⟨c, cs, hcs, -, hc⟩ := hparts.head_bare
        obtain ⟨d, ds, hds, -, hd⟩ := hparts'.head_bare
        rw [hcs, hds] at h
        obtain rfl := (List.cons.inj h).1
        have hiff := hc.symm.trans hd
        cases hvl : v.isLiteral <;> cases hwl : w.isLiteral <;> simp_all
      have hfirst : v = w ∧ partsChars rest ++ '"' :: r = partsChars rest' ++ '"' :: r' := by
        cases hlit : v.isLiteral with
        | false =>
          exact hv.reference_append_inj hw hvkind hwkind hlit (hsame ▸ hlit)
            (hread v List.mem_cons_self) h
        | true =>
          obtain ⟨s, rfl, hbare, hs, -⟩ := hv.bare_literal hvkind hlit
          obtain ⟨s', rfl, hbare', hs', -⟩ := hw.bare_literal hwkind (hsame ▸ hlit)
          obtain ⟨c, x, hcx, hc⟩ := hparts.mark_after hlit r
          obtain ⟨c', x', hcx', hc'⟩ := hparts'.mark_after (hsame ▸ hlit) r'
          rw [hbare, hbare', hcx, hcx'] at h
          obtain ⟨hstr, rfl, rfl⟩ := append_cons_inj_of_class (p := fun c => isMark c = false) hs.all hs'.all
            (by simp [hc]) (by simp [hc']) h
          exact ⟨by rw [String.toList_injective hstr], hcx.trans hcx'.symm⟩
      obtain ⟨rfl, hfollow⟩ := hfirst
      obtain ⟨rfl, rfl⟩ := ih hparts.tail hparts'.tail
        (fun u hu => hread u (List.mem_cons_of_mem v hu)) hfollow
      exact ⟨rfl, rfl⟩

/-! ### Whole expressions -/

namespace View

/-- The first character tells strings, concatenations and helpers apart. -/
theorem Formed.cases_head (hw : w.WellFormed) (hatom : w.isAtom = false) :
    (∃ s, w = .literal (.str s) ∧ Unmarked s ∧ w.word.toList.head? = some '\'') ∨
    (∃ parts, w = .concat (.list parts) ∧ AreParts parts ∧ w.word.toList.head? = some '"') ∨
    (∃ name params hash, w = .subexpr (.str name) (.list params) (named hash) ∧ IsToken name ∧
      (∀ v ∈ params, v.WellFormed) ∧ (∀ e ∈ hash, IsToken e.1) ∧ (∀ e ∈ hash, e.2.WellFormed) ∧
      w.word.toList.head? = some '\x7b') := by
  cases hw with
  | null => cases hatom
  | bool _ => cases hatom
  | int _ => cases hatom
  | path _ _ => cases hatom
  | @str s hs => exact .inl ⟨s, rfl, hs, by rw [toList_word_str]; rfl⟩
  | @concat parts hparts hkind happart =>
    have htexts : ∀ v ∈ parts, v.Texts := fun v hv => (hparts v hv).texts
    exact .inr (.inl ⟨parts, rfl, ⟨hparts, hkind, happart⟩, by rw [toList_word_concat htexts]; rfl⟩)
  | @subexpr name params hash hname hparams hkeys hvalues _ _ =>
    exact .inr (.inr ⟨name, params, hash, rfl, hname, hparams, hkeys, hvalues,
      by rw [toList_word_subexpr _ hparams hvalues]; rfl⟩)

/-- Every well-formed expression can be read off the front of a text. -/
theorem Formed.readable (hv : v.WellFormed) : v.Readable := by
  induction hv with
  | null => exact Formed.readable_of_atom .null rfl
  | bool b => exact Formed.readable_of_atom (.bool b) rfl
  | int hn => exact Formed.readable_of_atom (.int hn) rfl
  | path hp hword => exact Formed.readable_of_atom (.path hp hword) rfl
  | @str s hs =>
    intro w hw r r' _ _ h
    obtain ⟨hatom, hhead⟩ := Formed.head_eq (.str hs) hw rfl h
    rw [toList_word_str, List.head?_cons] at hhead
    rcases hw.cases_head hatom with ⟨s', rfl, hs', -⟩ | ⟨_, -, -, hw⟩ | ⟨_, _, _, -, -, -, -, -, hw⟩
    · simp only [toList_word_str, List.cons_append, List.append_assoc, List.nil_append,
        List.cons.injEq, true_and] at h
      obtain ⟨hstr, -, hrest⟩ := append_cons_inj_of_class (p := fun c => isMark c = false) hs.all hs'.all
        (by decide) (by decide) h
      exact ⟨by rw [String.toList_injective hstr], hrest⟩
    · rw [hw] at hhead
      exact absurd hhead (by decide)
    · rw [hw] at hhead
      exact absurd hhead (by decide)
  | @concat parts hparts hkind happart ih =>
    intro w hw r r' _ _ h
    have hwhole : View.WellFormed _ := .concat hparts hkind happart
    have htext := toList_word_concat fun v hv => (hparts v hv).texts
    obtain ⟨hatom, hhead⟩ := hwhole.head_eq hw rfl h
    rw [htext, List.head?_cons] at hhead
    rcases hw.cases_head hatom with ⟨_, -, -, hw⟩ | ⟨parts', rfl, hp', -⟩ | ⟨_, _, _, -, -, -, -, -, hw⟩
    · rw [hw] at hhead
      exact absurd hhead (by decide)
    · rw [htext, toList_word_concat fun v hv => (hp'.wellFormed v hv).texts] at h
      simp only [List.cons_append, List.append_assoc, List.nil_append, List.cons.injEq,
        true_and] at h
      obtain ⟨rfl, rfl⟩ := parts_append_inj ⟨hparts, hkind, happart⟩ hp' ih h
      exact ⟨rfl, rfl⟩
    · rw [hw] at hhead
      exact absurd hhead (by decide)
  | @subexpr name params hash hname hparams hkeys hvalues hdistinct hgiven ihp ihv =>
    intro w hw r r' _ _ h
    have hwhole : View.WellFormed _ := .subexpr hname hparams hkeys hvalues hdistinct hgiven
    have htext := toList_word_subexpr name hparams hvalues
    obtain ⟨hatom, hhead⟩ := hwhole.head_eq hw rfl h
    rw [htext, List.head?_cons] at hhead
    rcases hw.cases_head hatom with
      ⟨_, -, -, hw⟩ | ⟨_, -, -, hw⟩ | ⟨name', params', hash', rfl, hname', hp', hk', hv', -⟩
    · rw [hw] at hhead
      exact absurd hhead (by decide)
    · rw [hw] at hhead
      exact absurd hhead (by decide)
    · rw [htext, toList_word_subexpr _ hp' hv'] at h
      simp only [List.cons_append, List.append_assoc, List.cons.injEq, true_and] at h
      obtain ⟨rfl, rfl, rfl, rfl⟩ := helper_append_inj hname hname' hparams hp' hkeys hk' hv' ihp ihv h
      exact ⟨rfl, rfl⟩

/-- Two well-formed expressions that are the same argument are equal. -/
theorem Formed.eq_of_word (hv : v.WellFormed) (hw : w.WellFormed) (h : v.word = w.word) : v = w :=
  (hv.readable hw (fun _ => .inl rfl) (fun _ => .inl rfl) (by rw [h] : v.word.toList ++ [] = _)).1

/-- Only a path is something else as a value than as an argument. -/
theorem Formed.braced_cases (hv : v.WellFormed) :
    (∃ p, v = .path (.str p) ∧ IsToken p) ∨ v.braced = v.word := by
  cases hv with
  | path hp _ => exact .inl ⟨_, rfl, hp⟩
  | null => exact .inr rfl
  | bool _ => exact .inr rfl
  | int _ => exact .inr rfl
  | str _ => exact .inr rfl
  | concat _ _ _ => exact .inr rfl
  | subexpr _ _ _ _ _ _ => exact .inr rfl

/-- A path between braces is no other value. -/
theorem Formed.eq_of_mustache {p : String} (hp : IsToken p) (hw : w.WellFormed)
    (h : mustache p = w.braced) : View.path (.str p) = w := by
  have hbare : (View.path (.str p)).bare.toList = w.braced.toList := congrArg String.toList h
  have hbrace : w.braced.toList.head? = some '\x7b' := by
    rw [← hbare, toList_bare_path]
    rfl
  rcases hw.braced_cases with ⟨q, rfl, -⟩ | hword
  · exact (hw.path_append_inj hp rfl rfl (congrArg (· ++ []) hbare)).1
  · rw [hword] at hbrace hbare
    have hatom : w.isAtom = false := by
      obtain ⟨c, cs, hcs, ⟨hc, -⟩ | ⟨-, hatom⟩⟩ := hw.head_word
      · rw [hcs, List.head?_cons, Option.some.injEq] at hbrace
        exact absurd (hbrace ▸ hc) (by decide)
      · exact hatom
    rcases hw.cases_head hatom with ⟨_, -, -, hh⟩ | ⟨_, -, -, hh⟩ | ⟨_, _, _, rfl, -⟩
    · rw [hbrace] at hh
      exact absurd hh (by decide)
    · rw [hbrace] at hh
      exact absurd hh (by decide)
    · exact (hw.path_append_inj hp rfl rfl (congrArg (· ++ []) hbare)).1

/-- Two well-formed expressions that are the same value of an attribute are equal. -/
theorem Formed.eq_of_braced (hv : v.WellFormed) (hw : w.WellFormed) (h : v.braced = w.braced) :
    v = w := by
  rcases hv.braced_cases with ⟨p, rfl, hp⟩ | hvword
  · exact hw.eq_of_mustache hp h
  · rcases hw.braced_cases with ⟨q, rfl, hq⟩ | hwword
    · exact (hv.eq_of_mustache hq h.symm).symm
    · exact hv.eq_of_word hw (hvword ▸ hwword ▸ h)

/-- An expression has one of its texts. -/
def Speaks (v : View) : Prop :=
  (∃ x, v.argumentPlain = .ok x) ∨ (∃ x, v.argument = .ok x) ∨ (∃ x, v.inlineText = .ok x) ∨
    ∃ x, v.partText = .ok x

theorem Speaks.of_text {x : Except Fault String} (h : v.Speaks) (hplain : v.argumentPlain = x)
    (hargument : v.argument = x.map .str) (hinline : v.inlineText = x) (hpart : v.partText = x) :
    ∃ text, x = .ok text := by
  rw [Speaks, hplain, hargument, hinline, hpart] at h
  cases x with
  | ok text => exact ⟨text, rfl⟩
  | error fault => simp [Except.map] at h

end View

theorem partItems_ok {texts : List String} (h : partItems parts = .ok texts) :
    ∀ v ∈ parts, v.Speaks := by
  induction parts generalizing texts with
  | nil => simp
  | cons v rest ih =>
    obtain ⟨text, htext, h⟩ := bind_eq_ok_iff.1 h
    obtain ⟨texts, hrest, -⟩ := bind_eq_ok_iff.1 h
    exact List.forall_mem_cons.2 ⟨.inr (.inr (.inr ⟨text, htext⟩)), ih hrest⟩

theorem argumentItems_ok {texts : List String} (h : argumentItems params = .ok texts) :
    ∀ v ∈ params, v.Speaks := by
  induction params generalizing texts with
  | nil => simp
  | cons v rest ih =>
    obtain ⟨x, hx, h⟩ := bind_eq_ok_iff.1 h
    obtain ⟨texts, hrest, -⟩ := bind_eq_ok_iff.1 h
    exact List.forall_mem_cons.2 ⟨.inr (.inl ⟨x, hx⟩), ih hrest⟩

theorem hashText_ok {texts : List String} (h : hashText (View.named hash) = .ok texts) :
    ∀ e ∈ hash, e.2.Speaks := by
  rw [View.named, hashText] at h
  induction hash generalizing texts with
  | nil => simp
  | cons e rest ih =>
    obtain ⟨pair, hpair, h⟩ := bind_eq_ok_iff.1 h
    obtain ⟨texts, hrest, -⟩ := bind_eq_ok_iff.1 h
    obtain ⟨_, -, hpair⟩ := bind_eq_ok_iff.1 hpair
    obtain ⟨text, htext, -⟩ := bind_eq_ok_iff.1 hpair
    exact List.forall_mem_cons.2 ⟨.inl ⟨text, htext⟩, ih hrest⟩

namespace View

/-- If a well-formed expression has a text, its numbers can be written. -/
theorem Formed.wellFormed (h : v.Formed fun _ => True) (hspeaks : v.Speaks) : v.WellFormed := by
  induction h with
  | null => exact .null
  | bool b => exact .bool b
  | @int n _ =>
    obtain ⟨hplain, hargument, hinline, hpart⟩ := texts_int n
    obtain ⟨text, htext⟩ := hspeaks.of_text rfl hargument hinline hpart
    rw [hplain] at htext
    split_ifs at htext with hn
    exact .int hn
  | str hs => exact .str hs
  | path hp hword => exact .path hp hword
  | concat _ hkind happart ih =>
    obtain ⟨text, htext⟩ := hspeaks.of_text rfl rfl rfl rfl
    obtain ⟨texts, hparts, -⟩ := bind_eq_ok_iff.1 htext
    exact .concat (fun v hv => ih v hv (partItems_ok hparts v hv)) hkind happart
  | subexpr hname _ hkeys _ hdistinct hgiven ihp ihv =>
    obtain ⟨text, htext⟩ := hspeaks.of_text rfl rfl rfl rfl
    obtain ⟨call, hcall, -⟩ := bind_eq_ok_iff.1 htext
    obtain ⟨texts, hparams, hcall⟩ := bind_eq_ok_iff.1 hcall
    obtain ⟨_, hhash, -⟩ := bind_eq_ok_iff.1 hcall
    exact .subexpr hname (fun v hv => ihp v hv (argumentItems_ok hparams v hv)) hkeys
      (fun e he => ihv e he (hashText_ok hhash e he)) hdistinct hgiven

end View

/-- **Expressions are unambiguous.** A well-formed expression whose numbers can be written has a text
as an argument and one as the value of an attribute. Whatever its numbers are, either text determines
it. -/
theorem expression_eq_of_text {v w : View} (hv : v.Formed fun _ => True)
    (hw : w.Formed fun _ => True) :
    (v.WellFormed → ∃ word value, v.argument = .ok (.str word) ∧ v.inlineText = .ok value) ∧
      (∀ word, v.argument = .ok word → w.argument = .ok word → v = w) ∧
      ∀ value, v.inlineText = .ok value → w.inlineText = .ok value → v = w := by
  refine ⟨fun h => ⟨v.word, v.braced, h.texts.argument, h.texts.inline⟩, fun word h h' => ?_,
    fun value h h' => ?_⟩
  · have hv := hv.wellFormed (.inr (.inl ⟨word, h⟩))
    have hw := hw.wellFormed (.inr (.inl ⟨word, h'⟩))
    rw [← h, hv.texts.argument, hw.texts.argument] at h'
    exact hv.eq_of_word hw (View.str.inj (Except.ok.inj h')).symm
  · have hv := hv.wellFormed (.inr (.inr (.inl ⟨value, h⟩)))
    have hw := hw.wellFormed (.inr (.inr (.inl ⟨value, h'⟩)))
    rw [← h, hv.texts.inline, hw.texts.inline] at h'
    exact hv.eq_of_braced hw (Except.ok.inj h').symm

/-- A helper inside a concatenation inside a helper, where one argument more is a parameter or has a
name. -/
def wordingSample (params : List View) (hash : List (String × View)) : View :=
  .subexpr (.str "t")
    (.list (.concat (.list [.literal (.str "a "), .path (.str "b.c"),
      .subexpr (.str "if") (.list [.literal (.bool true), .literal (.int (-3))]) (View.named [])]) ::
      params))
    (View.named hash)

theorem wordingSample_formed {number : Int → Prop} (hnumber : number (-3))
    (hparams : ∀ v ∈ params, v.Formed number) (hkeys : ∀ e ∈ hash, IsToken e.1)
    (hvalues : ∀ e ∈ hash, e.2.Formed number) (hdistinct : (hash.map Prod.fst).Nodup) :
    (wordingSample params hash).Formed number := by
  have hcall : (View.subexpr (.str "if") (.list [.literal (.bool true), .literal (.int (-3))])
      (View.named [])).Formed number :=
    .subexpr (by decide)
      (by
        intro v hv
        simp only [List.mem_cons, List.not_mem_nil, or_false] at hv
        rcases hv with rfl | rfl
        · exact .bool true
        · exact .int hnumber)
      (List.forall_mem_nil _) (List.forall_mem_nil _) List.nodup_nil (.inl (by simp))
  refine .subexpr (by decide) (fun v hv => ?_) hkeys hvalues hdistinct
    (.inl (by simp))
  rcases List.mem_cons.1 hv with rfl | hv
  · refine .concat (fun u hu => ?_) (fun u hu => ?_) (by simp [View.isLiteral])
    · simp only [List.mem_cons, List.not_mem_nil, or_false] at hu
      rcases hu with rfl | rfl | rfl
      · exact .str (by decide)
      · exact .path (by decide) (by decide)
      · exact hcall
    · simp only [List.mem_cons, List.not_mem_nil, or_false] at hu
      rcases hu with rfl | rfl | rfl <;> rfl
  · exact hparams v hv

/-- A named argument and a string that looks like it give different texts. -/
theorem expression_eq_of_text_sample :
    (wordingSample [] [("k", .path (.str "e"))]).argument ≠
        (wordingSample [.literal (.str "k=e")] []).argument ∧
      (wordingSample [] [("k", .path (.str "e"))]).inlineText ≠
        (wordingSample [.literal (.str "k=e")] []).inlineText := by
  have hv {number : Int → Prop} (h : number (-3)) :
      (wordingSample [] [("k", .path (.str "e"))]).Formed number :=
    wordingSample_formed h (List.forall_mem_nil _) (List.forall_mem_singleton.2 (by decide))
      (List.forall_mem_singleton.2 (.path (by decide) (by decide))) (List.nodup_singleton _)
  have hw : (wordingSample [.literal (.str "k=e")] []).Formed fun _ => True :=
    wordingSample_formed trivial (List.forall_mem_singleton.2 (.str (by decide)))
      (List.forall_mem_nil _) (List.forall_mem_nil _) List.nodup_nil
  have hne : wordingSample [] [("k", .path (.str "e"))] ≠ wordingSample [.literal (.str "k=e")] [] := by
    simp [wordingSample]
  obtain ⟨htexts, hargument, hvalue⟩ := expression_eq_of_text (hv trivial) hw
  obtain ⟨word, value, hword, hinline⟩ := htexts (hv (by decide +kernel))
  exact ⟨fun h => hne (hargument _ hword (h ▸ hword)), fun h => hne (hvalue _ hinline (h ▸ hinline))⟩

end TemplateRecovery
