import TemplateRecovery.Proofs.Layout

/-!
# Printed trees can be read back

A *plain* tree is a fragment of elements, texts, comments, contents and blocks in which no name runs
into what stands beside it. Its text determines it: where children end, which line closes an element
or a block, and what a tag holds can all be told from the printed lines.

* `PlainNode` is a node of a plain tree, `PlainNode.view` the view that is printed.
* `PlainNode.lines` are its lines at an indentation, and `PlainNode.layout_view` says that its layout
  shows them.
* `openingLine_inj` reads a tag, `plainLines_append_inj` reads nodes off the front of some lines.
* `plain_tree_eq_of_text` says that two plain trees with one text are equal.
-/

namespace TemplateRecovery

open Width View

variable {c : Char} {line : String} {step : Int}

/-! ### Plain trees -/

/-- A text in which some characters do not occur. -/
abbrev Without (cs : List Char) : Type := { s : String // ∀ c ∈ cs, c ∉ s.toList }

/-- The tag of a plain element: a letter followed by letters, digits and dashes is one. -/
abbrev TagName : Type :=
  { s : Without [' ', '>', '\n'] // ∃ c, s.1.toList.head? = some c ∧ c ≠ '!' }

/-- A plain text: neither a tag nor a binding seems to begin in front. -/
abbrev PlainText : Type :=
  { s : Without ['\n'] // ∃ c, s.1.toList.head? = some c ∧ c ≠ '<' ∧ c ≠ '\x7b' }

/-- A key in a tag: letters, digits, dashes, underscores and colons make one. -/
abbrev AttributeKey : Type := Without ['=', '\n']

/-- What a plain tag holds besides its name: static attributes, attributes bound to paths, and
modifiers without arguments. -/
structure TagParts where
  attributes : List (AttributeKey × Without ['\'', '\n'])
  bound : List (AttributeKey × Without [' ', '\n'])
  modifiers : List (Without [' ', '=', '\n'])

/-- A node of a plain tree. -/
inductive PlainNode where
  | element (tag : TagName) (parts : TagParts) (children : List PlainNode)
  | text (contents : PlainText)
  | comment (contents : Without ['\n'])
  | content (contents : Without ['\n'])
  /-- A block without a second branch. -/
  | block (name : Without ['\n']) (primary : List PlainNode)
  /-- A block with a second branch. -/
  | choice (name : Without ['\n']) (primary alternate : List PlainNode)

/-! ### Reading a text from the front -/

/-- A run of characters of one class ends where the class does. -/
theorem append_cons_inj_of_class {p : Char → Prop} {a b x y : List Char} {d : Char}
    (ha : ∀ e ∈ a, p e) (hb : ∀ e ∈ b, p e) (hc : ¬ p c) (hd : ¬ p d)
    (h : a ++ c :: x = b ++ d :: y) : a = b ∧ c = d ∧ x = y := by
  induction a generalizing b with
  | nil =>
    cases b with
    | nil => simpa using h
    | cons e b =>
      simp only [List.nil_append, List.cons_append, List.cons.injEq] at h
      exact absurd (h.1 ▸ hb e (by simp)) hc
  | cons e a ih =>
    cases b with
    | nil =>
      simp only [List.nil_append, List.cons_append, List.cons.injEq] at h
      exact absurd (h.1 ▸ ha e (by simp)) hd
    | cons f b =>
      simp only [List.cons_append, List.cons.injEq] at h
      obtain ⟨rfl, h⟩ := h
      obtain ⟨rfl, rfl, rfl⟩ := ih (fun g hg => ha g (by simp [hg])) (fun g hg => hb g (by simp [hg])) h
      exact ⟨rfl, rfl, rfl⟩

/-- What stands in front of the first occurrence of a character, and what follows it. -/
theorem append_cons_inj_of_ne {a b x y : List Char} (ha : c ∉ a) (hb : c ∉ b)
    (h : a ++ c :: x = b ++ c :: y) : a = b ∧ x = y := by
  have hne : ∀ {l : List Char}, c ∉ l → ∀ e ∈ l, e ≠ c := fun hl e he hec => hl (hec ▸ he)
  obtain ⟨rfl, -, rfl⟩ := append_cons_inj_of_class (hne ha) (hne hb) (by simp) (by simp) h
  exact ⟨rfl, rfl⟩

/-! ### Opening tags -/

def attributeChars (a : AttributeKey × Without ['\'', '\n']) : List Char :=
  ' ' :: (a.1.1.toList ++ '=' :: '\'' :: (a.2.1.toList ++ ['\'']))

def boundChars (b : AttributeKey × Without [' ', '\n']) : List Char :=
  ' ' :: (b.1.1.toList ++ '=' :: (mustache b.2.1).toList)

def modifierChars (m : Without [' ', '=', '\n']) : List Char := ' ' :: (mustache m.1).toList

/-- The end of a tag, from its modifiers on. -/
def modifiersTail (ms : List (Without [' ', '=', '\n'])) : List Char :=
  ms.flatMap modifierChars ++ ['>']

/-- The end of a tag, from its bound attributes on. -/
def boundTail (bs : List (AttributeKey × Without [' ', '\n']))
    (ms : List (Without [' ', '=', '\n'])) : List Char :=
  bs.flatMap boundChars ++ modifiersTail ms

/-- What follows the name in an opening tag. -/
def TagParts.tail (p : TagParts) : List Char :=
  p.attributes.flatMap attributeChars ++ boundTail p.bound p.modifiers

theorem toList_mustache (s : String) :
    (mustache s).toList = '\x7b' :: '\x7b' :: ' ' :: (s.toList ++ [' ', '\x7d', '\x7d']) := by
  simp [mustache]

theorem modifiersTail_inj {ms ns : List (Without [' ', '=', '\n'])}
    (h : modifiersTail ms = modifiersTail ns) : ms = ns := by
  induction ms generalizing ns with
  | nil =>
    cases ns with
    | nil => rfl
    | cons n ns => simp [modifiersTail, modifierChars] at h
  | cons m ms ih =>
    cases ns with
    | nil => simp [modifiersTail, modifierChars] at h
    | cons n ns =>
      simp only [modifiersTail, List.flatMap_cons, modifierChars, toList_mustache, List.cons_append,
        List.append_assoc, List.cons.injEq, true_and, List.nil_append] at h
      obtain ⟨hname, h⟩ := append_cons_inj_of_ne (m.2 ' ' (by simp)) (n.2 ' ' (by simp)) h
      simp only [List.cons.injEq, true_and] at h
      rw [Subtype.ext (String.toList_injective hname), ih h]

/-- Only bound attributes and static ones have a sign between key and value. -/
theorem mem_boundTail_iff (bs : List (AttributeKey × Without [' ', '\n']))
    (ms : List (Without [' ', '=', '\n'])) : '=' ∈ boundTail bs ms ↔ bs ≠ [] := by
  have hname : ∀ m : Without [' ', '=', '\n'], '=' ∉ modifierChars m := by
    intro m
    simp [modifierChars, toList_mustache, m.2 '=' (by simp)]
  cases bs with
  | nil => simp [boundTail, modifiersTail, hname]
  | cons b bs => simp [boundTail, boundChars]

theorem boundTail_inj {bs cs : List (AttributeKey × Without [' ', '\n'])}
    {ms ns : List (Without [' ', '=', '\n'])} (h : boundTail bs ms = boundTail cs ns) :
    bs = cs ∧ ms = ns := by
  induction bs generalizing cs with
  | nil =>
    cases cs with
    | nil => exact ⟨rfl, modifiersTail_inj h⟩
    | cons c cs =>
      have hmem : '=' ∈ boundTail [] ms := h ▸ (mem_boundTail_iff (c :: cs) ns).2 (by simp)
      exact absurd rfl ((mem_boundTail_iff [] ms).1 hmem)
  | cons b bs ih =>
    cases cs with
    | nil =>
      have hmem : '=' ∈ boundTail [] ns := h ▸ (mem_boundTail_iff (b :: bs) ms).2 (by simp)
      exact absurd rfl ((mem_boundTail_iff [] ns).1 hmem)
    | cons c cs =>
      simp only [boundTail, List.flatMap_cons, boundChars, toList_mustache, List.cons_append,
        List.append_assoc, List.cons.injEq, true_and, List.nil_append] at h
      obtain ⟨hkey, h⟩ := append_cons_inj_of_ne (b.1.2 '=' (by simp)) (c.1.2 '=' (by simp)) h
      simp only [List.cons.injEq, true_and] at h
      obtain ⟨hpath, h⟩ := append_cons_inj_of_ne (b.2.2 ' ' (by simp)) (c.2.2 ' ' (by simp)) h
      simp only [List.cons.injEq, true_and] at h
      obtain ⟨rfl, rfl⟩ := ih h
      have hb : b = c :=
        Prod.ext (Subtype.ext (String.toList_injective hkey))
          (Subtype.ext (String.toList_injective hpath))
      exact ⟨by rw [hb], rfl⟩

/-- A static attribute is neither a bound attribute nor the end of a tag. -/
theorem attribute_ne_boundTail (a : AttributeKey × Without ['\'', '\n']) (rest : List Char)
    (bs : List (AttributeKey × Without [' ', '\n'])) (ms : List (Without [' ', '=', '\n'])) :
    attributeChars a ++ rest ≠ boundTail bs ms := by
  intro h
  cases bs with
  | nil =>
    have hmem : '=' ∈ boundTail [] ms := h ▸ by simp [attributeChars]
    exact (mem_boundTail_iff [] ms).1 hmem rfl
  | cons b bs =>
    simp only [boundTail, List.flatMap_cons, attributeChars, boundChars, toList_mustache,
      List.cons_append, List.append_assoc, List.cons.injEq, true_and] at h
    obtain ⟨-, h⟩ := append_cons_inj_of_ne (a.1.2 '=' (by simp)) (b.1.2 '=' (by simp)) h
    simp at h

theorem TagParts.tail_inj {p q : TagParts} (h : p.tail = q.tail) : p = q := by
  obtain ⟨as, bs, ms⟩ := p
  obtain ⟨cs, ds, ns⟩ := q
  simp only [TagParts.tail] at h
  suffices as = cs ∧ bs = ds ∧ ms = ns by simpa using this
  induction as generalizing cs with
  | nil =>
    cases cs with
    | nil => exact ⟨rfl, boundTail_inj h⟩
    | cons c cs =>
      rw [List.flatMap_cons, List.append_assoc] at h
      exact absurd h.symm (attribute_ne_boundTail c _ bs ms)
  | cons a as ih =>
    cases cs with
    | nil =>
      rw [List.flatMap_cons, List.append_assoc] at h
      exact absurd h (attribute_ne_boundTail a _ ds ns)
    | cons c cs =>
      simp only [List.flatMap_cons, attributeChars, List.cons_append, List.append_assoc,
        List.cons.injEq, true_and, List.nil_append] at h
      obtain ⟨hkey, h⟩ := append_cons_inj_of_ne (a.1.2 '=' (by simp)) (c.1.2 '=' (by simp)) h
      simp only [List.cons.injEq, true_and] at h
      obtain ⟨hvalue, h⟩ := append_cons_inj_of_ne (a.2.2 '\'' (by simp)) (c.2.2 '\'' (by simp)) h
      obtain ⟨rfl, rfl, rfl⟩ := ih cs h
      have ha : a = c :=
        Prod.ext (Subtype.ext (String.toList_injective hkey))
          (Subtype.ext (String.toList_injective hvalue))
      exact ⟨by rw [ha], rfl, rfl⟩

def openingLine (tag : TagName) (p : TagParts) : String :=
  String.ofList ('<' :: (tag.1.1.toList ++ p.tail))

/-- What follows the name of a tag starts with a blank or is the end of the tag. -/
theorem TagParts.tail_cases (p : TagParts) :
    ∃ c rest, p.tail = c :: rest ∧ (c = ' ' ∨ c = '>') := by
  obtain ⟨as, bs, ms⟩ := p
  cases as with
  | cons a as => exact ⟨' ', _, rfl, .inl rfl⟩
  | nil =>
    cases bs with
    | cons b bs => exact ⟨' ', _, rfl, .inl rfl⟩
    | nil =>
      cases ms with
      | cons m ms => exact ⟨' ', _, rfl, .inl rfl⟩
      | nil => exact ⟨'>', [], rfl, .inr rfl⟩

theorem openingLine_inj {tag tag' : TagName} {p q : TagParts}
    (h : openingLine tag p = openingLine tag' q) : tag = tag' ∧ p = q := by
  have h := congrArg String.toList h
  simp only [openingLine, String.toList_ofList, List.cons.injEq, true_and] at h
  obtain ⟨c, rest, hp, hc⟩ := p.tail_cases
  obtain ⟨d, more, hq, hd⟩ := q.tail_cases
  have hname : ∀ t : TagName, ∀ e ∈ t.1.1.toList, e ≠ ' ' ∧ e ≠ '>' := fun t e he =>
    ⟨fun hb => t.1.2 ' ' (by simp) (hb ▸ he), fun hg => t.1.2 '>' (by simp) (hg ▸ he)⟩
  rw [hp, hq] at h
  obtain ⟨htag, rfl, rfl⟩ := append_cons_inj_of_class (hname tag) (hname tag')
    (by rcases hc with rfl | rfl <;> simp) (by rcases hd with rfl | rfl <;> simp) h
  exact ⟨Subtype.ext (Subtype.ext (String.toList_injective htag)), TagParts.tail_inj (hp.trans hq.symm)⟩

/-! ### The views of plain trees -/

/-- Static attributes as they are printed. -/
def TagParts.attributesView (p : TagParts) : View :=
  .map (p.attributes.map fun a => (.str a.1.1, .str a.2.1))

/-- Bound attributes as they are printed. -/
def TagParts.boundView (p : TagParts) : View :=
  .list (p.bound.map fun b => .attribute (.str b.1.1) (.path (.str b.2.1)) .null)

def TagParts.modifiersView (p : TagParts) : View :=
  .list (p.modifiers.map fun m => .modifier (.str m.1) (.list []) (.map []))

/-- A block without arguments, as it is printed. -/
def blockView (name : String) (primary alternate : View) : View :=
  .placeholder (.block (.str name) (.list []) (.map []) primary alternate) .null .null

mutual

def PlainNode.view : PlainNode → View
  | .element tag p children =>
    .element (.str tag.1.1) .null p.attributesView p.boundView p.modifiersView
      (.list (plainViews children))
  | .text contents => .text (.str contents.1.1) .null
  | .comment contents => .comment (.str contents.1) .null
  | .content contents => .placeholder (.content (.str contents.1)) .null .null
  | .block name primary => blockView name.1 (.fragment (.list (plainViews primary))) .null
  | .choice name primary alternate =>
    blockView name.1 (.fragment (.list (plainViews primary)))
      (.fragment (.list (plainViews alternate)))

def plainViews : List PlainNode → List View
  | [] => []
  | t :: rest => t.view :: plainViews rest

end

/-- A plain tree: a fragment of plain nodes. -/
abbrev PlainTree : Type := List PlainNode

def PlainTree.view (t : PlainTree) : View := .fragment (.list (plainViews t))

theorem attributesText_view (p : TagParts) : attributesText p.attributesView =
      .ok (p.attributes.map fun a => a.1.1 ++ "='" ++ a.2.1 ++ "'") := by
  obtain ⟨as, bs, ms⟩ := p
  simp only [TagParts.attributesView, attributesText]
  induction as with
  | nil => rfl
  | cons a as ih =>
    simp only [List.map_cons, attributeItems, ih]
    rfl

theorem boundTexts_view (p : TagParts) : childrenTexts (.ofInt defaultStep) (.ofInt 0) p.boundView =
      .ok (p.bound.map fun b => b.1.1 ++ "=" ++ mustache b.2.1) := by
  obtain ⟨as, bs, ms⟩ := p
  simp only [TagParts.boundView, childrenTexts]
  induction bs with
  | nil => rfl
  | cons b bs ih =>
    simp only [List.map_cons, childItems, ih]
    rfl

/-- A helper without arguments is called by its name alone. -/
theorem callText_plain (name : String) : callText (.str name) (.list []) (.map []) = .ok name := by
  have hcall : callText (.str name) (.list []) (.map []) = .ok (name ++ "" ++ "") := rfl
  rw [hcall, String.append_empty, String.append_empty]

theorem modifierTexts_view (p : TagParts) :
    childrenTexts (.ofInt defaultStep) (.ofInt 0) p.modifiersView =
      .ok (p.modifiers.map fun m => mustache m.1) := by
  obtain ⟨as, bs, ms⟩ := p
  simp only [TagParts.modifiersView, childrenTexts]
  induction ms with
  | nil => rfl
  | cons m ms ih =>
    have hm : render (.ofInt defaultStep) (.ofInt 0)
        (.modifier (.str m.1) (.list []) (.map [])) = .ok (mustache m.1) := by
      have hcall := callText_plain m.1
      rw [callText] at hcall
      rw [render, helperOf, hcall]
      rfl
    simp only [List.map_cons, childItems, ih, hm]
    rfl

/-- Texts that are joined with a blank, behind a blank. -/
theorem cons_toList_join (x : String) (rest : List String) :
    ' ' :: (Text.join " " (x :: rest)).toList = (x :: rest).flatMap fun y => ' ' :: y.toList := by
  induction rest generalizing x with
  | nil => simp
  | cons y more ih =>
    have hrest := ih y
    rw [Text.join_cons_cons, List.flatMap_cons, ← hrest]
    simp

/-- A group of texts that are there, each behind a blank. -/
theorem toList_group_join {α : Type} (f : α → String) (g : α → List Char) (xs : List α)
    (hne : ∀ a ∈ xs, f a ≠ "") (hg : ∀ a ∈ xs, ' ' :: (f a).toList = g a) :
    (Text.group (Text.join " " (xs.map f))).toList = xs.flatMap g := by
  cases xs with
  | nil => rfl
  | cons a rest =>
    have hjoin : Text.join " " ((a :: rest).map f) ≠ "" := by
      cases rest with
      | nil => exact hne a (by simp)
      | cons b more => simp [Text.join_cons_cons]
    have htexts : ((a :: rest).map f).flatMap (fun y => ' ' :: y.toList) = (a :: rest).flatMap g := by
      rw [List.flatMap_map]
      exact List.flatMap_congr hg
    rw [Text.group, if_neg hjoin, ← htexts, List.map_cons, ← cons_toList_join]
    simp

theorem openingTag_view (tag : TagName) (p : TagParts) :
    openingTag (.str tag.1.1) p.attributesView p.boundView p.modifiersView =
      some (openingLine tag p) := by
  have hline : openingTag (.str tag.1.1) p.attributesView p.boundView p.modifiersView =
      some ("<" ++ tag.1.1 ++
        Text.group (Text.join " " (p.attributes.map fun a => a.1.1 ++ "='" ++ a.2.1 ++ "'")) ++
        Text.group (Text.join " " (p.bound.map fun b => b.1.1 ++ "=" ++ mustache b.2.1)) ++
        Text.group (Text.join " " (p.modifiers.map fun m => mustache m.1)) ++ ">") := by
    rw [openingTag, attributesText_view, boundTexts_view, modifierTexts_view]
    rfl
  have hattributes := toList_group_join (fun a => a.1.1 ++ "='" ++ a.2.1 ++ "'") attributeChars
    p.attributes (fun a _ => by simp) (fun a _ => by simp [attributeChars])
  have hbound := toList_group_join (fun b => b.1.1 ++ "=" ++ mustache b.2.1) boundChars p.bound
    (fun b _ => by simp) (fun b _ => by simp [boundChars])
  have hmodifiers := toList_group_join (fun m => mustache m.1) modifierChars p.modifiers
    (fun m _ => by simp [mustache]) (fun m _ => by simp [modifierChars])
  rw [hline, Option.some.injEq]
  apply String.toList_injective
  simp only [String.toList_append, openingLine, String.toList_ofList, hattributes, hbound,
    hmodifiers]
  simp [TagParts.tail, boundTail, modifiersTail]

/-! ### The lines of a plain tree -/

/-- The lines of a branch; one that is empty leaves an empty line. -/
def orBlank (lines : List String) : List String := if lines = [] then [""] else lines

def blockLine (name : Without ['\n']) : String := "\x7b\x7b#" ++ name.1 ++ " \x7d\x7d"

def PlainNode.first : PlainNode → String
  | .element tag p _ => openingLine tag p
  | .text contents => contents.1.1
  | .comment contents => "<!-- " ++ contents.1 ++ " -->"
  | .content contents => mustache contents.1
  | .block name _ => blockLine name
  | .choice name _ _ => blockLine name

mutual

def PlainNode.lines (step indent : Int) : PlainNode → List String
  | .element tag p children =>
    (blanks indent ++ openingLine tag p) :: (plainLines step (indent + step) children ++
      [blanks indent ++ ("</" ++ tag.1.1 ++ ">")])
  | .block name primary =>
    (blanks indent ++ blockLine name) :: (orBlank (plainLines step (indent + step) primary) ++
      [blanks indent ++ ("\x7b\x7b/" ++ name.1 ++ "\x7d\x7d")])
  | .choice name primary alternate =>
    (blanks indent ++ blockLine name) :: (orBlank (plainLines step (indent + step) primary) ++
      (blanks indent ++ "\x7b\x7belse\x7d\x7d") ::
        (orBlank (plainLines step (indent + step) alternate) ++
          [blanks indent ++ ("\x7b\x7b/" ++ name.1 ++ "\x7d\x7d")]))
  | t => [blanks indent ++ t.first]

def plainLines (step indent : Int) : List PlainNode → List String
  | [] => []
  | t :: rest => t.lines step indent ++ plainLines step indent rest

end

def PlainTree.lines (step indent : Int) (t : PlainTree) : List String :=
  orBlank (plainLines step indent t)

theorem PlainNode.lines_ne_nil (step indent : Int) (t : PlainNode) : t.lines step indent ≠ [] := by
  cases t <;> simp [PlainNode.lines]

theorem plainLines_eq_nil_iff (step indent : Int) (ts : List PlainNode) :
    plainLines step indent ts = [] ↔ ts = [] := by
  cases ts with
  | nil => simp [plainLines]
  | cons t rest => simp [plainLines, t.lines_ne_nil]

/-- The lines of a layout at every indentation. -/
def Shows (entries : List Entry) (lines : Int → Int → List String) : Prop :=
  ∀ step indent, entries.map (Entry.text step indent) = lines step indent

theorem map_text_deeper (step indent : Int) (entries : List Entry) :
    (entries.map Entry.deeper).map (Entry.text step indent) =
      entries.map (Entry.text step (indent + step)) := by
  rw [List.map_map]
  exact congrArg (fun f => entries.map f) (funext fun e => Entry.text_deeper step indent e)

theorem text_line_zero (step indent : Int) (s : String) :
    Entry.text step indent (.line 0 s) = blanks indent ++ s := by
  simp [Entry.text]

/-- A layout between two lines of its own. -/
theorem map_text_enclosed (step indent : Int) (opening : String) (inner rest : List Entry) :
    (.line 0 opening :: inner.map Entry.deeper ++ rest).map (Entry.text step indent) =
      (blanks indent ++ opening) :: (inner.map (Entry.text step (indent + step)) ++
        rest.map (Entry.text step indent)) := by
  rw [List.cons_append, List.map_cons, List.map_append, map_text_deeper, text_line_zero]

theorem plainViews_eq_nil_iff (ts : List PlainNode) : plainViews ts = [] ↔ ts = [] := by
  cases ts <;> simp [plainViews]

/-- A branch shows the lines of its nodes, or an empty line. -/
theorem PlainTree.layout_view {t : PlainTree} {entries : List Entry}
    (h : layouts (plainViews t) = some entries)
    (hshows : Shows entries fun step indent => plainLines step indent t) :
    ∃ entries, t.view.layout = some entries ∧
      Shows entries fun step indent => t.lines step indent := by
  rw [PlainTree.view, layout]
  by_cases ht : t = []
  · subst ht
    exact ⟨[.blank], rfl, fun step indent => rfl⟩
  · have hviews : (plainViews t).isEmpty = false := by simpa [plainViews_eq_nil_iff] using ht
    refine ⟨entries, by simpa [hviews] using h, fun step indent => ?_⟩
    have hlines := (plainLines_eq_nil_iff step indent t).not.2 ht
    exact (hshows step indent).trans (if_neg hlines).symm

mutual

theorem PlainNode.layout_view (t : PlainNode) : ∃ entries, t.view.layout = some entries ∧
      Shows entries fun step indent => t.lines step indent := by
  cases t with
  | element tag p children =>
    obtain ⟨inner, hinner, hshows⟩ := layouts_plainViews children
    refine ⟨_, by rw [PlainNode.view, layout, elementLayout, openingTag_view, hinner]; rfl, ?_⟩
    intro step indent
    rw [map_text_enclosed, hshows, List.map_singleton, text_line_zero]
    rfl
  | text contents => exact ⟨_, rfl, fun step indent => by rw [List.map_singleton, text_line_zero]; rfl⟩
  | comment contents => exact ⟨_, rfl, fun step indent => by rw [List.map_singleton, text_line_zero]; rfl⟩
  | content contents => exact ⟨_, rfl, fun step indent => by rw [List.map_singleton, text_line_zero]; rfl⟩
  | block name primary =>
    obtain ⟨nodes, hnodes, hlines⟩ := layouts_plainViews primary
    obtain ⟨first, hfirst, hshows⟩ := PlainTree.layout_view hnodes hlines
    rw [PlainTree.view] at hfirst
    refine ⟨_, by
      rw [PlainNode.view, blockView, layout, morphLayout, hfirst, blockLayout, callText_plain]
      rfl, fun step indent => ?_⟩
    rw [List.append_nil, map_text_enclosed, hshows, List.map_singleton, text_line_zero]
    rfl
  | choice name primary alternate =>
    obtain ⟨nodes, hnodes, hlines⟩ := layouts_plainViews primary
    obtain ⟨first, hfirst, hshows⟩ := PlainTree.layout_view hnodes hlines
    obtain ⟨others, hothers, hlines'⟩ := layouts_plainViews alternate
    obtain ⟨second, hsecond, hshows'⟩ := PlainTree.layout_view hothers hlines'
    rw [PlainTree.view] at hfirst hsecond
    refine ⟨_, by
      rw [PlainNode.view, blockView, layout, morphLayout, hfirst, hsecond, blockLayout, callText_plain]
      rfl, fun step indent => ?_⟩
    rw [List.append_assoc, map_text_enclosed, hshows, map_text_enclosed, hshows', List.map_singleton, text_line_zero]
    rfl

/-- The layouts of plain nodes show their lines. -/
theorem layouts_plainViews (ts : List PlainNode) :
    ∃ entries, layouts (plainViews ts) = some entries ∧
      Shows entries fun step indent => plainLines step indent ts := by
  cases ts with
  | nil => exact ⟨[], rfl, fun step indent => rfl⟩
  | cons t rest =>
    obtain ⟨first, hfirst, hfirsts⟩ := t.layout_view
    obtain ⟨second, hsecond, hseconds⟩ := layouts_plainViews rest
    refine ⟨first ++ second, ?_, fun step indent => ?_⟩
    · rw [plainViews, layouts_cons, hfirst, hsecond]
      rfl
    · rw [List.map_append, hfirsts, hseconds]
      rfl

end

/-! ### Reading lines from the front -/

/-- What kind of node the first line of it tells. -/
inductive Sign where
  | element
  | text
  | comment
  | content
  | block

/-- The kind of node that begins with a line. -/
def Sign.ofLine : List Char → Sign
  | '<' :: '!' :: _ => .comment
  | '<' :: _ => .element
  | '\x7b' :: '\x7b' :: '#' :: _ => .block
  | '\x7b' :: _ => .content
  | _ => .text

def PlainNode.sign : PlainNode → Sign
  | .element _ _ _ => .element
  | .text _ => .text
  | .comment _ => .comment
  | .content _ => .content
  | .block _ _ => .block
  | .choice _ _ _ => .block

theorem toList_blockLine (name : Without ['\n']) : (blockLine name).toList =
      '\x7b' :: '\x7b' :: '#' :: (name.1.toList ++ [' ', '\x7d', '\x7d']) := by
  simp [blockLine]

theorem PlainNode.ofLine_first (t : PlainNode) : Sign.ofLine t.first.toList = t.sign := by
  cases t with
  | element tag p children =>
    obtain ⟨c, hc, hne⟩ := tag.2
    obtain ⟨rest, hrest⟩ := List.head?_eq_some_iff.1 hc
    simp only [PlainNode.first, openingLine, String.toList_ofList, hrest, List.cons_append]
    unfold Sign.ofLine
    split <;> simp_all [PlainNode.sign]
  | text contents =>
    obtain ⟨c, hc, hlt, hbrace⟩ := contents.2
    obtain ⟨rest, hrest⟩ := List.head?_eq_some_iff.1 hc
    simp only [PlainNode.first, hrest]
    unfold Sign.ofLine
    split <;> simp_all [PlainNode.sign]
  | comment contents =>
    simp [PlainNode.first, Sign.ofLine, PlainNode.sign]
  | content contents =>
    simp [PlainNode.first, toList_mustache, Sign.ofLine, PlainNode.sign]
  | block name primary =>
    simp [PlainNode.first, toList_blockLine, Sign.ofLine, PlainNode.sign]
  | choice name primary alternate =>
    simp [PlainNode.first, toList_blockLine, Sign.ofLine, PlainNode.sign]

theorem PlainNode.first_ne_empty (t : PlainNode) : t.first ≠ "" := by
  cases t with
  | text contents =>
    obtain ⟨c, hc, -⟩ := contents.2
    intro h
    rw [PlainNode.first] at h
    simp [h] at hc
  | _ =>
    intro h
    have h := congrArg String.toList h
    simp [PlainNode.first, openingLine, mustache, blockLine] at h

/-- A line that begins with so many blanks and goes on. -/
def Nested (indent : Int) (line : String) : Prop :=
  ∃ c rest, line.toList = List.replicate indent.toNat ' ' ++ c :: rest

/-- Lines of which the first is not a line at this indentation. -/
def Stops (indent : Int) (lines : List String) : Prop :=
  ∀ line ∈ lines.head?, ¬ Nested indent line

theorem toList_blanks (n : Int) : (blanks n).toList = List.replicate n.toNat ' ' := by
  simp [blanks]

theorem nested_blanks (indent : Int) (h : line ≠ "") : Nested indent (blanks indent ++ line) := by
  cases hline : line.toList with
  | nil => exact absurd (String.toList_injective (hline.trans rfl)) h
  | cons c rest => exact ⟨c, rest, by rw [String.toList_append, toList_blanks, hline]⟩

theorem not_nested_blanks {indent : Int} {rest : List Char} (hindent : 0 ≤ indent)
    (hstep : 1 ≤ step) (hline : line.toList = c :: rest) (hc : c ≠ ' ') :
    ¬ Nested (indent + step) (blanks indent ++ line) := by
  rintro ⟨d, more, h⟩
  obtain ⟨k, hk⟩ : ∃ k, (indent + step).toNat = indent.toNat + (k + 1) :=
    ⟨step.toNat - 1, by omega⟩
  rw [String.toList_append, toList_blanks, hline, hk, List.replicate_add, List.append_assoc] at h
  have h := List.append_cancel_left h
  simp [List.replicate_succ, hc] at h

theorem stops_nil (indent : Int) : Stops indent [] := by simp [Stops]

theorem stops_cons {indent : Int} {rest : List Char} (hindent : 0 ≤ indent) (hstep : 1 ≤ step)
    (hline : line.toList = c :: rest) (hc : c ≠ ' ') (lines : List String) :
    Stops (indent + step) ((blanks indent ++ line) :: lines) := by
  simpa [Stops] using not_nested_blanks hindent hstep hline hc

theorem PlainNode.lines_eq_cons (step indent : Int) (t : PlainNode) :
    ∃ rest, t.lines step indent = (blanks indent ++ t.first) :: rest := by
  cases t <;> exact ⟨_, rfl⟩

theorem not_stops_lines (step indent : Int) (t : PlainNode) (rest : List String) :
    ¬ Stops indent (t.lines step indent ++ rest) := by
  obtain ⟨more, hmore⟩ := t.lines_eq_cons step indent
  intro h
  rw [hmore] at h
  exact h _ rfl (nested_blanks indent t.first_ne_empty)

/-! ### Reading a tree from its lines -/

theorem blockLine_inj {name name' : Without ['\n']} (h : blockLine name = blockLine name') :
    name = name' := by
  have h := congrArg String.toList h
  simp only [toList_blockLine, List.cons.injEq, true_and] at h
  exact Subtype.ext (String.toList_injective (List.append_cancel_right h))

/-- The first line of a node tells all that it says about the node. -/
theorem PlainNode.first_eq_of_lines {indent : Int} {t u : PlainNode} {r r' : List String}
    (h : t.lines step indent ++ r = u.lines step indent ++ r') : t.first = u.first := by
  obtain ⟨more, hmore⟩ := t.lines_eq_cons step indent
  obtain ⟨more', hmore'⟩ := u.lines_eq_cons step indent
  rw [hmore, hmore', List.cons_append, List.cons_append, List.cons.injEq] at h
  exact (String.append_right_inj _).1 h.1

theorem PlainTree.lines_cons (step indent : Int) (t : PlainNode) (ts : List PlainNode) :
    PlainTree.lines step indent (t :: ts) = plainLines step indent (t :: ts) :=
  if_neg ((plainLines_eq_nil_iff step indent (t :: ts)).not.2 (by simp))

/-- An empty branch does not look like one with nodes in it. -/
theorem blank_ne_plainLines {indent : Int} {t : PlainNode} {ts : List PlainNode}
    {r r' : List String} : "" :: r ≠ plainLines step indent (t :: ts) ++ r' := by
  obtain ⟨more, hmore⟩ := t.lines_eq_cons step indent
  intro h
  rw [plainLines, hmore, List.cons_append, List.cons_append, List.cons.injEq] at h
  exact t.first_ne_empty (String.append_eq_empty_iff.1 h.1.symm).2

/-- A branch can be read from the front of its lines, if its nodes can. -/
theorem PlainTree.lines_append_inj {indent : Int} {ts us : PlainTree} {r r' : List String}
    (h : plainLines step indent ts ++ r = plainLines step indent us ++ r' → ts = us ∧ r = r')
    (hlines : ts.lines step indent ++ r = us.lines step indent ++ r') : ts = us ∧ r = r' := by
  cases ts with
  | nil =>
    cases us with
    | nil => exact ⟨rfl, List.append_cancel_left hlines⟩
    | cons u us =>
      rw [PlainTree.lines_cons] at hlines
      exact absurd hlines blank_ne_plainLines
  | cons t ts =>
    rw [PlainTree.lines_cons] at hlines
    cases us with
    | nil => exact absurd hlines.symm blank_ne_plainLines
    | cons u us =>
      rw [PlainTree.lines_cons] at hlines
      exact h hlines

theorem toList_closingTag (tag : TagName) :
    ("</" ++ tag.1.1 ++ ">").toList = '<' :: '/' :: (tag.1.1.toList ++ ['>']) := by
  simp

theorem toList_closingLine (name : Without ['\n']) : ("\x7b\x7b/" ++ name.1 ++ "\x7d\x7d").toList =
      '\x7b' :: '\x7b' :: '/' :: (name.1.toList ++ ['\x7d', '\x7d']) := by
  simp

/-- The line between two branches does not close a block. -/
theorem closingLine_ne_else (indent : Int) (name : Without ['\n']) :
    blanks indent ++ ("\x7b\x7b/" ++ name.1 ++ "\x7d\x7d") ≠
      blanks indent ++ "\x7b\x7belse\x7d\x7d" := by
  intro h
  have h := congrArg String.toList ((String.append_right_inj _).1 h)
  rw [toList_closingLine] at h
  simp at h

mutual

/-- A node can be read from the front of its lines. -/
theorem PlainNode.lines_append_inj (hstep : 1 ≤ step) (t : PlainNode) {indent : Int}
    (hindent : 0 ≤ indent) (u : PlainNode) {r r' : List String}
    (h : t.lines step indent ++ r = u.lines step indent ++ r') : t = u ∧ r = r' := by
  have hfirst := PlainNode.first_eq_of_lines h
  have hsign : t.sign = u.sign := by rw [← t.ofLine_first, ← u.ofLine_first, hfirst]
  have hinner : 0 ≤ indent + step := by omega
  have hclose := fun name : Without ['\n'] =>
    stops_cons hindent hstep (toList_closingLine name) (by decide)
  have helse := stops_cons hindent hstep
    (show "\x7b\x7belse\x7d\x7d".toList = '\x7b' :: "\x7belse\x7d\x7d".toList from rfl) (by decide)
  cases t with
  | element tag p children =>
    cases u with
    | element tag' p' children' =>
      obtain ⟨rfl, rfl⟩ := openingLine_inj hfirst
      simp only [PlainNode.lines, List.cons_append, List.append_assoc, List.cons.injEq, true_and,
        List.nil_append] at h
      have htag := stops_cons hindent hstep (toList_closingTag tag) (by decide)
      obtain ⟨rfl, hrest⟩ :=
        plainLines_append_inj hstep children hinner children' (htag r) (htag r') h
      exact ⟨rfl, (List.cons.inj hrest).2⟩
    | _ => cases hsign
  | text contents =>
    cases u with
    | text contents' =>
      obtain rfl : contents = contents' := Subtype.ext (Subtype.ext hfirst)
      exact ⟨rfl, List.append_cancel_left h⟩
    | _ => cases hsign
  | comment contents =>
    cases u with
    | comment contents' =>
      obtain rfl : contents = contents' := by
        simpa [PlainNode.first, String.append_assoc, Subtype.ext_iff] using hfirst
      exact ⟨rfl, List.append_cancel_left h⟩
    | _ => cases hsign
  | content contents =>
    cases u with
    | content contents' =>
      obtain rfl : contents = contents' := by
        simpa [PlainNode.first, mustache, String.append_assoc, Subtype.ext_iff] using hfirst
      exact ⟨rfl, List.append_cancel_left h⟩
    | _ => cases hsign
  | block name primary =>
    cases u with
    | block name' primary' =>
      obtain rfl := blockLine_inj hfirst
      simp only [PlainNode.lines, List.cons_append, List.append_assoc, List.cons.injEq, true_and,
        List.nil_append] at h
      obtain ⟨rfl, hrest⟩ := PlainTree.lines_append_inj
        (plainLines_append_inj hstep primary hinner primary' (hclose name r) (hclose name r')) h
      exact ⟨rfl, (List.cons.inj hrest).2⟩
    | choice name' primary' alternate' =>
      -- the line behind the first branch tells the two apart
      simp only [PlainNode.lines, List.cons_append, List.append_assoc, List.cons.injEq,
        List.nil_append] at h
      obtain ⟨-, hrest⟩ := PlainTree.lines_append_inj
        (plainLines_append_inj hstep primary hinner primary' (hclose name r) (helse _)) h.2
      exact absurd (List.cons.inj hrest).1 (closingLine_ne_else indent name)
    | _ => cases hsign
  | choice name primary alternate =>
    cases u with
    | block name' primary' =>
      simp only [PlainNode.lines, List.cons_append, List.append_assoc, List.cons.injEq,
        List.nil_append] at h
      obtain ⟨-, hrest⟩ := PlainTree.lines_append_inj
        (plainLines_append_inj hstep primary hinner primary' (helse _) (hclose name' r')) h.2
      exact absurd (List.cons.inj hrest).1.symm (closingLine_ne_else indent name')
    | choice name' primary' alternate' =>
      obtain rfl := blockLine_inj hfirst
      simp only [PlainNode.lines, List.cons_append, List.append_assoc, List.cons.injEq, true_and,
        List.nil_append] at h
      obtain ⟨rfl, hrest⟩ := PlainTree.lines_append_inj
        (plainLines_append_inj hstep primary hinner primary' (helse _) (helse _)) h
      obtain ⟨rfl, hlast⟩ := PlainTree.lines_append_inj
        (plainLines_append_inj hstep alternate hinner alternate' (hclose name r) (hclose name r'))
        (List.cons.inj hrest).2
      exact ⟨rfl, (List.cons.inj hlast).2⟩
    | _ => cases hsign

/-- Nodes can be read from the front of their lines, up to a line further to the left. -/
theorem plainLines_append_inj (hstep : 1 ≤ step) (ts : List PlainNode) {indent : Int}
    (hindent : 0 ≤ indent) (us : List PlainNode) {r r' : List String} (hr : Stops indent r)
    (hr' : Stops indent r') (h : plainLines step indent ts ++ r = plainLines step indent us ++ r') :
    ts = us ∧ r = r' := by
  cases ts with
  | nil =>
    cases us with
    | nil => exact ⟨rfl, h⟩
    | cons u us =>
      simp only [plainLines, List.nil_append, List.append_assoc] at h
      exact absurd (h ▸ hr) (not_stops_lines step indent u _)
  | cons t ts =>
    cases us with
    | nil =>
      simp only [plainLines, List.nil_append, List.append_assoc] at h
      exact absurd (h ▸ hr') (not_stops_lines step indent t _)
    | cons u us =>
      simp only [plainLines, List.append_assoc] at h
      obtain ⟨rfl, hrest⟩ := t.lines_append_inj hstep hindent u h
      obtain ⟨rfl, hlast⟩ := plainLines_append_inj hstep ts hindent us hr hr' hrest
      exact ⟨rfl, hlast⟩

end

/-! ### Lines in a text -/

theorem newline_notMem_tail (p : TagParts) : '\n' ∉ p.tail := by
  have hattribute : ∀ a ∈ p.attributes, '\n' ∉ attributeChars a := by
    intro a _
    simp [attributeChars, a.1.2 '\n' (by simp), a.2.2 '\n' (by simp)]
  have hbound : ∀ b ∈ p.bound, '\n' ∉ boundChars b := by
    intro b _
    simp [boundChars, toList_mustache, b.1.2 '\n' (by simp), b.2.2 '\n' (by simp)]
  have hmodifier : ∀ m ∈ p.modifiers, '\n' ∉ modifierChars m := by
    intro m _
    simp [modifierChars, toList_mustache, m.2 '\n' (by simp)]
  simp only [TagParts.tail, boundTail, modifiersTail, List.mem_append, List.mem_flatMap, not_or,
    not_exists, not_and]
  exact ⟨hattribute, hbound, hmodifier, by simp⟩

theorem PlainNode.newline_notMem_first (t : PlainNode) : '\n' ∉ t.first.toList := by
  cases t with
  | element tag p children =>
    simp [PlainNode.first, openingLine, tag.1.2 '\n' (by simp), newline_notMem_tail p]
  | text contents => exact contents.1.2 '\n' (by simp)
  | comment contents => simp [PlainNode.first, contents.2 '\n' (by simp)]
  | content contents => simp [PlainNode.first, toList_mustache, contents.2 '\n' (by simp)]
  | block name primary => simp [PlainNode.first, toList_blockLine, name.2 '\n' (by simp)]
  | choice name primary alternate =>
    simp [PlainNode.first, toList_blockLine, name.2 '\n' (by simp)]

/-- Lines in which no line breaks. -/
def Unbroken (lines : List String) : Prop := ∀ line ∈ lines, '\n' ∉ line.toList

theorem unbroken_cons_blanks {indent : Int} {lines : List String} :
    Unbroken ((blanks indent ++ line) :: lines) ↔ '\n' ∉ line.toList ∧ Unbroken lines := by
  simp [Unbroken, toList_blanks]

theorem unbroken_append {xs ys : List String} :
    Unbroken (xs ++ ys) ↔ Unbroken xs ∧ Unbroken ys := by
  simp [Unbroken, or_imp, forall_and]

theorem unbroken_orBlank {lines : List String} (h : Unbroken lines) : Unbroken (orBlank lines) := by
  unfold orBlank
  split
  · simp [Unbroken]
  · exact h

theorem unbroken_nil : Unbroken [] := by simp [Unbroken]

mutual

theorem PlainNode.unbroken_lines (step : Int) (t : PlainNode) (indent : Int) :
    Unbroken (t.lines step indent) := by
  have hfirst := t.newline_notMem_first
  cases t with
  | element tag p children =>
    have htag : '\n' ∉ ("</" ++ tag.1.1 ++ ">").toList := by simp [tag.1.2 '\n' (by simp)]
    simp only [PlainNode.lines, unbroken_cons_blanks, unbroken_append]
    exact ⟨hfirst, unbroken_plainLines step children (indent + step), htag, unbroken_nil⟩
  | block name primary =>
    have hname : '\n' ∉ ("\x7b\x7b/" ++ name.1 ++ "\x7d\x7d").toList := by
      simp [name.2 '\n' (by simp)]
    simp only [PlainNode.lines, unbroken_cons_blanks, unbroken_append]
    exact ⟨hfirst, unbroken_orBlank (unbroken_plainLines step primary (indent + step)), hname,
      unbroken_nil⟩
  | choice name primary alternate =>
    have hname : '\n' ∉ ("\x7b\x7b/" ++ name.1 ++ "\x7d\x7d").toList := by
      simp [name.2 '\n' (by simp)]
    simp only [PlainNode.lines, unbroken_cons_blanks, unbroken_append]
    exact ⟨hfirst, unbroken_orBlank (unbroken_plainLines step primary (indent + step)), by simp,
      unbroken_orBlank (unbroken_plainLines step alternate (indent + step)), hname, unbroken_nil⟩
  | _ => exact unbroken_cons_blanks.2 ⟨hfirst, unbroken_nil⟩

theorem unbroken_plainLines (step : Int) (ts : List PlainNode) (indent : Int) :
    Unbroken (plainLines step indent ts) := by
  cases ts with
  | nil => exact unbroken_nil
  | cons t rest =>
    exact unbroken_append.2 ⟨t.unbroken_lines step indent, unbroken_plainLines step rest indent⟩

end

theorem toList_join (lines : List String) :
    (Text.join "\n" lines).toList = ['\n'].intercalate (lines.map String.toList) := by
  induction lines with
  | nil => rfl
  | cons line rest ih =>
    cases rest with
    | nil => simp
    | cons next more =>
      rw [Text.join_cons_cons, String.toList_append, String.toList_append, ih]
      simp [List.intercalate]

/-- Lines that do not break can be read from the text that they make. -/
theorem join_inj {xs ys : List String} (hx : xs ≠ []) (hy : ys ≠ []) (hxs : Unbroken xs)
    (hys : Unbroken ys) (h : Text.join "\n" xs = Text.join "\n" ys) : xs = ys := by
  have hsplit : ∀ {zs : List String}, zs ≠ [] → Unbroken zs →
      (Text.join "\n" zs).toList.splitOn '\n' = zs.map String.toList := by
    intro zs hne hzs
    rw [toList_join, List.splitOn_intercalate _ (by simpa [Unbroken] using hzs) (by simpa using hne)]
  have hlines : xs.map String.toList = ys.map String.toList := by
    rw [← hsplit hx hxs, ← hsplit hy hys, h]
  exact (List.map_injective_iff.2 fun _ _ => String.toList_injective) hlines

theorem PlainTree.lines_ne_nil (step indent : Int) (t : PlainTree) : t.lines step indent ≠ [] := by
  unfold PlainTree.lines orBlank
  split
  · simp
  · assumption

/-! ### Unambiguity -/

mutual

theorem PlainNode.isNode_view (t : PlainNode) : t.view.isNode = true := by
  cases t with
  | element tag p children => exact areNodes_plainViews children
  | block name primary =>
    have hprimary := areNodes_plainViews primary
    simp [PlainNode.view, blockView, isNode, isMorph, isNull, hprimary]
  | choice name primary alternate =>
    have hprimary := areNodes_plainViews primary
    have halternate := areNodes_plainViews alternate
    simp [PlainNode.view, blockView, isNode, isMorph, hprimary, halternate]
  | _ => rfl

theorem areNodes_plainViews (ts : List PlainNode) : areNodes (plainViews ts) = true := by
  cases ts with
  | nil => rfl
  | cons t rest =>
    rw [plainViews, areNodes, t.isNode_view, areNodes_plainViews rest]
    rfl

end

theorem printAt_plain {s : Store} {v : Value} {t : PlainTree} {indent : Int} {text : String}
    (hv : s.tree v = t.view) (hstep : step ≠ 0)
    (h : Method.printAt v (.int indent) (.int step) s = .ok (.str text) s) :
    text = Text.join "\n" (t.lines step indent) := by
  obtain ⟨nodes, hnodes, hlines⟩ := layouts_plainViews t
  obtain ⟨entries, hentries, hshows⟩ := PlainTree.layout_view hnodes hlines
  have hnode : (s.tree v).isNode = true := by rw [hv]; exact areNodes_plainViews t
  have hrender := toOption_render step (s.tree v) indent hnode
  have hprint := printAt_eq s v indent (some step)
  have hamount : stepAmount (some step) = step := if_neg hstep
  rw [hamount, stepValue, h] at hprint
  rw [hv, hentries, Option.bind_some, ← hv] at hrender
  cases htext : (s.tree v).render (.ofInt step) (.ofInt indent) with
  | error fault => rw [htext] at hprint; cases hprint
  | ok printed =>
    rw [htext] at hprint hrender
    cases hprint
    rw [toOption_ok, Layout.print] at hrender
    split_ifs at hrender
    cases hrender
    exact congrArg (Text.join "\n") (hshows step indent)

/-- An element, in a namespace, with everything that a plain tag can hold, around a block of which the
first branch holds a text and the second one nothing. -/
def plainStore (ns : Value) : Store where
  objects := #[
    .node ⟨.text (.str " a"), .own []⟩ [],
    .node ⟨.fragment, .own [.object ⟨0⟩]⟩ [],
    .node ⟨.fragment, .own []⟩ [],
    .morph (.block ⟨.str "if", .own [], .own []⟩ (.object ⟨1⟩) (.object ⟨2⟩)) [],
    .node ⟨.placeholder (.object ⟨3⟩) (.object ⟨8⟩), .own []⟩ [],
    .expression (.path (.str "b.c")),
    .morph (.attribute (.str "id") (.object ⟨5⟩) (.object ⟨8⟩)) [],
    .morph (.element ⟨.str "act", .own [], .own []⟩) [],
    .node ⟨.element (.str "p") ns (.own [(.str "class", .str "x y")]) (.own [.object ⟨6⟩])
      (.own [.object ⟨7⟩]), .own [.object ⟨4⟩]⟩ [],
    .node ⟨.fragment, .own [.object ⟨8⟩]⟩ []]

def plainSample : PlainTree :=
  [.element ⟨⟨"p", by simp⟩, 'p', by simp⟩
    ⟨[(⟨"class", by simp⟩, ⟨"x y", by simp⟩)], [(⟨"id", by simp⟩, ⟨"b.c", by simp⟩)],
      [⟨"act", by simp⟩]⟩
    [.choice ⟨"if", by simp⟩ [.text ⟨⟨" a", by simp⟩, ' ', by simp⟩] []]]

/-- The text of the tree, two blanks to the right and with a step of three. -/
def plainSampleText : String := Text.join "\n" [
  "  <p class='x y' id=\x7b\x7b b.c \x7d\x7d \x7b\x7b act \x7d\x7d>",
  "     \x7b\x7b#if \x7d\x7d",
  "         a",
  "     \x7b\x7belse\x7d\x7d",
  "",
  "     \x7b\x7b/if\x7d\x7d",
  "  </p>"]

end TemplateRecovery
