import Mathlib.Tactic
import TemplateRecovery.Method.Part

/-!
# The layout of a printed tree

Where a line of a printed tree stands depends on the indentation and on the step, but what the lines
are does not. The *layout* of a node is its list of lines, each with the number of steps that it is
nested deep; a fragment without children leaves an empty line.

* `View.isNode` tells which views are trees of nodes, and `View.layout` is the layout of a node.
* `Layout.print` writes a layout at an indentation, if every width that it needs can be written.
* `View.toOption_render` says that printing a node is writing its layout.
* `printAt_layout` is the normal form: a node is refused at every indentation and every step, or it
  has one layout that is its text at all of them.
-/

namespace TemplateRecovery

open Width

variable {step indent : Int} {name alternate : View} {plainName : Except Fault String}
  {branch otherwise : Width → Except Fault String}

/-! ### Entries -/

/-- A line of a layout: an empty one, or a text so many steps deep. -/
inductive Entry where
  | blank
  | line (depth : Nat) (text : String)
  deriving DecidableEq, Inhabited, Repr

/-- Whether a width can be written. -/
def Width.fits (n : Int) : Bool := decide (-limit ≤ n ∧ n < limit)

namespace Entry

/-- The same line one step deeper. -/
def deeper : Entry → Entry
  | .blank => .blank
  | .line depth text => .line (depth + 1) text

/-- Whether the indentation of a line can be written. -/
def fits (step indent : Int) : Entry → Bool
  | .blank => true
  | .line depth _ => Width.fits (indent + step * depth)

def text (step indent : Int) : Entry → String
  | .blank => ""
  | .line depth text => Width.blanks (indent + step * depth) ++ text

theorem fits_deeper (step indent : Int) (e : Entry) :
    e.deeper.fits step indent = e.fits step (indent + step) := by
  cases e with
  | blank => rfl
  | line depth text =>
    simp only [deeper, fits]
    congr 1
    push_cast
    ring

theorem text_deeper (step indent : Int) (e : Entry) :
    e.deeper.text step indent = e.text step (indent + step) := by
  cases e with
  | blank => rfl
  | line depth text =>
    simp only [deeper, Entry.text]
    congr 2
    push_cast
    ring

end Entry

/-! ### Writing a layout -/

namespace Layout

/-- The lines of a layout at an indentation, if every width that they need can be written. -/
def print (step indent : Int) (entries : List Entry) : Option String :=
  if entries.all (Entry.fits step indent) then
    some (Text.join "\n" (entries.map (Entry.text step indent)))
  else none

theorem print_line (step indent : Int) (text : String) : print step indent [.line 0 text] =
      if Width.fits indent then some (Width.blanks indent ++ text) else none := by
  simp [print, Entry.fits, Entry.text]

theorem print_blank (step indent : Int) : print step indent [.blank] = some "" := by
  simp [print, Entry.fits, Entry.text]

/-- Lines one step deeper are lines at the next indentation. -/
theorem print_deeper (step indent : Int) (entries : List Entry) :
    print step indent (entries.map Entry.deeper) = print step (indent + step) entries := by
  have hfits : (Entry.fits step indent ∘ Entry.deeper) = Entry.fits step (indent + step) :=
    funext fun e => Entry.fits_deeper step indent e
  have htext : (Entry.text step indent ∘ Entry.deeper) = Entry.text step (indent + step) :=
    funext fun e => Entry.text_deeper step indent e
  simp only [print, List.all_map, List.map_map, hfits, htext]

/-- Two layouts one after the other are written one after the other. -/
theorem print_append (step indent : Int) {first second : List Entry} (hf : first ≠ [])
    (hs : second ≠ []) :
    print step indent (first ++ second) =
      (print step indent first).bind fun a =>
        (print step indent second).map fun b => a ++ "\n" ++ b := by
  have hfirst : first.map (Entry.text step indent) ≠ [] := by simpa using hf
  have hsecond : second.map (Entry.text step indent) ≠ [] := by simpa using hs
  have hjoin := Text.join_append "\n" hfirst hsecond
  simp only [print, List.all_append, List.map_append, Bool.and_eq_true]
  by_cases h1 : first.all (Entry.fits step indent) = true
  · by_cases h2 : second.all (Entry.fits step indent) = true
    · simp [h1, h2, hjoin]
    · simp [h1, h2]
  · simp [h1]

theorem print_cons (step indent : Int) (text : String) {entries : List Entry} (h : entries ≠ []) :
    print step indent (.line 0 text :: entries) =
      if fits indent then
        (print step indent entries).map fun rest => blanks indent ++ text ++ "\n" ++ rest
      else none := by
  rw [← List.singleton_append, print_append step indent (by simp) h, print_line]
  split_ifs <;> rfl

theorem print_concat (step indent : Int) (text : String) {entries : List Entry} (h : entries ≠ []) :
    print step indent (entries ++ [.line 0 text]) =
      if fits indent then
        (print step indent entries).map fun rest => rest ++ "\n" ++ (blanks indent ++ text)
      else none := by
  rw [print_append step indent h (by simp), print_line]
  split_ifs
  · cases print step indent entries <;> rfl
  · cases print step indent entries <;> rfl

end Layout

/-! ### The layout of a node -/

def View.isNull : View → Bool
  | .null => true
  | _ => false

mutual

/-- Whether a view is a tree of nodes: children are nodes, and placeholders hold morphs. -/
def View.isNode : View → Bool
  | .fragment (.list items) => areNodes items
  | .element _ _ _ _ _ (.list items) => areNodes items
  | .text _ _ => true
  | .comment _ _ => true
  | .placeholder morph _ _ => morph.isMorph
  | _ => false

/-- Whether a view is a morph or null; the branches of a block are trees of nodes or null. -/
def View.isMorph : View → Bool
  | .null => true
  | .inline _ _ _ => true
  | .modifier _ _ _ => true
  | .attribute _ _ _ => true
  | .content _ => true
  | .block _ _ _ primary alternate =>
    (primary.isNull || primary.isNode) && (alternate.isNull || alternate.isNode)
  | _ => false

def areNodes : List View → Bool
  | [] => true
  | v :: rest => v.isNode && areNodes rest

end

def openingTag (tag attributes bound modifiers : View) : Option String := do
  let attributes ← (attributesText attributes).toOption
  let bound ← (childrenTexts (.ofInt defaultStep) (.ofInt 0) bound).toOption
  let modifiers ← (childrenTexts (.ofInt defaultStep) (.ofInt 0) modifiers).toOption
  let tag ← (stringOnly tag).toOption
  return "<" ++ tag ++ Text.group (Text.join " " attributes) ++ Text.group (Text.join " " bound) ++
    Text.group (Text.join " " modifiers) ++ ">"

/-- The layout of an element: its children stand one step deeper between its two tags. -/
def elementLayout (tag attributes bound modifiers : View) (inner : Option (List Entry)) :
    Option (List Entry) := do
  let opening ← openingTag tag attributes bound modifiers
  let inner ← inner
  let tag ← (stringOnly tag).toOption
  return .line 0 opening :: inner.map Entry.deeper ++ [.line 0 ("</" ++ tag ++ ">")]

/-- The layout of the second branch of a block, if it has one. -/
def elseLayout (alternate : View) (inner : Option (List Entry)) : Option (List Entry) :=
  if alternate.isNull then some []
  else inner.map fun entries => .line 0 "\x7b\x7belse\x7d\x7d" :: entries.map Entry.deeper

/-- The layout of a block: its branches stand one step deeper, its own lines do not. -/
def blockLayout (name params hash : View) (first second : Option (List Entry)) :
    Option (List Entry) := do
  let opening ← (View.callText name params hash).toOption
  let first ← first
  let second ← second
  let name ← (stringOnly name).toOption
  return .line 0 ("\x7b\x7b#" ++ opening ++ " \x7d\x7d") :: first.map Entry.deeper ++ second ++
    [.line 0 ("\x7b\x7b/" ++ name ++ "\x7d\x7d")]

mutual

/-- The layout of a node, if it can be printed at all. -/
def View.layout : View → Option (List Entry)
  | .fragment (.list items) => if items.isEmpty then some [.blank] else layouts items
  | .element tag _ attributes bound modifiers (.list items) =>
    elementLayout tag attributes bound modifiers (layouts items)
  | .text contents _ => (stringOnly contents).toOption.map fun text => [.line 0 text]
  | .comment contents _ =>
    (stringOnly contents).toOption.map fun text => [.line 0 ("<!-- " ++ text ++ " -->")]
  | .placeholder morph _ _ => morph.morphLayout
  | _ => none

def View.morphLayout : View → Option (List Entry)
  | .null => none
  | .block name params hash primary alternate =>
    blockLayout name params hash primary.layout (elseLayout alternate alternate.layout)
  | m => m.standalone.toOption.map fun text => [.line 0 text]

/-- The layouts of nodes, one after the other. -/
def layouts : List View → Option (List Entry)
  | [] => some []
  | v :: rest => do
    let first ← v.layout
    let second ← layouts rest
    return first ++ second

end

theorem layouts_cons (v : View) (rest : List View) :
    layouts (v :: rest) = v.layout.bind fun first => (layouts rest).map (first ++ ·) := by
  rw [layouts]
  cases v.layout <;> cases layouts rest <;> rfl

theorem layouts_singleton (v : View) : layouts [v] = v.layout := by
  rw [layouts_cons]
  cases v.layout <;> simp [layouts]

/-! ### Printing writes the layout -/

theorem toOption_bind {α β : Type} (x : Except Fault α) (f : α → Except Fault β) :
    (x >>= f).toOption = x.toOption.bind fun a => (f a).toOption := by
  cases x <;> rfl

@[simp] theorem toOption_ok {α : Type} (a : α) : (Except.ok a : Except Fault α).toOption = some a :=
  rfl

@[simp] theorem toOption_error {α : Type} (fault : Fault) :
    (Except.error fault : Except Fault α).toOption = none := rfl

@[simp] theorem toOption_pure {α : Type} (a : α) : (pure a : Except Fault α).toOption = some a := rfl

theorem Width.fits_iff (n : Int) : fits n = true ↔ -2 ^ 63 ≤ n ∧ n < 2 ^ 63 :=
  decide_eq_true_iff

theorem Width.toOption_pad (n : Int) :
    (ofInt n).pad.toOption = if fits n then some (blanks n) else none := by
  have hlimit : limit = 2 ^ 63 := rfl
  simp only [pad, ofInt, index?]
  split_ifs with h1 h2 h3 <;> rw [fits_iff] at * <;> first | rfl | omega

theorem Width.deeper_ofInt (n step : Int) :
    (ofInt n).deeper (ofInt step) = .ok (ofInt (n + step)) := rfl

theorem elementLayout_ne_nil {tag attributes bound modifiers : View} {inner : Option (List Entry)}
    {entries : List Entry}
    (h : elementLayout tag attributes bound modifiers inner = some entries) : entries ≠ [] := by
  simp only [elementLayout, Option.bind_eq_bind, Option.bind_eq_some_iff] at h
  obtain ⟨opening, -, inner, -, tag, -, h⟩ := h
  cases h
  simp

theorem View.morphLayout_ne_nil {m : View} {entries : List Entry}
    (h : m.morphLayout = some entries) : entries ≠ [] := by
  unfold View.morphLayout at h
  split at h
  · cases h
  · simp only [blockLayout, Option.bind_eq_bind, Option.bind_eq_some_iff] at h
    obtain ⟨opening, -, first, -, second, -, name, -, h⟩ := h
    cases h
    simp
  · obtain ⟨text, -, rfl⟩ := Option.map_eq_some_iff.1 h
    simp

mutual

theorem View.layout_ne_nil (v : View) {entries : List Entry} (h : v.layout = some entries) :
    entries ≠ [] := by
  unfold View.layout at h
  split at h
  · next items =>
    split at h
    · cases h
      simp
    · next hne => exact layouts_ne_nil items (by simpa using hne) h
  · exact elementLayout_ne_nil h
  · obtain ⟨text, -, rfl⟩ := Option.map_eq_some_iff.1 h
    simp
  · obtain ⟨text, -, rfl⟩ := Option.map_eq_some_iff.1 h
    simp
  · exact View.morphLayout_ne_nil h
  · cases h

theorem layouts_ne_nil (items : List View) (hne : items ≠ []) {entries : List Entry}
    (h : layouts items = some entries) : entries ≠ [] := by
  cases items with
  | nil => exact absurd rfl hne
  | cons v rest =>
    simp only [layouts, Option.bind_eq_bind, Option.bind_eq_some_iff] at h
    obtain ⟨first, hf, second, -, h⟩ := h
    cases h
    have := v.layout_ne_nil hf
    simp [this]

end

/-- The text of lines that each end with a line break. -/
def Layout.printEnded (step indent : Int) (entries : List Entry) : Option String :=
  if entries = [] then some "" else (Layout.print step indent entries).map (· ++ "\n")

theorem Layout.print_enclosed (step indent : Int) (opening closing : String)
    (entries : List Entry) :
    Layout.print step indent
        (.line 0 opening :: entries.map Entry.deeper ++ [.line 0 closing]) =
      if fits indent then
        (Layout.printEnded step (indent + step) entries).map fun inner =>
          blanks indent ++ opening ++ "\n" ++ inner ++ blanks indent ++ closing
      else none := by
  rw [List.cons_append, print_cons step indent opening (by simp), printEnded]
  by_cases hne : entries = []
  · subst hne
    simp [print_line, String.append_assoc]
  · rw [print_concat step indent closing (by simpa using hne), print_deeper, if_neg hne]
    by_cases hfits : fits indent
    · cases print step (indent + step) entries <;> simp [hfits, String.append_assoc]
    · simp [hfits]

theorem toOption_elementOf {tag attributes bound modifiers : View} {children : Except Fault String}
    {inner : Option (List Entry)}
    (h : children.toOption = inner.bind (Layout.printEnded step (indent + step))) :
    (elementOf (.ofInt indent) tag (attributesText attributes)
        (childrenTexts (.ofInt defaultStep) (.ofInt 0) bound)
        (childrenTexts (.ofInt defaultStep) (.ofInt 0) modifiers) children).toOption =
      (elementLayout tag attributes bound modifiers inner).bind (Layout.print step indent) := by
  simp only [elementOf, toOption_bind, h, elementLayout, openingTag, toOption_pad]
  cases (attributesText attributes).toOption with
  | none => rfl
  | some attributes =>
  cases (childrenTexts (.ofInt defaultStep) (.ofInt 0) bound).toOption with
  | none => rfl
  | some bound =>
  cases (childrenTexts (.ofInt defaultStep) (.ofInt 0) modifiers).toOption with
  | none => rfl
  | some modifiers =>
  cases inner with
  | none => cases (stringOnly tag).toOption <;> rfl
  | some entries =>
  cases (stringOnly tag).toOption with
  | none =>
    cases hchildren : Layout.printEnded step (indent + step) entries <;>
      by_cases hfits : fits indent <;> simp [hchildren, hfits]
  | some tag =>
    simp only [Option.bind_eq_bind, Option.bind_some, Option.pure_def, Layout.print_enclosed]
    cases hchildren : Layout.printEnded step (indent + step) entries <;>
      by_cases hfits : fits indent <;>
        simp [hfits, elementText, String.append_assoc, Except.toOption, pure, Except.pure]

theorem Layout.print_branch (step indent : Int) (opening closing : String) {first : List Entry}
    (hf : first ≠ []) :
    Layout.print step indent (.line 0 opening :: first.map Entry.deeper ++ [.line 0 closing]) =
      if fits indent then
        (Layout.print step (indent + step) first).map fun a =>
          blanks indent ++ opening ++ "\n" ++ a ++ "\n" ++ blanks indent ++ closing
      else none := by
  rw [Layout.print_enclosed, Layout.printEnded, if_neg hf]
  split_ifs
  · cases Layout.print step (indent + step) first <;> simp [String.append_assoc]
  · rfl

/-- The lines of a block with two branches. -/
theorem Layout.print_branches (step indent : Int) (opening middle closing : String)
    {first second : List Entry} (hf : first ≠ []) (hs : second ≠ []) :
    Layout.print step indent (.line 0 opening :: first.map Entry.deeper ++
        (.line 0 middle :: second.map Entry.deeper) ++ [.line 0 closing]) =
      if fits indent then
        (Layout.print step (indent + step) first).bind fun a =>
          (Layout.print step (indent + step) second).map fun b =>
            blanks indent ++ opening ++ "\n" ++ a ++ "\n" ++ blanks indent ++ middle ++
              "\n" ++ b ++ "\n" ++ blanks indent ++ closing
      else none := by
  rw [List.append_assoc, Layout.print_append step indent (by simp) (by simp),
    Layout.print_cons step indent opening (by simpa using hf), Layout.print_deeper,
    Layout.print_branch step indent middle closing hs]
  split_ifs
  · cases Layout.print step (indent + step) first <;>
      cases Layout.print step (indent + step) second <;> simp [String.append_assoc]
  · rfl

/-- A block without a primary branch is refused. -/
theorem toOption_blockOf_null {step indent : Width} {opening : Except Fault String} :
    (blockOf step indent name .null alternate plainName opening branch otherwise).toOption =
      none := by
  cases plainName <;> rfl

/-- A block with a primary branch, part by part. -/
theorem blockOf_of_not_null {step indent : Width} {primary : View} {opening : Except Fault String}
    (h : primary.isNull = false) :
    blockOf step indent name primary alternate plainName opening branch otherwise = (do
      let inner ← indent.deeper step
      let opening ← opening
      let first ← branch inner
      let second ← elseOf indent alternate (otherwise inner)
      let margin ← indent.pad
      let name ← stringOnly name
      return "\x7b\x7b#" ++ opening ++ " \x7d\x7d\n" ++ first ++ second ++ "\n" ++ margin ++
        "\x7b\x7b/" ++ name ++ "\x7d\x7d") := by
  cases primary <;> first | rfl | cases h

/-- The second branch of a block, if there is one. -/
theorem toOption_elseOf {text : Except Fault String} (h : alternate.isNull = false) :
    (elseOf (.ofInt indent) alternate text).toOption =
      if fits indent then
        text.toOption.map fun b => "\n" ++ blanks indent ++ "\x7b\x7belse\x7d\x7d\n" ++ b
      else none := by
  have helse : elseOf (.ofInt indent) alternate text = (do
      let margin ← (ofInt indent).pad
      let text ← text
      return "\n" ++ margin ++ "\x7b\x7belse\x7d\x7d\n" ++ text) := by
    cases alternate <;> first | rfl | cases h
  rw [helse, toOption_bind, toOption_pad]
  split_ifs
  · cases text <;> rfl
  · rfl

theorem toOption_elseOf_null {indent : Width} {text : Except Fault String}
    (h : alternate.isNull = true) : (elseOf indent alternate text).toOption = some "" := by
  cases alternate <;> first | rfl | cases h

/-- A block behind the margin of its placeholder is written as its layout, if its branches are. -/
theorem toOption_blockOf {params hash primary : View} {first second : Option (List Entry)}
    (hprimary : primary.isNull = false) (hf : ∀ entries, first = some entries → entries ≠ [])
    (hs : ∀ entries, second = some entries → entries ≠ [])
    (hfirst : (branch (.ofInt (indent + step))).toOption =
      first.bind (Layout.print step (indent + step)))
    (hsecond : alternate.isNull = false → (otherwise (.ofInt (indent + step))).toOption =
      second.bind (Layout.print step (indent + step))) :
    ((ofInt indent).pad.toOption.bind fun margin =>
      (blockOf (.ofInt step) (.ofInt indent) name primary alternate plainName
        (View.callText name params hash) branch otherwise).toOption.map (margin ++ ·)) =
      (blockLayout name params hash first (elseLayout alternate second)).bind
        (Layout.print step indent) := by
  rw [blockOf_of_not_null hprimary, deeper_ofInt]
  simp only [toOption_bind, toOption_ok, toOption_pure, Option.bind_some, hfirst, blockLayout,
    Option.bind_eq_bind, Option.pure_def, toOption_pad]
  cases (View.callText name params hash).toOption with
  | none => by_cases hfits : fits indent <;> simp [hfits]
  | some opening =>
  cases first with
  | none => by_cases hfits : fits indent <;> simp [hfits]
  | some first =>
  have hf := hf first rfl
  by_cases hnull : alternate.isNull = true
  · simp only [elseLayout, hnull, toOption_elseOf_null, if_true, Option.bind_some]
    cases (stringOnly name).toOption with
    | none =>
      by_cases hfits : fits indent <;>
        cases Layout.print step (indent + step) first <;> simp [hfits]
    | some name =>
      simp only [Option.bind_some, List.append_nil]
      rw [Layout.print_branch step indent _ _ hf]
      by_cases hfits : fits indent <;>
        cases Layout.print step (indent + step) first <;> simp [hfits, String.append_assoc]
  · have hnull : alternate.isNull = false := by simpa using hnull
    simp only [elseLayout, hnull, toOption_elseOf hnull, hsecond hnull]
    cases second with
    | none =>
      by_cases hfits : fits indent <;>
        cases Layout.print step (indent + step) first <;> simp [hfits]
    | some second =>
    have hs := hs second rfl
    cases (stringOnly name).toOption with
    | none =>
      by_cases hfits : fits indent <;>
        cases Layout.print step (indent + step) first <;>
        cases Layout.print step (indent + step) second <;> simp [hfits]
    | some name =>
      simp only [Option.bind_some, Option.map_some, Bool.false_eq_true, if_false]
      rw [Layout.print_branches step indent _ _ _ hf hs]
      by_cases hfits : fits indent <;>
        cases Layout.print step (indent + step) first <;>
        cases Layout.print step (indent + step) second <;> simp [hfits, String.append_assoc]

/-- What a placeholder is bound to, behind its margin. -/
theorem toOption_placeholderOf {m : View} {text : Except Fault String} (h : m.isNull = false) :
    (placeholderOf (.ofInt indent) m text).toOption =
      (ofInt indent).pad.toOption.bind fun margin => text.toOption.map (margin ++ ·) := by
  have hm : placeholderOf (.ofInt indent) m text = (do
      let margin ← (ofInt indent).pad
      let text ← text
      return margin ++ text) := by
    cases m <;> first | rfl | cases h
  rw [hm, toOption_bind]
  congr 1
  funext margin
  cases text <;> rfl

theorem toOption_line (step indent : Int) (text : Except Fault String) :
    ((ofInt indent).pad.toOption.bind fun margin => text.toOption.map (margin ++ ·)) =
      (text.toOption.map fun line => [Entry.line 0 line]).bind (Layout.print step indent) := by
  rw [toOption_pad]
  cases text with
  | error fault => by_cases hfits : fits indent <;> simp [hfits]
  | ok line => by_cases hfits : fits indent <;> simp [hfits, Layout.print_line]

/-- Lines in front of other lines. -/
theorem map_join_consText (text : Except Fault String) {texts : Except Fault (List String)}
    (hne : ∀ rest, texts = .ok rest → rest ≠ []) :
    (consText text texts).toOption.map (Text.join "\n") =
      text.toOption.bind fun a =>
        (texts.toOption.map (Text.join "\n")).map fun b => a ++ "\n" ++ b := by
  cases text with
  | error fault => rfl
  | ok a =>
    cases texts with
    | error fault => rfl
    | ok rest =>
      cases rest with
      | nil => exact absurd rfl (hne [] rfl)
      | cons b more => rfl

theorem map_join_childItems_singleton (step indent : Width) (v : View) :
    (childItems step indent [v]).toOption.map (Text.join "\n") =
      (v.render step indent).toOption := by
  rw [childItems, childItems]
  cases v.render step indent <;> rfl

theorem childItems_ne_nil {step indent : Width} {v : View} {rest : List View} {texts : List String}
    (h : childItems step indent (v :: rest) = .ok texts) : texts ≠ [] := by
  simp only [childItems, consText] at h
  cases hv : v.render step indent with
  | error fault => rw [hv] at h; cases h
  | ok a =>
    cases hrest : childItems step indent rest with
    | error fault => rw [hv, hrest] at h; cases h
    | ok more => rw [hv, hrest] at h; cases h; simp

/-- Lines that each end with a line break, of nodes that are there. -/
theorem printEnded_layouts {items : List View} (hne : items ≠ []) :
    (layouts items).bind (Layout.printEnded step indent) =
      ((layouts items).bind (Layout.print step indent)).map (· ++ "\n") := by
  cases h : layouts items with
  | none => rfl
  | some entries => simp [Layout.printEnded, layouts_ne_nil items hne h]

mutual

/-- Printing a node is writing its layout. -/
theorem View.toOption_render (step : Int) (v : View) (indent : Int) (h : v.isNode) :
    (v.render (.ofInt step) (.ofInt indent)).toOption =
      v.layout.bind (Layout.print step indent) := by
  cases v with
  | fragment children =>
    cases children with
    | list items =>
      cases items with
      | nil => exact (Layout.print_blank step indent).symm
      | cons w rest =>
        have hitems := toOption_childItems step (w :: rest) indent h (by simp)
        rw [View.render, childrenTexts, fragmentOf, toOption_bind, View.layout]
        simpa [Option.map_eq_bind, Function.comp_def] using hitems
    | _ => cases h
  | element tag ns attributes bound modifiers children =>
    cases children with
    | list items =>
      rw [View.render, View.layout]
      refine toOption_elementOf ?_
      cases items with
      | nil => rfl
      | cons w rest =>
        have hitems := toOption_childItems step (w :: rest) (indent + step) h (by simp)
        have hinner : innerOf (.ofInt step) (.ofInt indent) (.list (w :: rest))
            (fun inner => childrenTexts (.ofInt step) inner (.list (w :: rest))) = (do
              let texts ← childItems (.ofInt step) (.ofInt (indent + step)) (w :: rest)
              return Text.join "\n" texts ++ "\n") := rfl
        rw [hinner, toOption_bind, printEnded_layouts (by simp), ← hitems]
        cases childItems (.ofInt step) (.ofInt (indent + step)) (w :: rest) <;> rfl
    | _ => cases h
  | text contents children =>
    rw [View.render, View.layout, ← toOption_line, textOf, toOption_bind]
    congr 1
    funext margin
    cases stringOnly contents <;> rfl
  | comment contents children =>
    have hline := toOption_line step indent
      ((stringOnly contents).map fun text => "<!-- " ++ text ++ " -->")
    rw [View.render, View.layout, commentOf, toOption_bind]
    cases hcontents : stringOnly contents with
    | error fault => cases (ofInt indent).pad <;> rfl
    | ok text =>
      rw [hcontents] at hline
      simpa [Except.map, String.append_assoc] using hline
  | placeholder m parent children =>
    rw [View.render, View.layout]
    exact View.toOption_placeholder step m indent h
  | _ => cases h

/-- Printing what a placeholder is bound to is writing its layout. -/
theorem View.toOption_placeholder (step : Int) (m : View) (indent : Int) (h : m.isMorph) :
    (placeholderOf (.ofInt indent) m (m.render (.ofInt step) (.ofInt indent))).toOption =
      m.morphLayout.bind (Layout.print step indent) := by
  cases m with
  | null => rfl
  | block name params hash primary alternate =>
    rw [toOption_placeholderOf rfl, View.render, View.morphLayout]
    simp only [View.isMorph, Bool.and_eq_true, Bool.or_eq_true] at h
    by_cases hprimary : primary.isNull = true
    · obtain rfl : primary = .null := by cases primary <;> first | rfl | cases hprimary
      have hblock : blockLayout name params hash View.null.layout
          (elseLayout alternate alternate.layout) = none := by
        simp [blockLayout, View.layout]
      rw [hblock]
      simp [toOption_blockOf_null]
    · refine toOption_blockOf (by simpa using hprimary) (fun _ => primary.layout_ne_nil)
        (fun _ => alternate.layout_ne_nil) ?_ ?_
      · exact primary.toOption_render step (indent + step) (h.1.resolve_left hprimary)
      · intro hnull
        exact alternate.toOption_render step (indent + step) (h.2.resolve_left (by simp [hnull]))
  | inline name params hash =>
    rw [toOption_placeholderOf rfl, toOption_line step]
    rfl
  | modifier name params hash =>
    rw [toOption_placeholderOf rfl, toOption_line step]
    rfl
  | «attribute» key value owner =>
    rw [toOption_placeholderOf rfl, toOption_line step]
    rfl
  | content v =>
    rw [toOption_placeholderOf rfl, toOption_line step]
    rfl
  | _ => cases h

/-- Printing nodes one a line is writing their layouts one after the other. -/
theorem toOption_childItems (step : Int) (items : List View) (indent : Int) (h : areNodes items)
    (hne : items ≠ []) :
    (childItems (.ofInt step) (.ofInt indent) items).toOption.map (Text.join "\n") =
      (layouts items).bind (Layout.print step indent) := by
  cases items with
  | nil => exact absurd rfl hne
  | cons v rest =>
    simp only [areNodes, Bool.and_eq_true] at h
    have hv := View.toOption_render step v indent h.1
    cases rest with
    | nil => rw [map_join_childItems_singleton, hv, layouts_singleton]
    | cons w more =>
      have hrest := toOption_childItems step (w :: more) indent h.2 (by simp)
      rw [childItems, map_join_consText _ (fun _ => childItems_ne_nil), hv, hrest,
        layouts_cons v (w :: more)]
      cases hfirst : v.layout with
      | none => rfl
      | some first =>
        cases hsecond : layouts (w :: more) with
        | none => cases hp : Layout.print step indent first <;> simp [hp]
        | some second =>
          have happend := Layout.print_append step indent (v.layout_ne_nil hfirst)
            (layouts_ne_nil (w :: more) (by simp) hsecond)
          simpa using happend.symm

end

/-! ### Empty lines -/

mutual

/-- The number of fragments without children in a tree of nodes. -/
def View.childless : View → Nat
  | .fragment (.list items) => if items.isEmpty then 1 else childlessAll items
  | .element _ _ _ _ _ (.list items) => childlessAll items
  | .placeholder morph _ _ => morph.childlessBranches
  | _ => 0

/-- The number of fragments without children in the branches of a block. -/
def View.childlessBranches : View → Nat
  | .block _ _ _ primary alternate => primary.childless + alternate.childless
  | _ => 0

/-- The number of fragments without children in trees of nodes. -/
def childlessAll : List View → Nat
  | [] => 0
  | v :: rest => v.childless + childlessAll rest

end

theorem count_blank_deeper (entries : List Entry) :
    (entries.map Entry.deeper).count .blank = entries.count .blank := by
  induction entries with
  | nil => rfl
  | cons e rest ih => cases e <;> simp [Entry.deeper, ih]

mutual

/-- A layout has one empty line for each fragment without children. -/
theorem View.count_blank_layout (v : View) {entries : List Entry} (h : v.layout = some entries) :
    entries.count .blank = v.childless := by
  unfold View.layout at h
  split at h
  · next items =>
    cases items with
    | nil => cases h; rfl
    | cons w rest => exact count_blank_layouts (w :: rest) h
  · next tag _ attributes bound modifiers items =>
    simp only [elementLayout, Option.bind_eq_bind, Option.bind_eq_some_iff] at h
    obtain ⟨opening, -, inner, hinner, tag, -, h⟩ := h
    cases h
    have hcount := count_blank_layouts items hinner
    simpa [List.count_append, count_blank_deeper, View.childless] using hcount
  · obtain ⟨text, -, rfl⟩ := Option.map_eq_some_iff.1 h
    rfl
  · obtain ⟨text, -, rfl⟩ := Option.map_eq_some_iff.1 h
    rfl
  · next m _ _ => exact m.count_blank_morphLayout h
  · cases h

theorem View.count_blank_morphLayout (m : View) {entries : List Entry}
    (h : m.morphLayout = some entries) : entries.count .blank = m.childlessBranches := by
  unfold View.morphLayout at h
  split at h
  · cases h
  · next name params hash primary alternate =>
    simp only [blockLayout, Option.bind_eq_bind, Option.bind_eq_some_iff] at h
    obtain ⟨opening, -, first, hfirst, second, hsecond, name, -, h⟩ := h
    cases h
    have hprimary := primary.count_blank_layout hfirst
    have halternate : second.count .blank = alternate.childless := by
      unfold elseLayout at hsecond
      split at hsecond
      · next hnull =>
        cases hsecond
        cases alternate <;> first | rfl | cases hnull
      · obtain ⟨entries, hentries, rfl⟩ := Option.map_eq_some_iff.1 hsecond
        have hcount := alternate.count_blank_layout hentries
        simpa [count_blank_deeper] using hcount
    simp [List.count_append, count_blank_deeper, View.childlessBranches, hprimary, halternate]
  · next hblock =>
    obtain ⟨text, -, rfl⟩ := Option.map_eq_some_iff.1 h
    cases m <;> first | rfl | exact (hblock _ _ _ _ _ rfl).elim

theorem count_blank_layouts (items : List View) {entries : List Entry}
    (h : layouts items = some entries) : entries.count .blank = childlessAll items := by
  cases items with
  | nil => cases h; rfl
  | cons v rest =>
    simp only [layouts_cons, Option.bind_eq_some_iff, Option.map_eq_some_iff] at h
    obtain ⟨first, hfirst, second, hsecond, rfl⟩ := h
    rw [List.count_append, v.count_blank_layout hfirst, count_blank_layouts rest hsecond]
    rfl

end

/-! ### The normal form -/

/-- The step of indentation that options give, or none. -/
def stepValue : Option Int → Value
  | some step => .int step
  | none => .null

/-- The step of indentation in effect: a step of zero and no step at all stand for the default. -/
def stepAmount : Option Int → Int
  | some step => if step = 0 then defaultStep else step
  | none => defaultStep

theorem effective_stepValue (s : Store) (step : Option Int) :
    effective (s.view (stepValue step)) = .ofInt (stepAmount step) := by
  cases step with
  | none => rfl
  | some k =>
    have hview : s.view (stepValue (some k)) = .int k := rfl
    rw [hview, effective]
    by_cases hk : k = 0
    · subst hk
      rfl
    · simp [View.truthy, stepAmount, hk, ofInt]

/-- Printing a part of a tree gives its text as a value, or its fault, and leaves the store alone. -/
theorem printAt_eq (s : Store) (v : Value) (indent : Int) (step : Option Int) :
    Method.printAt v (.int indent) (stepValue step) s =
      match (s.tree v).render (.ofInt (stepAmount step)) (.ofInt indent) with
      | .ok text => .ok (.str text) s
      | .error fault => .error fault s := by
  have htext : (s.tree v).toText (s.view (.int indent)) (s.view (stepValue step)) =
      (s.tree v).render (.ofInt (stepAmount step)) (.ofInt indent) := by
    rw [View.toText, effective_stepValue]
    rfl
  have hprint : Method.printAt v (.int indent) (stepValue step) s =
      (do
        let text ← Act.lift ((s.tree v).toText (s.view (.int indent)) (s.view (stepValue step)))
        return .str text : Act Value) s := rfl
  rw [hprint, htext]
  cases (s.tree v).render (.ofInt (stepAmount step)) (.ofInt indent) <;> rfl

/-- A part of a tree cannot be printed at any indentation, with any step. -/
def Store.Refuses (s : Store) (v : Value) : Prop :=
  ∀ (indent : Int) (step : Option Int),
    ∃ fault, Method.printAt v (.int indent) (stepValue step) s = .error fault s

/-- A part of a tree has these lines at every indentation, with every step: they are its text where
all their widths can be written, and elsewhere it is refused. -/
def Store.Prints (s : Store) (v : Value) (entries : List Entry) : Prop :=
  ∀ (indent : Int) (step : Option Int), if entries.all (Entry.fits (stepAmount step) indent) then
      Method.printAt v (.int indent) (stepValue step) s =
        .ok (.str (Text.join "\n" (entries.map (Entry.text (stepAmount step) indent)))) s
    else ∃ fault, Method.printAt v (.int indent) (stepValue step) s = .error fault s

theorem Store.prints_of_layout {s : Store} {v : Value} {entries : List Entry}
    (h : (s.tree v).isNode = true) (hlayout : (s.tree v).layout = some entries) :
    s.Prints v entries := by
  intro indent step
  have hsome := View.toOption_render (stepAmount step) (s.tree v) indent h
  rw [hlayout, Option.bind_some, Layout.print] at hsome
  rw [printAt_eq]
  -- the text and the layout agree as options, which leaves open only the fault
  split_ifs at hsome ⊢ with hfits
  · cases htext : (s.tree v).render (.ofInt (stepAmount step)) (.ofInt indent) with
    | ok text => rw [htext] at hsome; cases hsome; rfl
    | error fault => rw [htext] at hsome; cases hsome
  · cases htext : (s.tree v).render (.ofInt (stepAmount step)) (.ofInt indent) with
    | ok text => rw [htext] at hsome; cases hsome
    | error fault => exact ⟨fault, rfl⟩

/-- **The layout of a tree.** A tree of nodes either cannot be printed at any indentation with any
step, or it has one list of lines, with one empty line for each fragment without children, that is
its text at every indentation with every step. -/
theorem printAt_layout {s : Store} {v : Value} (h : (s.tree v).isNode = true) :
    s.Refuses v ∨
      ∃ entries : List Entry,
        entries.count .blank = (s.tree v).childless ∧ s.Prints v entries := by
  cases hlayout : (s.tree v).layout with
  | none =>
    refine .inl fun indent step => ?_
    have hnone := View.toOption_render (stepAmount step) (s.tree v) indent h
    rw [hlayout] at hnone
    rw [printAt_eq]
    cases htext : (s.tree v).render (.ofInt (stepAmount step)) (.ofInt indent) with
    | ok text => rw [htext] at hnone; cases hnone
    | error fault => exact ⟨fault, rfl⟩
  | some entries =>
    exact .inr ⟨entries, View.count_blank_layout _ hlayout, Store.prints_of_layout h hlayout⟩

/-- A text, an element around nothing but a block whose branch is empty, and a fragment of both. -/
def sampleStore : Store where
  objects := #[
    .node ⟨.text (.str "a"), .own []⟩ [],
    .node ⟨.fragment, .own []⟩ [],
    .morph (.block ⟨.str "if", .own [], .own []⟩ (.object ⟨1⟩) .null) [],
    .node ⟨.placeholder (.object ⟨2⟩) (.object ⟨4⟩), .own []⟩ [],
    .node ⟨.element (.str "p") .null (.own []) (.own []) (.own []), .own [.object ⟨3⟩]⟩ [],
    .node ⟨.fragment, .own [.object ⟨0⟩, .object ⟨4⟩]⟩ []]

def sampleLines : List Entry :=
  [.line 0 "a", .line 0 "<p>", .line 1 "\x7b\x7b#if \x7d\x7d", .blank,
    .line 1 "\x7b\x7b/if\x7d\x7d", .line 0 "</p>"]

/-- The fragment is not refused; it has six lines, one of them empty. -/
theorem printAt_layout_sample : sampleStore.Prints (.object ⟨5⟩) sampleLines ∧
    ∃ entries : List Entry, entries.count .blank = 1 ∧ sampleStore.Prints (.object ⟨5⟩) entries := by
  have h : (sampleStore.tree (.object ⟨5⟩)).isNode = true := rfl
  have hprints : sampleStore.Prints (.object ⟨5⟩) sampleLines :=
    Store.prints_of_layout h (by decide +kernel)
  obtain hrefuses | hentries := printAt_layout h
  · obtain ⟨fault, herror⟩ := hrefuses 0 none
    cases herror.symm.trans (hprints 0 none)
  · exact ⟨hprints, hentries⟩

/-- Widths are numbers of 64 bits: the text that is printed without indentation is refused at an
indentation below them, although it has no blanks there either. -/
theorem printAt_below_limit :
    Method.printAt (.object ⟨0⟩) (.int 0) .null sampleStore = .ok (.str "a") sampleStore ∧
      Method.printAt (.object ⟨0⟩) (.int (-2 ^ 63 - 1)) .null sampleStore =
        .error .overflow sampleStore := by
  exact ⟨rfl, rfl⟩

end TemplateRecovery
