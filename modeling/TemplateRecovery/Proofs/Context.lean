import TemplateRecovery.Order
import TemplateRecovery.Proofs.Layout
import TemplateRecovery.Proofs.Refusal
import TemplateRecovery.Proofs.Unfolding

/-!
# The place of a part in the text

A part of a tree is printed as a piece of the text, at an indentation that depends only on how deep it
stands. What stands before and after the piece does not depend on the part: whatever else can be
printed in its place changes the piece alone.

* `View.Context` are the places of a view in another one, so many steps deeper.
* `Store.Reaches` leads from a value through children, bound attributes, morphs and branches.
* `Store.Places` says that a part of an object has its place in what the object prints.
* `Store.Reaches.context` says that what is reached has a place in the tree.
-/

namespace TemplateRecovery

open View

variable {j k : Nat} {indent : Width} {x : View} {wrap : List View → View} {text whole : String}
  {step : Int} {v w : Value}

namespace Text

/-- One of several texts stands between what the others are joined to. -/
theorem join_middle (sep : String) (xs ys : List String) :
    ∃ before after, ∀ t, join sep (xs ++ t :: ys) = before ++ t ++ after := by
  obtain ⟨after, hafter⟩ : ∃ after, ∀ t, join sep (t :: ys) = t ++ after := by
    cases ys with
    | nil => exact ⟨"", fun t => by simp⟩
    | cons y rest => exact ⟨sep ++ join sep (y :: rest), fun t => by
        rw [join_cons_cons, String.append_assoc]⟩
  cases xs with
  | nil => exact ⟨"", after, fun t => by rw [List.nil_append, hafter, String.empty_append]⟩
  | cons x rest =>
    refine ⟨join sep (x :: rest) ++ sep, after, fun t => ?_⟩
    rw [join_append sep (List.cons_ne_nil _ _) (List.cons_ne_nil _ _), hafter]
    simp only [String.append_assoc]

end Text

/-! ### Places in a view -/

namespace View

/-- **A place of a view in another one**, so many steps deeper: if the whole is printed, the part is
printed as a piece of it, and any other part of this kind is printed as a piece between the same
texts. -/
structure Context (kind : View → Prop) (F : View → View) (depth : Nat) : Prop where
  present : ∀ x, kind x → F x ≠ .null
  frames : ∀ (step indent : Int) (x : View) (text : String), kind x →
    (F x).render (.ofInt step) (.ofInt indent) = .ok text →
    ∃ before piece after, x.render (.ofInt step) (.ofInt (indent + step * depth)) = .ok piece ∧
      text = before ++ piece ++ after ∧
      ∀ y other, kind y → y.render (.ofInt step) (.ofInt (indent + step * depth)) = .ok other →
        (F y).render (.ofInt step) (.ofInt indent) = .ok (before ++ other ++ after)

/-- Anything but null. -/
abbrev Present (x : View) : Prop := x ≠ .null

def IsAttribute (x : View) : Prop := ∃ key value owner, x = .attribute key value owner

theorem context_id : Context Present id 0 where
  present _ h := h
  frames step indent x text _ h :=
    ⟨"", text, "", by simpa using h, by simp, fun y other _ hy => by simpa using hy⟩

theorem Context.comp {kind : View → Prop} {F G : View → View} (hF : Context Present F j)
    (hG : Context kind G k) : Context kind (F ∘ G) (j + k) where
  present x hx := hF.present _ (hG.present x hx)
  frames step indent x text hx h := by
    obtain ⟨b₁, p₁, a₁, hp₁, rfl, hF'⟩ := hF.frames step indent (G x) text (hG.present x hx) h
    obtain ⟨b₂, p₂, a₂, hp₂, rfl, hG'⟩ := hG.frames step _ x p₁ hx hp₁
    have hwidth : indent + step * ((j + k : Nat) : Int) = indent + step * j + step * k := by
      push_cast
      ring
    rw [hwidth]
    refine ⟨b₁ ++ b₂, p₂, a₂ ++ a₁, hp₂, by simp only [String.append_assoc], fun y other hy ho => ?_⟩
    rw [Function.comp_apply, hF' (G y) _ (hG.present y hy) (hG' y other hy ho)]
    simp only [String.append_assoc]

/-! ### One step -/

theorem childItems_append (step indent : Width) (xs ys : List View) :
    childItems step indent (xs ++ ys) = (do
      let a ← childItems step indent xs
      let b ← childItems step indent ys
      return a ++ b) := by
  induction xs with
  | nil =>
    rw [List.nil_append, childItems]
    cases childItems step indent ys <;> rfl
  | cons x rest ih =>
    rw [List.cons_append, childItems, ih, childItems]
    cases x.render step indent with
    | error fault => rfl
    | ok text =>
      cases childItems step indent rest with
      | error fault => rfl
      | ok texts =>
        cases childItems step indent ys with
        | error fault => rfl
        | ok others => rfl

/-- Children that are printed, with any one of them between the others. -/
theorem childItems_middle {step : Width} {xs ys : List View} {texts : List String}
    (h : childItems step indent (xs ++ x :: ys) = .ok texts) :
    ∃ before piece after, x.render step indent = .ok piece ∧ texts = before ++ piece :: after ∧
      ∀ y other, y.render step indent = .ok other →
        childItems step indent (xs ++ y :: ys) = .ok (before ++ other :: after) := by
  rw [childItems_append] at h
  obtain ⟨before, hbefore, h⟩ := bind_eq_ok h
  obtain ⟨rest, hrest, h⟩ := bind_eq_ok h
  rw [childItems] at hrest
  obtain ⟨piece, hpiece, hrest⟩ := bind_eq_ok hrest
  obtain ⟨after, hafter, hrest⟩ := bind_eq_ok hrest
  cases hrest
  cases h
  refine ⟨before, piece, after, hpiece, rfl, fun y other hy => ?_⟩
  rw [childItems_append, hbefore, childItems, hy, hafter]
  rfl

/-- The two ways in which children are kept. -/
def IsArray (wrap : List View → View) : Prop := wrap = .list ∨ wrap = .tuple

theorem IsArray.childrenTexts_eq (h : IsArray wrap) (step indent : Width) (items : List View) :
    childrenTexts step indent (wrap items) = childItems step indent items := by
  rcases h with rfl | rfl <;> rfl

theorem context_fragment (hwrap : IsArray wrap) (xs ys : List View) :
    Context Present (fun x => .fragment (wrap (xs ++ x :: ys))) 0 where
  present x _ := by simp
  frames step indent x text _ h := by
    rw [render, hwrap.childrenTexts_eq] at h
    obtain ⟨texts, htexts, h⟩ := bind_eq_ok h
    cases h
    obtain ⟨before, piece, after, hpiece, rfl, hother⟩ := childItems_middle htexts
    obtain ⟨b, a, hjoin⟩ := Text.join_middle "\n" before after
    refine ⟨b, piece, a, by simpa using hpiece, hjoin piece, fun y other _ hy => ?_⟩
    rw [render, hwrap.childrenTexts_eq, hother y other (by simpa using hy)]
    exact congrArg Except.ok (hjoin other)

theorem IsArray.truthy_middle (h : IsArray wrap) (xs ys : List View) (x : View) :
    (wrap (xs ++ x :: ys)).truthy = true := by
  rcases h with rfl | rfl <;> simp [truthy]

theorem elementOf_eq_ok_iff {tag : View} {attributes bound modifiers : Except Fault (List String)}
    {children : Except Fault String} :
    elementOf indent tag attributes bound modifiers children = .ok text ↔
      ∃ as, attributes = .ok as ∧ ∃ bs, bound = .ok bs ∧ ∃ ms, modifiers = .ok ms ∧
        ∃ inner, children = .ok inner ∧ ∃ margin, indent.pad = .ok margin ∧
          ∃ name, stringOnly tag = .ok name ∧
            elementText margin name (Text.join " " as) (Text.join " " bs) (Text.join " " ms) inner =
              text := by
  simp only [elementOf, bind_eq_ok_iff, pure, Except.pure, Except.ok.injEq]

theorem innerOf_eq_ok_iff {indent : Int} {children : View}
    {texts : Width → Except Fault (List String)} (h : children.truthy = true) {inner : String} :
    innerOf (.ofInt step) (.ofInt indent) children texts = .ok inner ↔
      ∃ ts, texts (.ofInt (indent + step)) = .ok ts ∧ Text.join "\n" ts ++ "\n" = inner := by
  simp only [innerOf, h, if_true, Width.deeper_ofInt, bind_eq_ok_iff, pure, Except.pure,
    Except.ok.injEq, exists_eq_left']

theorem context_element (hwrap : IsArray wrap) (tag ns attributes bound modifiers : View)
    (xs ys : List View) :
    Context Present (fun x => .element tag ns attributes bound modifiers (wrap (xs ++ x :: ys))) 1 where
  present x _ := by simp
  frames step indent x text _ h := by
    rw [render, elementOf_eq_ok_iff] at h
    obtain ⟨as, has, bs, hbs, ms, hms, inner, hinner, margin, hmargin, name, hname, rfl⟩ := h
    obtain ⟨texts, htexts, rfl⟩ := (innerOf_eq_ok_iff (hwrap.truthy_middle xs ys x)).1 hinner
    rw [hwrap.childrenTexts_eq] at htexts
    obtain ⟨before, piece, after, hpiece, rfl, hother⟩ := childItems_middle htexts
    obtain ⟨b, a, hjoin⟩ := Text.join_middle "\n" before after
    have hwidth : indent + step * ((1 : Nat) : Int) = indent + step := by simp
    rw [hwidth]
    refine ⟨margin ++ "<" ++ name ++ Text.group (Text.join " " as) ++ Text.group (Text.join " " bs) ++
      Text.group (Text.join " " ms) ++ ">\n" ++ b, piece, a ++ "\n" ++ margin ++ "</" ++ name ++ ">",
      hpiece, ?_, fun y other _ hy => ?_⟩
    · rw [elementText, hjoin]
      simp only [String.append_assoc]
    · rw [render, elementOf_eq_ok_iff]
      refine ⟨as, has, bs, hbs, ms, hms, _, (innerOf_eq_ok_iff (hwrap.truthy_middle xs ys y)).2
        ⟨_, (hwrap.childrenTexts_eq _ _ _).trans (hother y other hy), rfl⟩, margin, hmargin, name,
        hname, ?_⟩
      rw [elementText, hjoin]
      simp only [String.append_assoc]

/-- A bound attribute is printed in the same way at every indentation, and never as nothing. -/
theorem IsAttribute.render_eq (h : IsAttribute x) (step indent step' indent' : Width) :
    x.render step indent = x.render step' indent' := by
  obtain ⟨key, value, owner, rfl⟩ := h
  rw [render, render]

theorem attributeOf_eq_ok_iff {key value : View} {plainKey inline : Except Fault String} :
    attributeOf key value plainKey inline = .ok text ↔
      value ≠ .null ∧ ∃ k, stringOnly key = .ok k ∧ ∃ t, inline = .ok t ∧ k ++ "=" ++ t = text := by
  unfold attributeOf
  split
  · cases plainKey <;> simp [bind, Except.bind]
  · next hvalue =>
    simp only [bind_eq_ok_iff, pure, Except.pure, Except.ok.injEq]
    exact (and_iff_right hvalue).symm

theorem append_ne_empty_of_middle (a b : String) : a ++ "=" ++ b ≠ "" := by
  intro hempty
  have hlength := congrArg String.length hempty
  simp [String.length_append] at hlength

theorem IsAttribute.render_eq_append (h : IsAttribute x) {step : Width}
    (hx : x.render step indent = .ok text) : ∃ a b, text = a ++ "=" ++ b := by
  obtain ⟨key, value, owner, rfl⟩ := h
  rw [render, attributeOf_eq_ok_iff] at hx
  obtain ⟨-, k, -, t, -, rfl⟩ := hx
  exact ⟨k, t, rfl⟩

theorem context_bound (hwrap : IsArray wrap) (tag ns attributes modifiers children : View)
    (xs ys : List View) :
    Context IsAttribute
      (fun x => .element tag ns attributes (wrap (xs ++ x :: ys)) modifiers children) 0 where
  present x _ := by simp
  frames step indent x text hx h := by
    rw [render, elementOf_eq_ok_iff] at h
    obtain ⟨as, has, bs, hbs, ms, hms, inner, hinner, margin, hmargin, name, hname, rfl⟩ := h
    rw [hwrap.childrenTexts_eq] at hbs
    obtain ⟨before, piece, after, hpiece, rfl, hother⟩ := childItems_middle hbs
    obtain ⟨b, a, hjoin⟩ := Text.join_middle " " before after
    -- An attribute is never printed as nothing, so the blank in front of the group is always there.
    have hgroup : ∀ t, (∃ a b, t = a ++ "=" ++ b) → Text.group (b ++ t ++ a) = " " ++ b ++ t ++ a := by
      rintro t ⟨k, v, rfl⟩
      have hne : b ++ (k ++ "=" ++ v) ++ a ≠ "" := by
        have := append_ne_empty_of_middle (b ++ k) (v ++ a)
        simpa only [String.append_assoc] using this
      rw [Text.group, if_neg hne]
      simp only [String.append_assoc]
    have hwidth : indent + step * ((0 : Nat) : Int) = indent := by simp
    rw [hwidth]
    refine ⟨margin ++ "<" ++ name ++ Text.group (Text.join " " as) ++ " " ++ b, piece,
      a ++ Text.group (Text.join " " ms) ++ ">\n" ++ inner ++ margin ++ "</" ++ name ++ ">",
      (hx.render_eq _ _ _ _).trans hpiece, ?_, fun y other hy ho => ?_⟩
    · rw [elementText, hjoin, hgroup piece (hx.render_eq_append hpiece)]
      simp only [String.append_assoc]
    · rw [hy.render_eq _ _ (.ofInt Width.defaultStep) (.ofInt 0)] at ho
      rw [render, elementOf_eq_ok_iff]
      refine ⟨as, has, _, (hwrap.childrenTexts_eq _ _ _).trans (hother y other ho), ms, hms, inner,
        hinner, margin, hmargin, name, hname, ?_⟩
      rw [elementText, hjoin, hgroup other (hy.render_eq_append ho)]
      simp only [String.append_assoc]

theorem placeholderOf_eq_ok_iff {morph : View} {text : Except Fault String} :
    placeholderOf indent morph text = .ok whole ↔
      morph ≠ .null ∧ ∃ margin, indent.pad = .ok margin ∧ ∃ t, text = .ok t ∧ margin ++ t = whole := by
  unfold placeholderOf
  split
  · simp
  · next hmorph =>
    simp only [bind_eq_ok_iff, pure, Except.pure, Except.ok.injEq]
    exact (and_iff_right hmorph).symm

theorem elseOf_eq_ok_iff {alternate : View} {text : Except Fault String} (h : alternate ≠ .null) :
    elseOf indent alternate text = .ok whole ↔
      ∃ margin, indent.pad = .ok margin ∧ ∃ t, text = .ok t ∧
        "\n" ++ margin ++ "\x7b\x7belse\x7d\x7d\n" ++ t = whole := by
  unfold elseOf
  split
  · exact absurd rfl h
  · simp only [bind_eq_ok_iff, pure, Except.pure, Except.ok.injEq]

def blockText (opening first second margin name : String) : String :=
  "\x7b\x7b#" ++ opening ++ " \x7d\x7d\n" ++ first ++ second ++ "\n" ++ margin ++ "\x7b\x7b/" ++
    name ++ "\x7d\x7d"

theorem blockOf_eq_ok_iff {indent : Int} {name primary alternate : View}
    {plainName opening : Except Fault String} {branch otherwise : Width → Except Fault String} :
    blockOf (.ofInt step) (.ofInt indent) name primary alternate plainName opening branch otherwise =
        .ok whole ↔
      primary ≠ .null ∧ ∃ tag, opening = .ok tag ∧
        ∃ first, branch (.ofInt (indent + step)) = .ok first ∧
          ∃ second, elseOf (.ofInt indent) alternate (otherwise (.ofInt (indent + step))) =
              .ok second ∧
            ∃ margin, (Width.ofInt indent).pad = .ok margin ∧
              ∃ n, stringOnly name = .ok n ∧ blockText tag first second margin n = whole := by
  unfold blockOf
  split
  · cases plainName <;> simp [bind, Except.bind]
  · next hprimary =>
    simp only [Width.deeper_ofInt, bind_eq_ok_iff, pure, Except.pure, Except.ok.injEq,
      exists_eq_left', blockText]
    exact (and_iff_right hprimary).symm

theorem context_placeholder (parent children : View) :
    Context Present (fun x => .placeholder x parent children) 0 where
  present x _ := by simp
  frames step indent x text hx h := by
    rw [render, placeholderOf_eq_ok_iff] at h
    obtain ⟨-, margin, hmargin, piece, hpiece, rfl⟩ := h
    have hwidth : indent + step * ((0 : Nat) : Int) = indent := by simp
    rw [hwidth]
    refine ⟨margin, piece, "", hpiece, by simp, fun y other hy ho => ?_⟩
    rw [render, placeholderOf_eq_ok_iff]
    exact ⟨hy, margin, hmargin, other, ho, by simp⟩

theorem context_primary (name params hash alternate : View) :
    Context Present (fun x => .block name params hash x alternate) 1 where
  present x _ := by simp
  frames step indent x text hx h := by
    rw [render, blockOf_eq_ok_iff] at h
    obtain ⟨-, tag, htag, first, hfirst, second, hsecond, margin, hmargin, n, hn, rfl⟩ := h
    have hwidth : indent + step * ((1 : Nat) : Int) = indent + step := by simp
    rw [hwidth]
    refine ⟨"\x7b\x7b#" ++ tag ++ " \x7d\x7d\n", first,
      second ++ "\n" ++ margin ++ "\x7b\x7b/" ++ n ++ "\x7d\x7d", hfirst, ?_, fun y other hy ho => ?_⟩
    · simp only [blockText, String.append_assoc]
    · rw [render, blockOf_eq_ok_iff]
      refine ⟨hy, tag, htag, other, ho, second, hsecond, margin, hmargin, n, hn, ?_⟩
      simp only [blockText, String.append_assoc]

theorem context_alternate (name params hash primary : View) :
    Context Present (fun x => .block name params hash primary x) 1 where
  present x _ := by simp
  frames step indent x text hx h := by
    rw [render, blockOf_eq_ok_iff] at h
    obtain ⟨hprimary, tag, htag, first, hfirst, second, hsecond, margin, hmargin, n, hn, rfl⟩ := h
    obtain ⟨margin', hmargin', piece, hpiece, rfl⟩ := (elseOf_eq_ok_iff hx).1 hsecond
    have hwidth : indent + step * ((1 : Nat) : Int) = indent + step := by simp
    rw [hwidth]
    refine ⟨"\x7b\x7b#" ++ tag ++ " \x7d\x7d\n" ++ first ++ "\n" ++ margin' ++
      "\x7b\x7belse\x7d\x7d\n", piece, "\n" ++ margin ++ "\x7b\x7b/" ++ n ++ "\x7d\x7d", hpiece, ?_,
      fun y other hy ho => ?_⟩
    · simp only [blockText, String.append_assoc]
    · rw [render, blockOf_eq_ok_iff]
      refine ⟨hprimary, tag, htag, first, hfirst, _,
        (elseOf_eq_ok_iff hy).2 ⟨margin', hmargin', other, ho, rfl⟩, margin, hmargin, n, hn, ?_⟩
      simp only [blockText, String.append_assoc]

end View

/-! ### Places in a store -/

namespace Store

variable {s : Store}

/-- An object holds a value as a child, a morph or a branch, so many steps deeper. -/
inductive Holds (s : Store) (id : ObjectId) : Nat → Value → Prop
  | child {children : Held (List Value)} {added : Fields} {kids : List Value} {w : Value}
      (ho : s.object? id = some (.node ⟨.fragment, children⟩ added))
      (hkids : s.heldItems? children = some kids) (hw : w ∈ kids) : Holds s id 0 w
  | nested {tag ns : Value} {attributes : Held Entries} {bound modifiers children : Held (List Value)}
      {added : Fields} {kids : List Value} {w : Value}
      (ho : s.object? id = some (.node ⟨.element tag ns attributes bound modifiers, children⟩ added))
      (hkids : s.heldItems? children = some kids) (hw : w ∈ kids) : Holds s id 1 w
  | morph {w parent : Value} {children : Held (List Value)} {added : Fields}
      (ho : s.object? id = some (.node ⟨.placeholder w parent, children⟩ added)) : Holds s id 0 w
  | primary {call : HelperCall} {w alternate : Value} {added : Fields}
      (ho : s.object? id = some (.morph (.block call w alternate) added)) : Holds s id 1 w
  | alternate {call : HelperCall} {primary w : Value} {added : Fields}
      (ho : s.object? id = some (.morph (.block call primary w) added)) : Holds s id 1 w

/-- An element has a bound attribute. -/
def Binds (s : Store) (id : ObjectId) (w : Value) : Prop :=
  ∃ tag ns attributes bound modifiers children added ws,
    s.object? id = some (.node ⟨.element tag ns attributes bound modifiers, children⟩ added) ∧
      s.heldItems? bound = some ws ∧ w ∈ ws ∧ (s.asAttribute? w).isSome

/-- What is reached through children, morphs, branches and bound attributes, and how many steps
deeper it stands. -/
inductive Reaches (s : Store) : Value → Nat → Value → Prop
  | here (v : Value) : Reaches s v 0 v
  | bound {id : ObjectId} {w : Value} (hw : s.Binds id w) : Reaches s (.object id) 0 w
  | step {id : ObjectId} {j k : Nat} {w x : Value} (hw : s.Holds id j w)
      (hprinted : s.isPrinted w = true) (hx : Reaches s w k x) : Reaches s (.object id) (j + k) x

theorem items_of_heldItems? {held : Held (List Value)} {kids : List Value}
    (h : s.heldItems? held = some kids) :
    ∃ wrap, IsArray wrap ∧
      ∀ tree shown, treeObject.items s tree shown held = wrap (kids.map tree) := by
  cases held with
  | own items =>
    cases h
    exact ⟨.list, .inl rfl, fun _ _ => rfl⟩
  | shared v =>
    obtain ⟨id, rfl, ho | ho⟩ := array?_eq_some h
    · refine ⟨.list, .inl rfl, fun tree shown => ?_⟩
      rw [treeObject.items, treeObject.container, asObject?_of_object? ho]
    · refine ⟨.tuple, .inr rfl, fun tree shown => ?_⟩
      rw [treeObject.items, treeObject.container, asObject?_of_object? ho]

theorem treedItems_of_heldItems? {held : Held (List Value)} {kids : List Value}
    (h : s.heldItems? held = some kids) : s.treedItems held = kids := by
  cases held with
  | own items => exact Option.some.inj h
  | shared v =>
    obtain ⟨id, rfl, ho | ho⟩ := array?_eq_some h
    · rw [treedItems, asObject?_of_object? ho]
    · rw [treedItems, asObject?_of_object? ho]

theorem isPart_of_isPrinted {id : ObjectId} {o : Object} (h : s.isPrinted (.object id) = true)
    (ho : s.object? id = some o) : o.isPart = true := by
  rw [isPrinted, asObject?_of_object? ho] at h
  cases o <;> first | rfl | cases h

theorem exists_of_isPrinted (h : s.isPrinted v = true) :
    ∃ id o, v = .object id ∧ s.object? id = some o ∧ o.isPart = true := by
  cases hv : s.asObject? v with
  | none => rw [isPrinted, hv] at h; cases h
  | some found =>
    obtain ⟨id, o⟩ := found
    obtain ⟨rfl, ho⟩ := asObject?_eq_some hv
    exact ⟨id, o, rfl, ho, isPart_of_isPrinted h ho⟩

/-- What prints by following its parts is neither null nor a text. -/
theorem isSome_label?_treeObject {o : Object} (h : o.isPart = true) (tree shown : Value → View) :
    (s.treeObject tree shown o).label?.isSome = true := by
  cases o with
  | expression e => cases e <;> rfl
  | morph m added => cases m <;> rfl
  | node n added =>
    obtain ⟨shape, children⟩ := n
    cases shape <;> rfl
  | _ => cases h

theorem Finite.tree_ne_null (h : s.Finite v) (hv : s.isPrinted v = true) : s.tree v ≠ .null := by
  obtain ⟨id, o, rfl, ho, hpart⟩ := exists_of_isPrinted hv
  rw [h.tree_object ho hpart]
  intro hnull
  cases hnull ▸ isSome_label?_treeObject (s := s) hpart s.tree s.shown

/-- **A part of an object has its place** among the rest: what the object prints is made of what the part
prints, in every store that has the same containers and in which the rest prints the same. -/
structure Places (s : Store) (o : Object) (w : Value) (rest : List Value) (kind : View → Prop)
    (j : Nat) : Prop where
  isPart : o.isPart = true
  mem : ∀ p, p ∈ s.treed o ↔ p = w ∨ p ∈ rest
  frames : ∃ F, Context kind F j ∧ ∀ (t : Store) (tree shown : Value → View),
    (∀ v ∈ o.holders, t.asObject? v = s.asObject? v) → (∀ p ∈ rest, tree p = s.tree p) →
      (∀ p ∈ s.worded o, shown p = s.shown p) → t.treeObject tree shown o = F (tree w)

section Places

variable {o : Object} {rest xs ys : List Value} {kind : View → Prop} {id : ObjectId}
  {children bound modifiers : Held (List Value)} {added : Fields}

theorem places_of {F : View → View} (hF : Context kind F j) (hpart : o.isPart = true)
    (hmem : ∀ p, p ∈ s.treed o ↔ p = w ∨ p ∈ rest)
    (h : ∀ tree, (∀ p ∈ rest, tree p = s.tree p) → s.treeObject tree s.shown o = F (tree w)) :
    s.Places o w rest kind j where
  isPart := hpart
  mem := hmem
  frames := ⟨F, hF, fun _ tree _ hholder hrest hshown =>
    (treeObject_congr hholder (fun _ _ => rfl) hshown).trans (h tree hrest)⟩

/-- One item of a container stands between the others. -/
theorem items_middle {held : Held (List Value)} (hkids : s.heldItems? held = some (xs ++ w :: ys)) :
    ∃ wrap, IsArray wrap ∧ ∀ tree shown, (∀ p ∈ xs ++ ys, tree p = s.tree p) →
      treeObject.items s tree shown held = wrap (xs.map s.tree ++ tree w :: ys.map s.tree) := by
  obtain ⟨wrap, hwrap, hitems⟩ := items_of_heldItems? hkids
  refine ⟨wrap, hwrap, fun tree shown hrest => ?_⟩
  rw [hitems, List.map_append, List.map_cons,
    List.map_congr_left fun p hp => hrest p (List.mem_append_left _ hp),
    List.map_congr_left fun p hp => hrest p (List.mem_append_right _ hp)]

theorem places_child (hkids : s.heldItems? children = some (xs ++ w :: ys)) :
    s.Places (.node ⟨.fragment, children⟩ added) w (xs ++ ys) Present 0 := by
  obtain ⟨wrap, hwrap, hitems⟩ := items_middle hkids
  refine places_of (context_fragment hwrap (xs.map s.tree) (ys.map s.tree)) rfl (fun p => ?_)
    fun tree hrest => congrArg fragment (hitems tree _ hrest)
  rw [treed, treedItems_of_heldItems? hkids]
  simp only [List.mem_append, List.mem_cons, or_left_comm]

theorem places_nested (tag ns : Value) (attributes : Held Entries)
    (hkids : s.heldItems? children = some (xs ++ w :: ys)) :
    s.Places (.node ⟨.element tag ns attributes bound modifiers, children⟩ added) w
      (s.treedItems bound ++ s.treedItems modifiers ++ (xs ++ ys)) Present 1 := by
  obtain ⟨wrap, hwrap, hitems⟩ := items_middle hkids
  refine places_of (context_element hwrap (s.shown tag) .null
    (treeObject.shownEntries s s.shown attributes) (treeObject.items s s.tree s.shown bound)
    (treeObject.items s s.tree s.shown modifiers) (xs.map s.tree) (ys.map s.tree)) rfl (fun p => ?_)
    fun tree hrest => ?_
  · rw [treed, treedItems_of_heldItems? hkids]
    simp only [List.mem_append, List.mem_cons]
    tauto
  · simp only [List.forall_mem_append] at hrest
    simp only [treeObject, hitems tree _ (List.forall_mem_append.2 hrest.2),
      treeObject_items_congr (fun _ _ => rfl) hrest.1.1 (fun _ _ => rfl),
      treeObject_items_congr (fun _ _ => rfl) hrest.1.2 (fun _ _ => rfl)]

theorem places_bound (tag ns : Value) (attributes : Held Entries)
    (hws : s.heldItems? bound = some (xs ++ w :: ys)) :
    s.Places (.node ⟨.element tag ns attributes bound modifiers, children⟩ added) w
      (xs ++ ys ++ s.treedItems modifiers ++ s.treedItems children) IsAttribute 0 := by
  obtain ⟨wrap, hwrap, hitems⟩ := items_middle hws
  refine places_of (context_bound hwrap (s.shown tag) .null
    (treeObject.shownEntries s s.shown attributes) (treeObject.items s s.tree s.shown modifiers)
    (treeObject.items s s.tree s.shown children) (xs.map s.tree) (ys.map s.tree)) rfl (fun p => ?_)
    fun tree hrest => ?_
  · rw [treed, treedItems_of_heldItems? hws]
    simp only [List.mem_append, List.mem_cons]
    tauto
  · simp only [List.forall_mem_append] at hrest
    simp only [treeObject, hitems tree _ (List.forall_mem_append.2 hrest.1.1),
      treeObject_items_congr (fun _ _ => rfl) hrest.1.2 (fun _ _ => rfl),
      treeObject_items_congr (fun _ _ => rfl) hrest.2 (fun _ _ => rfl)]

theorem places_morph (s : Store) (w parent : Value) :
    s.Places (.node ⟨.placeholder w parent, children⟩ added) w [] Present 0 :=
  places_of (context_placeholder .null .null) rfl (by simp [treed]) fun _ _ => rfl

theorem places_primary (s : Store) (call : HelperCall) (w alternate : Value) :
    s.Places (.morph (.block call w alternate) added) w (alternate :: s.treedCall call) Present 1 := by
  refine places_of (context_primary (s.shown call.name)
    (treeObject.items s s.tree s.shown call.params) (treeObject.entries s s.tree s.shown call.hash)
    (s.tree alternate)) rfl (by simp [treed]) fun tree hrest => ?_
  rw [List.forall_mem_cons] at hrest
  obtain ⟨-, hparams, hhash⟩ := treeObject_call_congr (t := s) (fun _ _ => rfl) hrest.2
    fun p _ => rfl (a := s.shown p)
  simp only [treeObject, hparams, hhash, hrest.1]

theorem places_alternate (s : Store) (call : HelperCall) (primary w : Value) :
    s.Places (.morph (.block call primary w) added) w (primary :: s.treedCall call) Present 1 := by
  refine places_of (context_alternate (s.shown call.name)
    (treeObject.items s s.tree s.shown call.params) (treeObject.entries s s.tree s.shown call.hash)
    (s.tree primary)) rfl (by simp [treed, or_left_comm]) fun tree hrest => ?_
  rw [List.forall_mem_cons] at hrest
  obtain ⟨-, hparams, hhash⟩ := treeObject_call_congr (t := s) (fun _ _ => rfl) hrest.2
    fun p _ => rfl (a := s.shown p)
  simp only [treeObject, hparams, hhash, hrest.1]

theorem Places.mem_passed (h : s.Places o w rest kind j) : w ∈ s.passed o :=
  List.mem_append_left _ ((h.mem w).2 (.inl rfl))

theorem Places.context (h : s.Places o w rest kind j) (ho : s.object? id = some o)
    (hfinite : s.Finite (.object id)) :
    ∃ F, Context kind F j ∧ s.tree (.object id) = F (s.tree w) := by
  obtain ⟨F, hF, heq⟩ := h.frames
  exact ⟨F, hF, (hfinite.tree_object ho h.isPart).trans
    (heq s s.tree s.shown (fun _ _ => rfl) (fun _ _ => rfl) fun _ _ => rfl)⟩

/-- What an object holds has its place. -/
theorem Holds.places (h : s.Holds id j w) :
    ∃ o rest, s.object? id = some o ∧ s.Places o w rest Present j := by
  cases h with
  | child ho hkids hw =>
    obtain ⟨xs, ys, rfl⟩ := List.append_of_mem hw
    exact ⟨_, _, ho, places_child hkids⟩
  | nested ho hkids hw =>
    obtain ⟨xs, ys, rfl⟩ := List.append_of_mem hw
    exact ⟨_, _, ho, places_nested _ _ _ hkids⟩
  | morph ho => exact ⟨_, _, ho, places_morph s _ _⟩
  | primary ho => exact ⟨_, _, ho, places_primary s _ _ _⟩
  | alternate ho => exact ⟨_, _, ho, places_alternate s _ _ _⟩

theorem Binds.places (h : s.Binds id w) : (s.asAttribute? w).isSome ∧
      ∃ o rest, s.object? id = some o ∧ s.Places o w rest IsAttribute 0 := by
  obtain ⟨tag, ns, attributes, bound, modifiers, children, added, ws, ho, hws, hw, hattribute⟩ := h
  obtain ⟨xs, ys, rfl⟩ := List.append_of_mem hw
  exact ⟨hattribute, _, _, ho, places_bound tag ns attributes hws⟩

end Places

theorem Finite.isAttribute_tree (h : s.Finite w) (hw : (s.asAttribute? w).isSome) :
    (s.tree w).IsAttribute := by
  unfold asAttribute? at hw
  split at hw
  · next hv =>
    obtain ⟨rfl, ho⟩ := asObject?_eq_some hv
    rw [h.tree_object ho rfl]
    exact ⟨_, _, _, rfl⟩
  · cases hw

/-- **Whatever is reached has a place in the tree**, as many steps deeper as it stands. -/
theorem Reaches.context (h : s.Reaches v k w) (hfinite : s.Finite v) (hv : s.isPrinted v = true) :
    ∃ kind F, Context kind F k ∧ kind (s.tree w) ∧ s.tree v = F (s.tree w) := by
  induction h with
  | here v => exact ⟨_, _, context_id, hfinite.tree_ne_null hv, rfl⟩
  | bound hw =>
    obtain ⟨hattribute, o, rest, ho, hplace⟩ := hw.places
    obtain ⟨F, hF, heq⟩ := hplace.context ho hfinite
    exact ⟨_, F, hF, (hfinite.of_mem ho hplace.mem_passed).isAttribute_tree hattribute, heq⟩
  | step hw hprinted _ ih =>
    obtain ⟨o, rest, ho, hplace⟩ := hw.places
    obtain ⟨F, hF, heq⟩ := hplace.context ho hfinite
    obtain ⟨kind, G, hG, hkind, heq'⟩ := ih (hfinite.of_mem ho hplace.mem_passed) hprinted
    exact ⟨kind, F ∘ G, hF.comp hG, hkind, by rw [heq, heq', Function.comp_apply]⟩

theorem Holds.isPrinted {id : ObjectId} (h : s.Holds id j w) : s.isPrinted (.object id) = true := by
  cases h <;> rw [Store.isPrinted, asObject?_of_object? ‹_›]

/-- Something is reached from nodes and morphs only, and otherwise from where one is. -/
theorem Reaches.isPrinted_or_eq (h : s.Reaches v k w) : s.isPrinted v = true ∨ k = 0 ∧ w = v := by
  cases h with
  | here => exact .inr ⟨rfl, rfl⟩
  | bound hw =>
    obtain ⟨_, _, _, _, _, _, _, _, ho, -⟩ := hw
    exact .inl (by rw [Store.isPrinted, asObject?_of_object? ho])
  | step hw => exact .inl hw.isPrinted

theorem Reaches.finite (h : s.Reaches v k w) (hfinite : s.Finite v) : s.Finite w := by
  induction h with
  | here => exact hfinite
  | bound hw =>
    obtain ⟨-, o, rest, ho, hplace⟩ := hw.places
    exact hfinite.of_mem ho hplace.mem_passed
  | step hw _ _ ih =>
    obtain ⟨o, rest, ho, hplace⟩ := hw.places
    exact ih (hfinite.of_mem ho hplace.mem_passed)

/-- **Whatever is reached is printed** as a piece of the text. -/
theorem Reaches.printed (h : s.Reaches v k w) (hfinite : s.Finite v) {indent : Int}
    (htext : (s.tree v).render (.ofInt step) (.ofInt indent) = .ok text) :
    ∃ before piece after, (s.tree w).render (.ofInt step) (.ofInt (indent + step * k)) = .ok piece ∧
      text = before ++ piece ++ after := by
  rcases h.isPrinted_or_eq with hv | ⟨rfl, rfl⟩
  · obtain ⟨kind, F, hF, hkind, heq⟩ := h.context hfinite hv
    rw [heq] at htext
    obtain ⟨before, piece, after, hpiece, hwhole, -⟩ := hF.frames step indent _ text hkind htext
    exact ⟨before, piece, after, hpiece, hwhole⟩
  · exact ⟨"", text, "", by simpa using htext, by simp⟩

end Store

end TemplateRecovery
