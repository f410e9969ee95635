import Mathlib.Tactic
import TemplateRecovery.Render.Basic

/-!
# How a text can be refused

Printing asks every part for its text, and the first part that has none of the needed kind decides how
printing fails. The faults that can arise are few, so one statement about each layout serves every
question of the form "can printing fail like this?".

* `FailsOnly` says that a computation fails, if it does, with a fault of some kind.
* `Refuses` are the kinds that hold every fault with which a text can be refused.
* `View.Settles` says so for the texts of a view; each kind of view settles if its parts do.
* `View.settles` is about all views, with the one fault besides: a part inside itself has no end.
-/

namespace TemplateRecovery

variable {rendered : Except Fault String}

variable {α β : Type} {kind : Fault → Prop}

/-- A computation fails, if it does, with a fault of some kind. -/
def FailsOnly (kind : Fault → Prop) (x : Except Fault α) : Prop :=
  ∀ fault, x = .error fault → kind fault

theorem failsOnly_ok (a : α) : FailsOnly kind (.ok a : Except Fault α) := by
  intro fault h
  cases h

theorem failsOnly_error {fault : Fault} (h : kind fault) :
    FailsOnly kind (.error fault : Except Fault α) := by
  intro fault' h'
  cases h'
  exact h

theorem FailsOnly.bind_eq {x : Except Fault α} {f : α → Except Fault β} (hx : FailsOnly kind x)
    (hf : ∀ a, x = .ok a → FailsOnly kind (f a)) : FailsOnly kind (x >>= f) := by
  cases x with
  | ok a => exact hf a rfl
  | error fault => exact failsOnly_error (hx fault rfl)

theorem FailsOnly.bind {x : Except Fault α} {f : α → Except Fault β} (hx : FailsOnly kind x)
    (hf : ∀ a, FailsOnly kind (f a)) : FailsOnly kind (x >>= f) :=
  hx.bind_eq fun a _ => hf a

theorem FailsOnly.map {x : Except Fault α} (hx : FailsOnly kind x) (f : α → β) :
    FailsOnly kind (x.map f) := by
  cases x with
  | ok a => exact failsOnly_ok (f a)
  | error fault => exact failsOnly_error (hx fault rfl)

/-- A sequence succeeds exactly if its first step does and then its second one. -/
theorem bind_eq_ok_iff {x : Except Fault α} {f : α → Except Fault β} {b : β} :
    x >>= f = .ok b ↔ ∃ a, x = .ok a ∧ f a = .ok b := by
  constructor
  · intro h
    cases x with
    | ok a => exact ⟨a, rfl, h⟩
    | error fault => cases h
  · rintro ⟨a, rfl, h⟩
    exact h

alias ⟨bind_eq_ok, bind_ok⟩ := bind_eq_ok_iff

/-! ### Layouts -/

section Layouts

variable {x y : Except Fault String} {xs ys zs : Except Fault (List String)} {step indent : Width}
  {name : View}

theorem callOf_failsOnly (hxs : FailsOnly kind xs) (hys : FailsOnly kind ys)
    (hname : FailsOnly kind (stringOnly name)) : FailsOnly kind (callOf name xs ys) :=
  hxs.bind fun _ => hys.bind fun _ => hname.bind fun _ => failsOnly_ok _

theorem helperOf_failsOnly (hxs : FailsOnly kind xs) (hys : FailsOnly kind ys)
    (hname : FailsOnly kind (stringOnly name)) : FailsOnly kind (helperOf name xs ys) :=
  (callOf_failsOnly hxs hys hname).bind fun _ => failsOnly_ok _

theorem concatOf_failsOnly (hxs : FailsOnly kind xs) : FailsOnly kind (concatOf xs) :=
  hxs.bind fun _ => failsOnly_ok _

theorem consText_failsOnly (hx : FailsOnly kind x) (hxs : FailsOnly kind xs) :
    FailsOnly kind (consText x xs) :=
  hx.bind fun _ => hxs.bind fun _ => failsOnly_ok _

theorem consArgument_failsOnly {v : Except Fault View} (hv : FailsOnly kind (v >>= stringOnly))
    (hxs : FailsOnly kind xs) : FailsOnly kind (consArgument v xs) := by
  cases v with
  | ok a => exact hxs.bind fun _ => FailsOnly.bind hv fun _ => failsOnly_ok _
  | error fault => exact failsOnly_error (hv fault rfl)

theorem pairOf_failsOnly (hx : FailsOnly kind x) (hy : FailsOnly kind y) (mark close : String) :
    FailsOnly kind (pairOf mark close x y) :=
  hx.bind fun _ => hy.bind fun _ => failsOnly_ok _

theorem attributeOf_failsOnly {key value : View} (hnull : value = .null → ∀ cause, kind (.shape cause))
    (hkey : FailsOnly kind (stringOnly key)) (hx : FailsOnly kind x)
    (hy : value ≠ .null → FailsOnly kind y) : FailsOnly kind (attributeOf key value x y) := by
  unfold attributeOf
  split
  · exact hx.bind fun _ => failsOnly_error (hnull rfl _)
  · next hne => exact hkey.bind fun _ => (hy hne).bind fun _ => failsOnly_ok _

theorem elseOf_failsOnly {alternate : View} (hpad : FailsOnly kind indent.pad)
    (hx : alternate ≠ .null → FailsOnly kind x) : FailsOnly kind (elseOf indent alternate x) := by
  unfold elseOf
  split
  · exact failsOnly_ok _
  · next hne => exact hpad.bind fun _ => (hx hne).bind fun _ => failsOnly_ok _

theorem blockOf_failsOnly {primary alternate : View} {branch otherwise : Width → Except Fault String}
    (hnull : primary = .null → ∀ cause, kind (.shape cause)) (hname : FailsOnly kind (stringOnly name))
    (hpad : FailsOnly kind indent.pad) (hdeeper : FailsOnly kind (indent.deeper step))
    (hx : FailsOnly kind x) (hy : FailsOnly kind y)
    (hbranch : ∀ inner, indent.deeper step = .ok inner → primary ≠ .null →
      FailsOnly kind (branch inner))
    (hotherwise : ∀ inner, indent.deeper step = .ok inner → alternate ≠ .null →
      FailsOnly kind (otherwise inner)) :
    FailsOnly kind (blockOf step indent name primary alternate x y branch otherwise) := by
  unfold blockOf
  split
  · exact hx.bind fun _ => failsOnly_error (hnull rfl _)
  · next hne =>
    refine hdeeper.bind_eq fun inner hinner => hy.bind fun _ => ?_
    refine (hbranch inner hinner hne).bind fun _ => ?_
    refine (elseOf_failsOnly hpad (hotherwise inner hinner)).bind fun _ => ?_
    exact hpad.bind fun _ => hname.bind fun _ => failsOnly_ok _

theorem innerOf_failsOnly {texts : Width → Except Fault (List String)}
    (hdeeper : FailsOnly kind (indent.deeper step))
    (h : ∀ inner, indent.deeper step = .ok inner → FailsOnly kind (texts inner)) (children : View) :
    FailsOnly kind (innerOf step indent children texts) := by
  unfold innerOf
  split_ifs
  · exact hdeeper.bind_eq fun inner hinner => (h inner hinner).bind fun _ => failsOnly_ok _
  · exact failsOnly_ok _

theorem elementOf_failsOnly (hxs : FailsOnly kind xs) (hys : FailsOnly kind ys)
    (hzs : FailsOnly kind zs) (hx : FailsOnly kind x) (hpad : FailsOnly kind indent.pad)
    (hname : FailsOnly kind (stringOnly name)) : FailsOnly kind (elementOf indent name xs ys zs x) :=
  hxs.bind fun _ => hys.bind fun _ => hzs.bind fun _ => hx.bind fun _ =>
    hpad.bind fun _ => hname.bind fun _ => failsOnly_ok _

theorem textOf_failsOnly (hpad : FailsOnly kind indent.pad) (hname : FailsOnly kind (stringOnly name)) :
    FailsOnly kind (textOf indent name) :=
  hpad.bind fun _ => hname.bind fun _ => failsOnly_ok _

theorem commentOf_failsOnly (hpad : FailsOnly kind indent.pad)
    (hname : FailsOnly kind (stringOnly name)) : FailsOnly kind (commentOf indent name) :=
  hpad.bind fun _ => hname.bind fun _ => failsOnly_ok _

theorem placeholderOf_failsOnly {morph : View} (hnull : morph = .null → ∀ cause, kind (.shape cause))
    (hpad : FailsOnly kind indent.pad) (hx : FailsOnly kind x) :
    FailsOnly kind (placeholderOf indent morph x) := by
  unfold placeholderOf
  split
  · exact failsOnly_error (hnull rfl _)
  · exact hpad.bind fun _ => hx.bind fun _ => failsOnly_ok _

end Layouts

/-! ### The texts of an expression -/

namespace View

/-- The texts of an expression fail, if they do, with a fault of some kind. -/
structure Writes (kind : Fault → Prop) (v : View) : Prop where
  inline : FailsOnly kind v.inlineText
  argument : FailsOnly kind (v.argument >>= stringOnly)
  argumentPlain : FailsOnly kind v.argumentPlain
  part : FailsOnly kind v.partText

/-- All texts of a view fail, if they do, with a fault of some kind. -/
structure Settles (kind : Fault → Prop) (v : View) : Prop extends v.Writes kind where
  render : ∀ step indent, FailsOnly kind (v.render step indent)

variable {v : View}

theorem primitive_failsOnly (h : FailsOnly kind v.plain) : FailsOnly kind v.primitive := by
  unfold primitive primitiveOf
  split
  iterate 4 exact failsOnly_ok _
  exact h

theorem literalOf_failsOnly (h : FailsOnly kind v.plain) :
    FailsOnly kind (literalOf v.standalone v) := by
  unfold literalOf
  split
  · exact failsOnly_ok _
  · exact primitive_failsOnly h

theorem argument_failsOnly {x : Except Fault String} (h : FailsOnly kind x) :
    FailsOnly kind (x.map View.str >>= stringOnly) := by
  cases x with
  | ok text => exact failsOnly_ok text
  | error fault => exact failsOnly_error (h fault rfl)

/-- An expression whose texts are all the same. -/
theorem writes_of_text {x : Except Fault String} (h : FailsOnly kind x) (hinline : v.inlineText = x)
    (hargument : v.argument = x.map .str) (hplain : v.argumentPlain = x) (hpart : v.partText = x) :
    v.Writes kind := by
  refine ⟨?_, ?_, ?_, ?_⟩
  · rwa [hinline]
  · rw [hargument]
    exact argument_failsOnly h
  · rwa [hplain]
  · rwa [hpart]

theorem writes_literal (h : FailsOnly kind v.plain) : (literal v).Writes kind where
  inline := literalOf_failsOnly h
  argument := argument_failsOnly (literalOf_failsOnly h)
  argumentPlain := literalOf_failsOnly h
  part := primitive_failsOnly h

theorem writes_path (h : FailsOnly kind v.plain) (hv : FailsOnly kind (stringOnly v)) :
    (path v).Writes kind where
  inline := hv.map _
  argument := hv
  argumentPlain := h
  part := hv.map _

theorem writes_concat {parts : View} (h : FailsOnly kind (partsText parts)) :
    (concat parts).Writes kind :=
  writes_of_text (concatOf_failsOnly h) rfl rfl rfl rfl

theorem writes_subexpr {name params hash : View} (hparams : FailsOnly kind (argumentsText params))
    (hhash : FailsOnly kind (hashText hash)) (hname : FailsOnly kind (stringOnly name)) :
    (subexpr name params hash).Writes kind :=
  writes_of_text (helperOf_failsOnly hparams hhash hname) rfl rfl rfl rfl

end View

/-! ### Containers -/

section Containers

open View

variable {items : List View} {entries : List (View × View)}

theorem partItems_failsOnly (h : ∀ v ∈ items, v.Writes kind) : FailsOnly kind (partItems items) := by
  induction items with
  | nil => exact failsOnly_ok _
  | cons v rest ih =>
    rw [List.forall_mem_cons] at h
    exact consText_failsOnly h.1.part (ih h.2)

theorem argumentItems_failsOnly (h : ∀ v ∈ items, v.Writes kind) :
    FailsOnly kind (argumentItems items) := by
  induction items with
  | nil => exact failsOnly_ok _
  | cons v rest ih =>
    rw [List.forall_mem_cons] at h
    exact consArgument_failsOnly h.1.argument (ih h.2)

theorem childItems_failsOnly {step indent : Width}
    (h : ∀ v ∈ items, FailsOnly kind (v.render step indent)) :
    FailsOnly kind (childItems step indent items) := by
  induction items with
  | nil => exact failsOnly_ok _
  | cons v rest ih =>
    rw [List.forall_mem_cons] at h
    exact consText_failsOnly h.1 (ih h.2)

theorem hashItems_failsOnly (h : ∀ e ∈ entries, FailsOnly kind e.1.plain ∧ e.2.Writes kind) :
    FailsOnly kind (hashItems entries) := by
  induction entries with
  | nil => exact failsOnly_ok _
  | cons e rest ih =>
    rw [List.forall_mem_cons] at h
    exact consText_failsOnly (pairOf_failsOnly h.1.1 h.1.2.argumentPlain _ _) (ih h.2)

theorem attributeItems_failsOnly
    (h : ∀ e ∈ entries, FailsOnly kind e.1.plain ∧ FailsOnly kind e.2.plain) :
    FailsOnly kind (attributeItems entries) := by
  induction entries with
  | nil => exact failsOnly_ok _
  | cons e rest ih =>
    rw [List.forall_mem_cons] at h
    exact consText_failsOnly (pairOf_failsOnly h.1.1 h.1.2 _ _) (ih h.2)

theorem partKeys_eq (entries : List (View × View)) :
    partKeys entries = partItems (entries.map Prod.fst) := by
  induction entries with
  | nil => rfl
  | cons e rest ih => rw [List.map_cons, partItems, ← ih]; rfl

theorem argumentKeys_eq (entries : List (View × View)) :
    argumentKeys entries = argumentItems (entries.map Prod.fst) := by
  induction entries with
  | nil => rfl
  | cons e rest ih => rw [List.map_cons, argumentItems, ← ih]; rfl

theorem childKeys_eq (step indent : Width) (entries : List (View × View)) :
    childKeys step indent entries = childItems step indent (entries.map Prod.fst) := by
  induction entries with
  | nil => rfl
  | cons e rest ih => rw [List.map_cons, childItems, ← ih]; rfl

end Containers

/-! ### What may be refused -/

@[simp] theorem Fault.showing_nil (fault : Fault) : showing [] fault = fault := rfl

theorem plainOf_int (rendered : Except Fault String) (n : Int) : plainOf rendered (.int n) =
    if isSpelled n then .ok (toString n) else .error .longNumber := by
  by_cases h : isSpelled n = true <;> simp [plainOf, View.label?, Fault.written, View.repr?, h]

/-- The kinds that hold every fault with which a text can be refused. -/
class Refuses (kind : Fault → Prop) : Prop where
  wrongType : kind .wrongType
  overflow : kind .overflow
  longNumber : kind .longNumber
  noAttribute : ∀ typeName name, kind (.noAttribute typeName name)
  shape : ∀ cause, kind (.shape cause)

section Texts

variable [Refuses kind]

theorem stringOnly_failsOnly (v : View) : FailsOnly kind (stringOnly v) := by
  unfold stringOnly
  split
  · exact failsOnly_ok _
  · exact failsOnly_error Refuses.wrongType

theorem noText_failsOnly {v : View} (h : ∀ n, v = .back .part n → kind .endless) (name : String) :
    FailsOnly kind (noText name v : Except Fault α) := by
  unfold noText
  split
  · split_ifs
    · exact failsOnly_error Refuses.wrongType
    · exact failsOnly_error (Refuses.noAttribute _ _)
  · exact failsOnly_error (h _ rfl)
  · exact failsOnly_error (Refuses.noAttribute _ _)

theorem noCharacters_failsOnly (name s : String) : FailsOnly kind (noCharacters name s) := by
  unfold noCharacters
  split_ifs
  · exact failsOnly_ok _
  · exact failsOnly_error (Refuses.noAttribute _ _)

theorem written_failsOnly (v : View) : FailsOnly kind (Fault.written v) := by
  unfold Fault.written
  split
  · exact failsOnly_ok _
  · exact failsOnly_error Refuses.longNumber

theorem Width.pad_failsOnly (w : Width) : FailsOnly kind w.pad := by
  unfold pad
  split
  · split_ifs
    · exact failsOnly_error Refuses.overflow
    · exact failsOnly_ok _
  · exact failsOnly_error Refuses.wrongType

theorem Width.deeper_failsOnly (w step : Width) : FailsOnly kind (w.deeper step) := by
  refine FailsOnly.bind ?_ fun v => failsOnly_ok _
  unfold sum
  split
  iterate 3 exact failsOnly_ok _
  split
  · exact failsOnly_ok _
  · exact failsOnly_ok _
  · exact failsOnly_error Refuses.wrongType

/-! ### The texts of a view -/

namespace View

variable {v : View}

theorem Settles.plain (h : v.Settles kind) (hendless : kind .endless) : FailsOnly kind v.plain := by
  unfold View.plain plainOf
  split
  iterate 3 exact failsOnly_ok _
  · exact failsOnly_error hendless
  · split
    · exact h.render _ _
    · exact h.render _ _
    · exact written_failsOnly v

/-- A view that is no expression, no morph and no node has no texts at all. -/
theorem settles_of_label?_eq_none (hback : ∀ n, v = .back .part n → kind .endless)
    (hlabel : v.label? = none) : v.Settles kind := by
  refine ⟨⟨?_, FailsOnly.bind ?_ stringOnly_failsOnly, ?_, ?_⟩, fun step indent => ?_⟩
  · unfold inlineText
    split <;> first | cases hlabel | exact noText_failsOnly hback _
  · unfold argument
    split <;> first | cases hlabel | exact noText_failsOnly hback _
  · unfold argumentPlain
    split <;> first | cases hlabel | exact noText_failsOnly hback _
  · unfold partText
    split <;> first | cases hlabel | exact noText_failsOnly hback _
  · unfold render
    split <;> first | cases hlabel | exact noText_failsOnly hback _

/-- The printed form is the only text of a node or a morph. -/
theorem settles_of_render {label : Label} (hv : v.label? = some label)
    (hlabel : ∀ expr, label ≠ .expr expr)
    (h : ∀ step indent, FailsOnly kind (v.render step indent)) : v.Settles kind := by
  have hback : ∀ n, v = .back .part n → kind .endless := by
    rintro n rfl
    cases hv
  refine ⟨⟨?_, FailsOnly.bind ?_ stringOnly_failsOnly, ?_, ?_⟩, h⟩
  · unfold inlineText
    split <;> first | exact absurd (Option.some.inj hv).symm (hlabel _) | exact noText_failsOnly hback _
  · unfold argument
    split <;> first | exact absurd (Option.some.inj hv).symm (hlabel _) | exact noText_failsOnly hback _
  · unfold argumentPlain
    split <;> first | exact absurd (Option.some.inj hv).symm (hlabel _) | exact noText_failsOnly hback _
  · unfold partText
    split <;> first | exact absurd (Option.some.inj hv).symm (hlabel _) | exact noText_failsOnly hback _

/-- An expression has no printed form. -/
theorem render_expr_failsOnly {label : ExprKind} (h : v.label? = some (.expr label))
    (step indent : Width) : FailsOnly kind (v.render step indent) := by
  have hback : ∀ n, v = .back .part n → kind .endless := by
    rintro n rfl
    cases h
  unfold render
  split <;> first | cases h | exact noText_failsOnly hback _

theorem settles_literal (h : FailsOnly kind v.plain) : (literal v).Settles kind :=
  ⟨writes_literal h, render_expr_failsOnly rfl⟩

theorem settles_path (h : FailsOnly kind v.plain) : (path v).Settles kind :=
  ⟨writes_path h (stringOnly_failsOnly v), render_expr_failsOnly rfl⟩

theorem settles_concat {parts : View} (h : FailsOnly kind (partsText parts)) :
    (concat parts).Settles kind :=
  ⟨writes_concat h, render_expr_failsOnly rfl⟩

section Helpers

variable {params hash : View} (hparams : FailsOnly kind (argumentsText params))
  (hhash : FailsOnly kind (hashText hash)) (name : View)
include hparams hhash

theorem settles_subexpr : (subexpr name params hash).Settles kind :=
  ⟨writes_subexpr hparams hhash (stringOnly_failsOnly name), render_expr_failsOnly rfl⟩

theorem settles_inline : (inline name params hash).Settles kind :=
  settles_of_render rfl (by simp) fun _ _ =>
    helperOf_failsOnly hparams hhash (stringOnly_failsOnly name)

theorem settles_modifier : (modifier name params hash).Settles kind :=
  settles_of_render rfl (by simp) fun _ _ =>
    helperOf_failsOnly hparams hhash (stringOnly_failsOnly name)

theorem settles_block {primary alternate : View} (hname : FailsOnly kind name.plain)
    (hprimary : primary.Settles kind) (halternate : alternate.Settles kind) :
    (block name params hash primary alternate).Settles kind :=
  settles_of_render rfl (by simp) fun step indent =>
    blockOf_failsOnly (fun _ => Refuses.shape) (stringOnly_failsOnly name) indent.pad_failsOnly
      (indent.deeper_failsOnly step) hname
      (callOf_failsOnly hparams hhash (stringOnly_failsOnly name))
      (fun inner _ _ => hprimary.render step inner) fun inner _ _ => halternate.render step inner

end Helpers

theorem settles_attribute {key : View} (hkey : FailsOnly kind key.plain) (hv : v.Settles kind)
    (owner : View) : (View.attribute key v owner).Settles kind :=
  settles_of_render rfl (by simp) fun _ _ =>
    attributeOf_failsOnly (fun _ => Refuses.shape) (stringOnly_failsOnly key) hkey fun _ =>
      hv.inline

theorem settles_content (h : FailsOnly kind v.plain) : (content v).Settles kind :=
  settles_of_render rfl (by simp) fun _ _ =>
    (primitive_failsOnly h).bind fun _ => failsOnly_ok _

theorem settles_fragment (h : ∀ step indent, FailsOnly kind (childrenTexts step indent v)) :
    (fragment v).Settles kind :=
  settles_of_render rfl (by simp) fun step indent =>
    (h step indent).bind fun _ => failsOnly_ok _

theorem settles_element {attributes bound modifiers children : View}
    (hattributes : FailsOnly kind (attributesText attributes))
    (hbound : ∀ step indent, FailsOnly kind (childrenTexts step indent bound))
    (hmodifiers : ∀ step indent, FailsOnly kind (childrenTexts step indent modifiers))
    (hchildren : ∀ step indent, FailsOnly kind (childrenTexts step indent children)) (tag ns : View) :
    (element tag ns attributes bound modifiers children).Settles kind :=
  settles_of_render rfl (by simp) fun step indent =>
    elementOf_failsOnly hattributes (hbound _ _) (hmodifiers _ _)
      (innerOf_failsOnly (indent.deeper_failsOnly step) (fun inner _ => hchildren step inner) children)
      indent.pad_failsOnly (stringOnly_failsOnly tag)

theorem settles_text (contents children : View) : (View.text contents children).Settles kind :=
  settles_of_render rfl (by simp) fun _ indent =>
    textOf_failsOnly indent.pad_failsOnly (stringOnly_failsOnly contents)

theorem settles_comment (contents children : View) : (comment contents children).Settles kind :=
  settles_of_render rfl (by simp) fun _ indent =>
    commentOf_failsOnly indent.pad_failsOnly (stringOnly_failsOnly contents)

theorem settles_placeholder (h : v.Settles kind) (parent children : View) :
    (placeholder v parent children).Settles kind :=
  settles_of_render rfl (by simp) fun step indent =>
    placeholderOf_failsOnly (fun _ => Refuses.shape) indent.pad_failsOnly (h.render step indent)

end View

end Texts

/-! ### All views -/

mutual

/-- **All texts of all views** fail in no other way, if a part inside itself may have no end. -/
theorem View.settles [Refuses kind] (hend : kind .endless) (v : View) : v.Settles kind := by
  cases v with
  | literal v => exact settles_literal ((v.settles hend).plain hend)
  | path p => exact settles_path ((p.settles hend).plain hend)
  | concat parts => exact settles_concat (parts.items_failsOnly hend).1
  | subexpr name params hash =>
    exact settles_subexpr (params.items_failsOnly hend).2.1 (hash.entries_failsOnly hend).1 name
  | inline name params hash =>
    exact settles_inline (params.items_failsOnly hend).2.1 (hash.entries_failsOnly hend).1 name
  | modifier name params hash =>
    exact settles_modifier (params.items_failsOnly hend).2.1 (hash.entries_failsOnly hend).1 name
  | «attribute» key value owner =>
    exact settles_attribute ((key.settles hend).plain hend) (value.settles hend) owner
  | content v => exact settles_content ((v.settles hend).plain hend)
  | block name params hash primary alternate =>
    exact settles_block (params.items_failsOnly hend).2.1 (hash.entries_failsOnly hend).1 name
      ((name.settles hend).plain hend) (primary.settles hend) (alternate.settles hend)
  | fragment children => exact settles_fragment (children.items_failsOnly hend).2.2
  | element tag ns attributes bound modifiers children =>
    exact settles_element (attributes.entries_failsOnly hend).2 (bound.items_failsOnly hend).2.2
      (modifiers.items_failsOnly hend).2.2 (children.items_failsOnly hend).2.2 tag ns
  | text contents children => exact settles_text contents children
  | comment contents children => exact settles_comment contents children
  | placeholder morph parent children => exact settles_placeholder (morph.settles hend) parent children
  | _ => exact settles_of_label?_eq_none (fun _ _ => hend) rfl

theorem View.items_failsOnly [Refuses kind] (hend : kind .endless) (v : View) :
    FailsOnly kind (partsText v) ∧ FailsOnly kind (argumentsText v) ∧
      ∀ step indent, FailsOnly kind (childrenTexts step indent v) := by
  cases v with
  | list items | tuple items =>
    have h := View.settlesAll hend items
    have hwrites : ∀ v ∈ items, v.Writes kind := fun v hv => (h v hv).toWrites
    simp only [partsText, argumentsText, childrenTexts]
    exact ⟨partItems_failsOnly hwrites, argumentItems_failsOnly hwrites, fun step indent =>
      childItems_failsOnly fun v hv => (h v hv).render step indent⟩
  | map entries =>
    have h := List.forall_mem_map.2 fun e he => (View.settlesPairs hend entries e he).1
    have hwrites : ∀ v ∈ entries.map Prod.fst, v.Writes kind := fun v hv => (h v hv).toWrites
    simp only [partsText, argumentsText, childrenTexts, partKeys_eq, argumentKeys_eq, childKeys_eq]
    exact ⟨partItems_failsOnly hwrites, argumentItems_failsOnly hwrites, fun step indent =>
      childItems_failsOnly fun v hv => (h v hv).render step indent⟩
  | str s =>
    simp only [partsText, argumentsText, childrenTexts]
    exact ⟨noCharacters_failsOnly _ s, noCharacters_failsOnly _ s, fun _ _ => noCharacters_failsOnly _ s⟩
  | _ =>
    unfold partsText argumentsText childrenTexts
    exact ⟨failsOnly_error Refuses.wrongType, failsOnly_error Refuses.wrongType, fun _ _ =>
      failsOnly_error Refuses.wrongType⟩

theorem View.entries_failsOnly [Refuses kind] (hend : kind .endless) (v : View) :
    FailsOnly kind (hashText v) ∧ FailsOnly kind (attributesText v) := by
  cases v with
  | map entries =>
    have h := View.settlesPairs hend entries
    rw [hashText, attributesText]
    exact ⟨hashItems_failsOnly fun e he => ⟨(h e he).1.plain hend, (h e he).2.toWrites⟩,
      attributeItems_failsOnly fun e he => ⟨(h e he).1.plain hend, (h e he).2.plain hend⟩⟩
  | _ =>
    unfold hashText attributesText
    exact ⟨noText_failsOnly (fun _ _ => hend) _, noText_failsOnly (fun _ _ => hend) _⟩

theorem View.settlesAll [Refuses kind] (hend : kind .endless) (items : List View) :
    ∀ v ∈ items, v.Settles kind := by
  cases items with
  | nil => simp
  | cons v rest => exact List.forall_mem_cons.2 ⟨v.settles hend, View.settlesAll hend rest⟩

theorem View.settlesPairs [Refuses kind] (hend : kind .endless) (entries : List (View × View)) :
    ∀ e ∈ entries, e.1.Settles kind ∧ e.2.Settles kind := by
  match entries with
  | [] => simp
  | (k, v) :: rest =>
    exact List.forall_mem_cons.2 ⟨⟨k.settles hend, v.settles hend⟩, View.settlesPairs hend rest⟩

end

theorem View.plain_failsOnly [Refuses kind] (hend : kind .endless) (v : View) :
    FailsOnly kind v.plain :=
  (v.settles hend).plain hend

theorem View.rawText_failsOnly [Refuses kind] (hend : kind .endless) (v : View) :
    FailsOnly kind v.rawText := by
  cases v with
  | literal v => exact View.primitive_failsOnly (v.plain_failsOnly hend)
  | _ => unfold View.rawText; exact noText_failsOnly (fun _ _ => hend) _

end TemplateRecovery
