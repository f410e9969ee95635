import TemplateRecovery.Proofs.Recast.Arrays

/-!
# Functions that use templates of another form

A rendering function passes templates on to blocks, and a function that makes slots returns an array.
Two scripts that differ only in the form of such a template or array, a mapping or an object with
attributes, a list or a tuple, do the same in the same order. The objects that they make have the same
identities; those of another form are met by nothing but the hook that they are passed to, or by the
caller.

* `Script.Recast` are pieces of scripts that are alike but for the form of templates and arrays;
  `Routine.Recast` and `Routine.RecastSlots` are functions.
* `TemplateRel` relates templates, `FunctionRel` functions and `ArrayRel` arrays, in two stores.
* `Registers.Fits` are the registers that such scripts run with.
-/

namespace TemplateRecovery

open Act Fault Store Opcode

variable {regs : Registers}

/-! ### Evaluating arguments -/

theorem evalTerms_append (m : Machine) (regs : Registers) (ts us : List Term) :
    evalTerms m regs (ts ++ us) = evalTerms m regs ts >>= fun vs => evalTerms m regs us >>= fun ws =>
      pure (vs ++ ws) := by
  induction ts with
  | nil => simp [evalTerms]
  | cons t ts ih => simp [evalTerms, ih]

theorem evalTerms_length {m : Machine} {ts : List Term} {vs : List Value} {s t : Store}
    (h : evalTerms m regs ts s = .ok vs t) : vs.length = ts.length := by
  induction ts generalizing vs s t with
  | nil =>
    rw [evalTerms] at h
    cases h
    rfl
  | cons u us ih =>
    rw [evalTerms] at h
    obtain ⟨v, s₁, -, h⟩ := Act.ok_of_bind h
    obtain ⟨ws, s₂, hws, h⟩ := Act.ok_of_bind h
    cases h
    rw [List.length_cons, List.length_cons, ih hws]

theorem Term.eval_call_value (m : Machine) (regs : Registers) (t : Term) :
    (Term.call .value [t]).eval m regs = t.eval m regs := by
  simp [Term.eval, evalTerms, Callee.perform]

theorem Step.run_mk (m : Machine) (regs : Registers) (target : Option String) (callee : Callee)
    (args : List Term) : Step.run m regs (.mk target callee args) =
      (Term.call callee args).eval m regs >>= fun v =>
        pure (target.elim regs fun name => Assoc.set name v regs) := by
  cases target <;> simp [Step.run, Step.args, Step.callee, Step.target, Term.eval]

/-! ### Scripts -/

/-- What may be of another form in a script: the templates that it passes on, or an array. -/
inductive Spot where
  | template
  | array
  deriving DecidableEq

/-- Arguments that are evaluated without any register. -/
def Term.isConstant : Term → Bool
  | .null => true
  | .bool _ => true
  | .int _ => true
  | .float _ => true
  | .str _ => true
  | .routine _ => true
  | _ => false

/-- The arguments that are made of one other. -/
inductive Wrapper where
  | literal
  | path
  | text
  | comment
  | placeholder
  | content

/-- The argument that is made of another. -/
def Wrapper.term : Wrapper → Term → Term
  | .literal => .literal
  | .path => .path
  | .text => .text
  | .comment => .comment
  | .placeholder => .placeholder
  | .content => .content

def Wrapper.object : Wrapper → Value → Object
  | .literal, v => .expression (.literal v)
  | .path, v => .expression (.path v)
  | .text, v => .node ⟨.text v, .own []⟩ []
  | .comment, v => .node ⟨.comment v, .own []⟩ []
  | .placeholder, v => .node ⟨.placeholder v .null, .own []⟩ []
  | .content, v => .morph (.content v) []

/-- The arguments that are made of any number of others. -/
inductive Gatherer where
  | list
  | tuple
  | concat
  | fragment

/-- The argument that is made of others. -/
def Gatherer.term : Gatherer → List Term → Term
  | .list => .list
  | .tuple => .tuple
  | .concat => .concat
  | .fragment => .fragment

def Gatherer.object : Gatherer → List Value → Object
  | .list, items => .list items
  | .tuple, items => .tuple items
  | .concat, parts => .expression (.concat (.own parts))
  | .fragment, children => .node ⟨.fragment, .own children⟩ []

/-- The arguments that name a helper. -/
inductive Helper where
  | subexpr
  | inline
  | modifier

/-- The argument that names a helper with its parameters and named arguments. -/
def Helper.term : Helper → Term → List Term → List (Term × Term) → Term
  | .subexpr => .subexpr
  | .inline => .inline
  | .modifier => .modifier

def Helper.object : Helper → HelperCall → Object
  | .subexpr, c => .expression (.subexpr c)
  | .inline, c => .morph (.inline c) []
  | .modifier, c => .morph (.element c) []

/-- The entries that go by these names. -/
def namedTerms (fields : List (String × Term)) : List (Term × Term) :=
  fields.map fun (k, t) => (.str k, t)

/-- The entries that go by these names. -/
def fieldEntries (fields : Fields) : Entries := fields.map fun (k, v) => (.str k, v)

theorem findName?_fieldEntries (s : Store) (name : String) (fields : Fields) :
    s.findName? name (fieldEntries fields) = fields.lookup name := by
  rw [findName?_eq_lookup]
  induction fields with
  | nil => rfl
  | cons f rest ih =>
    have hname : (Value.str name == Value.str f.1) = (name == f.1) := by
      rw [Bool.eq_iff_iff]
      simp
    rw [fieldEntries, List.map_cons, List.lookup_cons, List.lookup_cons, ← fieldEntries, ih, hname]

/-- A new name goes to the end. -/
theorem bindEntry_name {entries : Entries} {k : String} (hk : ∀ e ∈ entries, e.1 ≠ .str k)
    (v : Value) : bindEntry entries (.str k) v = pure (entries ++ [(.str k, v)]) := by
  have hinsert : ∀ s : Store, s.insert (.str k) v entries = entries ++ [(.str k, v)] := by
    intro s
    induction entries with
    | nil => rfl
    | cons e rest ih =>
      obtain ⟨k', v'⟩ := e
      obtain ⟨hne, hrest⟩ := List.forall_mem_cons.1 hk
      rw [Store.insert, Assoc.insert, Store.sameKey_name, if_neg (by simpa using hne)]
      exact congrArg _ (ih hrest)
  funext s
  have hkey : s.isKey (.str k) = true := rfl
  unfold bindEntry
  rw [Act.bind_store, if_pos hkey, hinsert]

/-- A mapping is evaluated as an object with attributes is, if no name occurs twice. -/
theorem evalEntries_namedTerms (m : Machine) (regs : Registers) {fields : List (String × Term)}
    (hnames : (fields.map (·.1)).Nodup) {entries : Entries}
    (hnew : ∀ f ∈ fields, ∀ e ∈ entries, e.1 ≠ .str f.1) :
    evalEntries m regs (namedTerms fields) entries =
      evalFields m regs fields >>= fun values => pure (entries ++ fieldEntries values) := by
  induction fields generalizing entries with
  | nil => simp [namedTerms, evalEntries, evalFields, fieldEntries]
  | cons f rest ih =>
    obtain ⟨k, t⟩ := f
    rw [List.map_cons, List.nodup_cons] at hnames
    obtain ⟨hk, hnames⟩ := hnames
    obtain ⟨hfirst, hrest⟩ := List.forall_mem_cons.1 hnew
    have hnext : ∀ v : Value, ∀ f ∈ rest, ∀ e ∈ entries ++ [(Value.str k, v)], e.1 ≠ .str f.1 := by
      intro v f hf e he heq
      rcases List.mem_append.1 he with he | he
      · exact hrest f hf e he heq
      · rw [List.mem_singleton.1 he] at heq
        injection heq with heq
        exact hk (List.mem_map.2 ⟨f, hf, heq.symm⟩)
    rw [namedTerms, List.map_cons, ← namedTerms, evalEntries, evalFields]
    simp only [Term.eval, pure_bind, bind_assoc, bindEntry_name hfirst, ih hnames (hnext _)]
    simp [fieldEntries]

/-- The registers that calls look at. -/
def reservedNames : List String := ["dom", "context", "env", "hooks"]

namespace Script

/-- The pieces of a script. -/
inductive Piece where
  | term (t : Term)
  | terms (ts : List Term)
  | entries (es : List (Term × Term))
  | fields (fs : List (String × Term))
  /-- An argument that may be of another form. -/
  | form (t : Term)
  /-- Templates that may be of another form. -/
  | forms (ts : List Term)
  /-- The members of a template. -/
  | members (fs : List (String × Term))
  | step (step : Step)
  | steps (steps : List Step)
  /-- A rendering function. -/
  | routine (q : Routine)

/-- **Pieces of scripts that are alike but for the form of templates and arrays.** The registers that
are held hold what may be of another form; nothing looks at them but steps that hold it under another
name, blocks, and the end of a function that returns slots. -/
inductive Recast : Spot → List String → Piece → Piece → Prop
  | constant {spot : Spot} {held : List String} {t : Term} (ht : t.isConstant = true) :
      Recast spot held (.term t) (.term t)
  | register {spot : Spot} {held : List String} {name : String} (hname : name ∉ held) :
      Recast spot held (.term (.register name)) (.term (.register name))
  | documentField {spot : Spot} {held : List String} (name : String) :
      Recast spot held (.term (.documentField name)) (.term (.documentField name))
  | wrap {spot : Spot} {held : List String} (w : Wrapper) {t t' : Term}
      (h : Recast spot held (.term t) (.term t')) :
      Recast spot held (.term (w.term t)) (.term (w.term t'))
  | gather {spot : Spot} {held : List String} (g : Gatherer) {ts ts' : List Term}
      (h : Recast spot held (.terms ts) (.terms ts')) :
      Recast spot held (.term (g.term ts)) (.term (g.term ts'))
  | helper {spot : Spot} {held : List String} (k : Helper) {name name' : Term}
      {params params' : List Term} {hash hash' : List (Term × Term)}
      (hname : Recast spot held (.term name) (.term name'))
      (hparams : Recast spot held (.terms params) (.terms params'))
      (hhash : Recast spot held (.entries hash) (.entries hash')) :
      Recast spot held (.term (k.term name params hash)) (.term (k.term name' params' hash'))
  | map {spot : Spot} {held : List String} {es es' : List (Term × Term)}
      (h : Recast spot held (.entries es) (.entries es')) :
      Recast spot held (.term (.map es)) (.term (.map es'))
  | object {spot : Spot} {held : List String} {fs fs' : List (String × Term)}
      (h : Recast spot held (.fields fs) (.fields fs')) :
      Recast spot held (.term (.object fs)) (.term (.object fs'))
  | call {spot : Spot} {held : List String} (callee : Callee) {args args' : List Term}
      (h : Recast spot held (.terms args) (.terms args')) :
      Recast spot held (.term (.call callee args)) (.term (.call callee args'))
  | callBlock {held : List String} {callee : Callee} {args args' ts ts' : List Term}
      (hcallee : callee = .hook "block" ∨ callee = .hookItem "block") (hlength : args.length = 4)
      (hargs : Recast .template held (.terms args) (.terms args'))
      (hts : Recast .template held (.forms ts) (.forms ts')) :
      Recast .template held (.term (.call callee (args ++ ts))) (.term (.call callee (args' ++ ts')))
  | element {spot : Spot} {held : List String} {tag tag' ns ns' : Term}
      {attributes attributes' : List (Term × Term)}
      {bound bound' modifiers modifiers' children children' : List Term}
      (htag : Recast spot held (.term tag) (.term tag'))
      (hns : Recast spot held (.term ns) (.term ns'))
      (hattributes : Recast spot held (.entries attributes) (.entries attributes'))
      (hbound : Recast spot held (.terms bound) (.terms bound'))
      (hmodifiers : Recast spot held (.terms modifiers) (.terms modifiers'))
      (hchildren : Recast spot held (.terms children) (.terms children')) :
      Recast spot held (.term (.element tag ns attributes bound modifiers children))
        (.term (.element tag' ns' attributes' bound' modifiers' children'))
  | attribute {spot : Spot} {held : List String} {key key' value value' : Term}
      (hkey : Recast spot held (.term key) (.term key'))
      (hvalue : Recast spot held (.term value) (.term value')) :
      Recast spot held (.term (.attribute key value)) (.term (.attribute key' value'))
  | block {spot : Spot} {held : List String} {name name' : Term} {params params' : List Term}
      {hash hash' : List (Term × Term)} {primary primary' alternate alternate' : Term}
      (hname : Recast spot held (.term name) (.term name'))
      (hparams : Recast spot held (.terms params) (.terms params'))
      (hhash : Recast spot held (.entries hash) (.entries hash'))
      (hprimary : Recast spot held (.term primary) (.term primary'))
      (halternate : Recast spot held (.term alternate) (.term alternate')) :
      Recast spot held (.term (.block name params hash primary alternate))
        (.term (.block name' params' hash' primary' alternate'))
  | noTerms {spot : Spot} {held : List String} : Recast spot held (.terms []) (.terms [])
  | terms {spot : Spot} {held : List String} {t t' : Term} {ts ts' : List Term}
      (h : Recast spot held (.term t) (.term t')) (hs : Recast spot held (.terms ts) (.terms ts')) :
      Recast spot held (.terms (t :: ts)) (.terms (t' :: ts'))
  | noEntries {spot : Spot} {held : List String} : Recast spot held (.entries []) (.entries [])
  | entries {spot : Spot} {held : List String} {k k' t t' : Term} {es es' : List (Term × Term)}
      (hk : Recast spot held (.term k) (.term k')) (h : Recast spot held (.term t) (.term t'))
      (hs : Recast spot held (.entries es) (.entries es')) :
      Recast spot held (.entries ((k, t) :: es)) (.entries ((k', t') :: es'))
  | noFields {spot : Spot} {held : List String} : Recast spot held (.fields []) (.fields [])
  | fields {spot : Spot} {held : List String} (k : String) {t t' : Term}
      {fs fs' : List (String × Term)} (h : Recast spot held (.term t) (.term t'))
      (hs : Recast spot held (.fields fs) (.fields fs')) :
      Recast spot held (.fields ((k, t) :: fs)) (.fields ((k, t') :: fs'))
  | plain {spot : Spot} {held : List String} {t t' : Term}
      (h : Recast spot held (.term t) (.term t')) : Recast spot held (.form t) (.form t')
  | holder {spot : Spot} {held : List String} {name : String} (hname : name ∈ held) :
      Recast spot held (.form (.register name)) (.form (.register name))
  | value {spot : Spot} {held : List String} {t t' : Term}
      (h : Recast spot held (.form t) (.form t')) :
      Recast spot held (.form (.call .value [t])) (.form (.call .value [t']))
  | mapping {held : List String} {t t' : Term} {fs fs' : List (String × Term)}
      (hnames : (fs.map (·.1)).Nodup)
      (ht : t = .map (namedTerms fs) ∨ t = .object fs)
      (ht' : t' = .map (namedTerms fs') ∨ t' = .object fs')
      (h : Recast .template held (.members fs) (.members fs')) :
      Recast .template held (.form t) (.form t')
  | array {held : List String} {t t' : Term} {items items' : List Term}
      (ht : t = .list items ∨ t = .tuple items) (ht' : t' = .list items' ∨ t' = .tuple items')
      (h : Recast .array held (.terms items) (.terms items')) :
      Recast .array held (.form t) (.form t')
  | noForms {spot : Spot} {held : List String} : Recast spot held (.forms []) (.forms [])
  | forms {spot : Spot} {held : List String} {t t' : Term} {ts ts' : List Term}
      (h : Recast spot held (.form t) (.form t')) (hs : Recast spot held (.forms ts) (.forms ts')) :
      Recast spot held (.forms (t :: ts)) (.forms (t' :: ts'))
  | noMembers {spot : Spot} {held : List String} : Recast spot held (.members []) (.members [])
  | member {spot : Spot} {held : List String} (k : String) {t t' : Term}
      {fs fs' : List (String × Term)} (h : Recast spot held (.term t) (.term t'))
      (hs : Recast spot held (.members fs) (.members fs')) :
      Recast spot held (.members ((k, t) :: fs)) (.members ((k, t') :: fs'))
  | function {spot : Spot} {held : List String} (k : String) {q q' : Routine}
      {fs fs' : List (String × Term)} (h : Recast spot held (.routine q) (.routine q'))
      (hs : Recast spot held (.members fs) (.members fs')) :
      Recast spot held (.members ((k, .routine q) :: fs)) (.members ((k, .routine q') :: fs'))
  | step {spot : Spot} {held : List String} {target : Option String} {callee : Callee}
      {args args' : List Term} (htarget : ∀ name ∈ target, name ∉ held ∧ name ≠ "hooks")
      (h : Recast spot held (.term (.call callee args)) (.term (.call callee args'))) :
      Recast spot held (.step (.mk target callee args)) (.step (.mk target callee args'))
  | hold {spot : Spot} {held : List String} {name : String} {t t' : Term} (hname : name ∈ held)
      (h : Recast spot held (.form t) (.form t')) :
      Recast spot held (.step (.mk (some name) .value [t])) (.step (.mk (some name) .value [t']))
  | noSteps {spot : Spot} {held : List String} : Recast spot held (.steps []) (.steps [])
  | steps {spot : Spot} {held : List String} {step step' : Step} {rest rest' : List Step}
      (h : Recast spot held (.step step) (.step step'))
      (hs : Recast spot held (.steps rest) (.steps rest')) :
      Recast spot held (.steps (step :: rest)) (.steps (step' :: rest'))
  | render {spot : Spot} {outer held : List String} {steps steps' : List Step} {result result' : Term}
      (hheld : ∀ name ∈ reservedNames, name ∉ held)
      (hsteps : Recast .template held (.steps steps) (.steps steps'))
      (hresult : Recast .template held (.term result) (.term result')) :
      Recast spot outer (.routine (.mk .render steps result))
        (.routine (.mk .render steps' result'))

end Script

/-- **Rendering functions that pass templates of another form to blocks.** -/
def Routine.Recast (q q' : Routine) : Prop := Script.Recast .template [] (.routine q) (.routine q')

/-- **Functions that return slots in an array of another form.** -/
inductive Routine.RecastSlots : Routine → Routine → Prop
  | mk {held : List String} {steps steps' : List Step} {result result' : Term}
      (hheld : ∀ name ∈ reservedNames, name ∉ held)
      (hsteps : Script.Recast .array held (.steps steps) (.steps steps'))
      (hresult : Script.Recast .array held (.form result) (.form result')) :
      Routine.RecastSlots (.mk .slots steps result) (.mk .slots steps' result')

/-! ### Heights -/

theorem Term.height_pos (t : Term) : 0 < t.height := by
  cases t <;> simp [Term.height]

theorem entriesHeight_namedTerms (fields : List (String × Term)) :
    entriesHeight (namedTerms fields) = fieldsHeight fields := by
  induction fields with
  | nil => rfl
  | cons f fields ih =>
    obtain ⟨k, t⟩ := f
    have hpos := t.height_pos
    simp only [namedTerms, List.map_cons, entriesHeight, fieldsHeight] at ih ⊢
    rw [ih, show Term.height (.str k) = 1 from rfl, Nat.max_eq_right hpos]

theorem termsHeight_append (ts us : List Term) :
    termsHeight (ts ++ us) = max (termsHeight ts) (termsHeight us) := by
  induction ts with
  | nil => simp [termsHeight]
  | cons t ts ih => simp only [List.cons_append, termsHeight, ih, Nat.max_assoc]

def Script.Piece.height : Script.Piece → Nat
  | .term t => t.height
  | .terms ts => termsHeight ts
  | .entries es => entriesHeight es
  | .fields fs => fieldsHeight fs
  | .form t => t.height
  | .forms ts => termsHeight ts
  | .members fs => fieldsHeight fs
  | .step st => st.height
  | .steps sts => stepsHeight sts
  | .routine q => q.height

/-- Pieces that are alike are nested equally deep. -/
theorem Script.Recast.height_eq {spot : Spot} {held : List String} {p p' : Script.Piece}
    (h : Script.Recast spot held p p') : p'.height = p.height := by
  induction h with
  | wrap w _ ih => cases w <;> exact congrArg (· + 1) ih
  | gather g _ ih => cases g <;> exact congrArg (· + 1) ih
  | helper k _ _ _ hname hparams hhash =>
    simp only [Script.Piece.height] at hname hparams hhash
    cases k <;> simp only [Script.Piece.height, Helper.term, Term.height, hname, hparams, hhash]
  | mapping _ ht ht' _ ih =>
    simp only [Script.Piece.height] at ih
    rcases ht with rfl | rfl <;> rcases ht' with rfl | rfl <;>
      simp only [Script.Piece.height, Term.height, entriesHeight_namedTerms, ih]
  | array ht ht' _ ih =>
    simp only [Script.Piece.height] at ih
    rcases ht with rfl | rfl <;> rcases ht' with rfl | rfl <;>
      simp only [Script.Piece.height, Term.height, ih]
  | callBlock _ _ _ _ ih ih' =>
    simp only [Script.Piece.height] at ih ih'
    simp only [Script.Piece.height, Term.height, termsHeight_append, ih, ih']
  | _ =>
    simp_all only [Script.Piece.height, Term.height, termsHeight, entriesHeight, fieldsHeight,
      Step.height, stepsHeight, Routine.height]

theorem Routine.Recast.height_eq {q q' : Routine} (h : q.Recast q') : q'.height = q.height :=
  Script.Recast.height_eq h

/-! ### Related functions, templates and arrays -/

section Related

variable {r r' : Region} {s s' t t' : Store} {v v' : Value}

/-- One function inside the region, or two outside of it whose scripts belong together. -/
inductive FunctionRel (P : Routine → Routine → Prop) (r : Region) (s s' : Store) :
    Value → Value → Prop
  | same {f : Value} (hf : InRegion r f) : FunctionRel P r s s' f f
  | routines {id id' : ObjectId} {q q' : Routine} {added added' : Fields} (hid : id ∉ r)
      (hid' : id' ∉ r) (ho : s.object? id = some (.function (.routine q) added))
      (ho' : s'.object? id' = some (.function (.routine q') added')) (h : P q q') :
      FunctionRel P r s s' (.object id) (.object id')

/-- **Templates that are rendered by related functions**: one template inside the region, or two
outside of it. -/
inductive TemplateRel (r : Region) (s s' : Store) : Value → Value → Prop
  | same {v : Value} (hv : InRegion r v) : TemplateRel r s s' v v
  | apart {v v' : Value} (hv : Apart r s v) (hv' : Apart r s' v')
      (hrender : FunctionRel Routine.Recast r s s' (memberOf s "render" v)
        (memberOf s' "render" v')) : TemplateRel r s s' v v'

/-- One value inside the region, or two arrays outside of it with the same items. -/
inductive ArrayRel (r : Region) (s s' : Store) : Value → Value → Prop
  | same {v : Value} (hv : InRegion r v) : ArrayRel r s s' v v
  | apart {v v' : Value} {items : List Value} (hv : Apart r s v) (hv' : Apart r s' v')
      (hitems : s.array? v = some items) (hitems' : s'.array? v' = some items)
      (h : InRegion r items) : ArrayRel r s s' v v'

theorem FunctionRel.later {P : Routine → Routine → Prop} (h : FunctionRel P r s s' v v')
    (halike : Alike r s s') (o : Outcome r s s' r' t t' none) : FunctionRel P r' t t' v v' := by
  cases h with
  | same hf => exact .same (hf.mono o.grows)
  | routines hid hid' ho ho' h =>
    have hlt := index_lt_of_object? ho
    have hlt' := index_lt_of_object? ho'
    rw [halike.size] at hlt'
    exact .routines (o.not_mem hid hlt) (o.not_mem hid' hlt') ((o.kept _ hid hlt).trans ho)
      ((o.kept' _ hid' hlt').trans ho') h

theorem TemplateRel.later (h : TemplateRel r s s' v v') (halike : Alike r s s')
    (o : Outcome r s s' r' t t' none) : TemplateRel r' t t' v v' := by
  cases h with
  | same hv => exact .same (hv.mono o.grows)
  | apart hv hv' hrender =>
    refine .apart (hv.later o) (hv'.later' halike o) ?_
    rw [(hv.kept o).memberOf, (hv'.kept' halike o).memberOf]
    exact hrender.later halike o

theorem ArrayRel.later (h : ArrayRel r s s' v v') (halike : Alike r s s')
    (o : Outcome r s s' r' t t' none) : ArrayRel r' t t' v v' := by
  cases h with
  | same hv => exact .same (hv.mono o.grows)
  | apart hv hv' hitems hitems' h =>
    exact .apart (hv.later o) (hv'.later' halike o) ((hv.kept o).array?.trans hitems)
      ((hv'.kept' halike o).array?.trans hitems') (h.mono o.grows)

/-- What may be of another form. -/
def Spot.Rel : Spot → Region → Store → Store → Value → Value → Prop
  | .template => TemplateRel
  | .array => ArrayRel

theorem Spot.Rel.same {spot : Spot} (hv : InRegion r v) : spot.Rel r s s' v v := by
  cases spot with
  | template => exact TemplateRel.same hv
  | array => exact ArrayRel.same hv

theorem Spot.Rel.later {spot : Spot} (h : spot.Rel r s s' v v') (halike : Alike r s s')
    (o : Outcome r s s' r' t t' none) : spot.Rel r' t t' v v' := by
  cases spot with
  | template => exact TemplateRel.later h halike o
  | array => exact ArrayRel.later h halike o

/-- Two new objects that do not join the region. -/
theorem Alike.outcome_push_apart (h : Alike r s s') (hr : r.Within s) {o o' : Object}
    (hdepth : o'.depth = o.depth) : Outcome r s s' r (s.push o) (s'.push o') none where
  grows := subset_rfl
  fresh _ hid := .inl hid
  size := by simp
  alike := by
    obtain ⟨hdepths, hobject⟩ := h.push o o' hdepth
    have hne : ∀ id ∈ r, id ≠ s.next := fun id hid heq => hr.next_not_mem (heq ▸ hid)
    refine ⟨by simp [h.size], h.tag, h.registered, fun id hid => hobject id hid (hne id hid), ?_,
      hdepths⟩
    intro id hid p hp
    rw [object?_push, if_neg (hne id hid)] at hp
    exact h.closed id hid p hp
  kept id _ hlt := by
    rw [object?_push, if_neg]
    rintro rfl
    exact lt_irrefl _ hlt
  kept' id _ hlt := by
    rw [object?_push, if_neg]
    rintro rfl
    rw [h.next] at hlt
    exact lt_irrefl _ hlt
  hooks _ hid := object?_push_of_some hid o
  records := fills_of_eq rfl rfl

/-- Two new objects have the same identity, which is not in the region. -/
theorem relates_new_apart {faults : Fault → Fault → Prop}
    {results : Region → Store → Store → Value → Prop} (h : Alike r s s') (hr : r.Within s)
    {o o' : Object} (hdepth : o'.depth = o.depth)
    (hresult : s.next ∉ r → (s.push o).object? s.next = some o →
      (s'.push o').object? s.next = some o' → results r (s.push o) (s'.push o') (.object s.next)) :
    Relates faults (fun r t t' a b => b = a ∧ results r t t' a) r s s' (Act.new o) (Act.new o') := by
  have hnew : Act.new o' s' = .ok (.object s.next) (s'.push o') := by
    rw [← h.next]
    rfl
  refine relates_of_ok rfl hnew (h.outcome_push_apart hr hdepth) ⟨rfl, hresult hr.next_not_mem ?_ ?_⟩
  · rw [object?_push, if_pos rfl]
  · rw [object?_push, if_pos h.next.symm]

end Related

/-! ### Registers -/

/-- **Registers that a script can run with**: those that are held may hold something of another form,
the others and the region are as for any script, and the table of hooks is in its place. -/
structure Registers.Fits (spot : Spot) (held : List String) (r : Region) (s s' : Store)
    (regs : Registers) : Prop where
  within : r.Within s
  reserved : ∀ name ∈ reservedNames, name ∉ held
  region : ∀ name ∉ held, InRegion r (regs.value name)
  held : ∀ name ∈ held, spot.Rel r s s' (regs.value name) (regs.value name)
  hooks : spot = .template → ∃ id, regs.value "hooks" = .object id ∧ s.object? id = some .hooks

namespace Registers.Fits

variable {spot : Spot} {held : List String} {r r' : Region} {s s' t t' : Store} {regs : Registers}

theorem later (h : Fits spot held r s s' regs) (halike : Alike r s s')
    (o : Outcome r s s' r' t t' none) : Fits spot held r' t t' regs where
  within := h.within.later o
  reserved := h.reserved
  region name hname := (h.region name hname).mono o.grows
  held name hname := (h.held name hname).later halike o
  hooks hspot := by
    obtain ⟨id, hid, ho⟩ := h.hooks hspot
    exact ⟨id, hid, o.hooks id ho⟩

/-- A register that is not held takes a value inside the region. -/
theorem set (h : Fits spot held r s s' regs) {name : String} {v : Value} (hname : name ∉ held)
    (hhooks : name ≠ "hooks") (hv : InRegion r v) : Fits spot held r s s' (Assoc.set name v regs) where
  within := h.within
  reserved := h.reserved
  region x hx := by
    rw [Registers.value_set]
    split_ifs
    · exact hv
    · exact h.region x hx
  held x hx := by
    rw [Registers.value_set, if_neg]
    · exact h.held x hx
    · rintro rfl
      exact hname hx
  hooks hspot := by
    rw [Registers.value_set, if_neg (Ne.symm hhooks)]
    exact h.hooks hspot

/-- A register that is held takes something that may be of another form. -/
theorem hold (h : Fits spot held r s s' regs) {name : String} {v : Value} (hname : name ∈ held)
    (hv : spot.Rel r s s' v v) : Fits spot held r s s' (Assoc.set name v regs) where
  within := h.within
  reserved := h.reserved
  region x hx := by
    rw [Registers.value_set, if_neg]
    · exact h.region x hx
    · rintro rfl
      exact hx hname
  held x hx := by
    rw [Registers.value_set]
    split_ifs
    · exact hv
    · exact h.held x hx
  hooks hspot := by
    rw [Registers.value_set, if_neg]
    · exact h.hooks hspot
    · rintro rfl
      exact h.reserved _ (by decide) hname

end Registers.Fits

/-- Calls look at nothing but the reserved registers. -/
theorem Callee.perform_congr {regs' : Registers}
    (h : ∀ name ∈ reservedNames, regs'.value name = regs.value name) (m : Machine) (callee : Callee)
    (args : List Value) : callee.perform m regs' args = callee.perform m regs args := by
  have hdom := h "dom" (by decide)
  have hcontext := h "context" (by decide)
  have henv := h "env" (by decide)
  have hhooks := h "hooks" (by decide)
  unfold Callee.perform callHook
  rw [hdom, hcontext, henv, hhooks]

theorem Callee.perform_fits {m : Machine} (hm : m.Local) {spot : Spot} {held : List String}
    {r : Region} {s s' : Store} (h : Alike r s s') (hregs : regs.Fits spot held r s s')
    (callee : Callee) {args : List Value} (hargs : InRegion r args) :
    (callee.perform m regs args).Local r s s' := by
  have hclean : ∀ name ∈ reservedNames,
      Registers.value (reservedNames.map fun x => (x, regs.value x)) name = regs.value name := by
    simp only [reservedNames, List.mem_cons, List.not_mem_nil, or_false]
    rintro name (rfl | rfl | rfl | rfl) <;> rfl
  rw [← Callee.perform_congr hclean]
  refine callee.perform_local hm h ?_ hargs
  refine inRegion_list.2 fun e he => ?_
  obtain ⟨name, hname, rfl⟩ := List.mem_map.1 he
  exact inRegion_prod.2 ⟨inRegion_string _, hregs.region name (hregs.reserved name hname)⟩

end TemplateRecovery
