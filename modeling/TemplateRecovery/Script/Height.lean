import TemplateRecovery.Script.Basic

/-!
# Heights of scripts

The height of a function bounds how deeply templates can be nested in it through the functions that
its script makes.
-/

namespace TemplateRecovery

mutual

def Term.height : Term → Nat
  | .list items => termsHeight items + 1
  | .tuple items => termsHeight items + 1
  | .map entries => entriesHeight entries + 1
  | .object fields => fieldsHeight fields + 1
  | .call _ args => termsHeight args + 1
  | .routine r => r.height + 1
  | .literal t => t.height + 1
  | .path t => t.height + 1
  | .concat parts => termsHeight parts + 1
  | .subexpr name params hash =>
    max name.height (max (termsHeight params) (entriesHeight hash)) + 1
  | .fragment children => termsHeight children + 1
  | .element tag ns attributes bound modifiers children =>
    max (max (max tag.height ns.height) (max (entriesHeight attributes) (termsHeight bound)))
      (max (termsHeight modifiers) (termsHeight children)) + 1
  | .text t => t.height + 1
  | .comment t => t.height + 1
  | .placeholder t => t.height + 1
  | .inline name params hash =>
    max name.height (max (termsHeight params) (entriesHeight hash)) + 1
  | .modifier name params hash =>
    max name.height (max (termsHeight params) (entriesHeight hash)) + 1
  | .attribute key value => max key.height value.height + 1
  | .content t => t.height + 1
  | .block name params hash primary alternate =>
    max (max name.height (max (termsHeight params) (entriesHeight hash)))
      (max primary.height alternate.height) + 1
  | _ => 1

def Step.height : Step → Nat
  | .mk _ _ args => termsHeight args + 1

def Routine.height : Routine → Nat
  | .mk _ steps result => max (stepsHeight steps) result.height + 1

def termsHeight : List Term → Nat
  | [] => 0
  | t :: rest => max t.height (termsHeight rest)

def entriesHeight : List (Term × Term) → Nat
  | [] => 0
  | (k, v) :: rest => max (max k.height v.height) (entriesHeight rest)

def fieldsHeight : List (String × Term) → Nat
  | [] => 0
  | (_, v) :: rest => max v.height (fieldsHeight rest)

def stepsHeight : List Step → Nat
  | [] => 0
  | s :: rest => max s.height (stepsHeight rest)

end

end TemplateRecovery
