import TemplateRecovery.Script.Basic

/-!
# Programs

A program is a list of statements that are run in order on the globals of an environment. It finds
the registration surface by a chain of attributes and hands it a template.
-/

namespace TemplateRecovery

namespace Program

/-- A way to a value: attributes of what the loader answers, or of a global. -/
inductive Chain where
  /-- Calls the loader with an argument and follows attributes. -/
  | require (arg : Term) (path : List String)
  /-- Follows attributes from a global. -/
  | global (name : String) (path : List String)

/-- A statement of a program. -/
inductive Statement where
  /-- Registers a template with the surface that the chain leads to. -/
  | register (chain : Chain) (template : Term)
  /-- Registers the value of a global. -/
  | registerName (chain : Chain) (name : String)
  /-- Registers a template and exports it. -/
  | exportTemplate (chain : Chain) (template : Term)
  /-- Registers a template of an older generation. -/
  | legacy (chain : Chain) (template : Term)
  /-- Follows a chain and drops the value. -/
  | read (chain : Chain)
  /-- Gives a name to what a chain leads to. -/
  | alias (name : String) (chain : Chain)
  /-- Assigns to a global. -/
  | setName (name : String) (v : Term)
  /-- Assigns to an attribute. -/
  | setAttribute (name : String) (path : List String) (attr : String) (v : Term)
  /-- Adds to a global. -/
  | add (name : String) (v : Term)
  /-- Removes a global. -/
  | delete (name : String)
  /-- Appends to a list. -/
  | append (name : String) (v : Term)
  /-- Assigns to an item of a container. -/
  | setItem (name : String) (key v : Term)
  /-- Imports a module, which never succeeds. -/
  | importModule (name : String)
  /-- Fails. -/
  | raise (kind message : String)

end Program

/-- A program: statements in order. -/
abbrev Program := List Program.Statement

end TemplateRecovery
