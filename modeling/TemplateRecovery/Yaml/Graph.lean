import TemplateRecovery.Yaml.Tag

/-!
# The graph of an option file

An option file is a graph of scalars, sequences and mappings. An alias leads back to a vertex that is
already there, so one vertex can be reached in several ways, and even from itself.

* `Graph.vertex?` is the vertex with an identity.
* `Graph.add` adds a vertex and `Graph.fill` gives it its contents.
-/

namespace TemplateRecovery

namespace Yaml

abbrev VertexId := Nat

/-- What a vertex holds. -/
inductive Contents where
  | scalar (text : String)
  | sequence (items : List VertexId)
  /-- The entries of a mapping, and those of them that were merged into it if any were. -/
  | mapping (entries : List (VertexId × VertexId)) (merged : List (VertexId × VertexId))
  deriving Inhabited, Repr

/-- A scalar, a sequence or a mapping. -/
structure Vertex where
  tag : Tag
  contents : Contents
  deriving Inhabited, Repr

/-- The vertices of an option file. -/
structure Graph where
  vertices : Array Vertex := #[]
  deriving Inhabited, Repr

namespace Graph

def vertex? (g : Graph) (id : VertexId) : Option Vertex := g.vertices[id]?

def nextId (g : Graph) : VertexId := g.vertices.size

def add (g : Graph) (v : Vertex) : Graph := { g with vertices := g.vertices.push v }

def fill (g : Graph) (id : VertexId) (contents : Contents) : Graph :=
  { g with vertices := g.vertices.modify id fun v => { v with contents } }

def retag (g : Graph) (id : VertexId) (tag : Tag) : Graph :=
  { g with vertices := g.vertices.modify id fun v => { v with tag } }

def entries? (g : Graph) (id : VertexId) : Option (List (VertexId × VertexId)) :=
  match g.vertex? id with
  | some ⟨_, .mapping entries _⟩ => some entries
  | _ => none

def tag (g : Graph) (id : VertexId) : Tag := ((g.vertex? id).map Vertex.tag).getD .other

/-- The number of entries of all mappings. -/
def entryCount (g : Graph) : Nat :=
  g.vertices.foldl (fun n v =>
    match v.contents with
    | .mapping entries _ => n + entries.length
    | _ => n) 0

end Graph

end Yaml

end TemplateRecovery
