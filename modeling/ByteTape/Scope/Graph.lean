import ByteTape.Keyed
import ByteTape.Scope.Outline

/-! # Scopes as graphs

The tree as a graph whose nodes are full names, and as a drawing with one
cluster for each root. Whatever keeps nodes by their names and edges by the names
of their ends can be the graph.
-/

namespace ByteTape

/-- A kind of directed graphs whose nodes are told apart by their names. -/
class DirectedGraph (G : Type) where
  empty : G
  addNode (g : G) (name : String) (about : List (String × String)) : G
  addEdge (g : G) (source target kind : String) : G
  /-- Each node with what is said about it. -/
  nodes (g : G) : List (String × List (String × String))
  /-- Where the edges from a node lead, with their kinds. -/
  successors (g : G) (source : String) : List (String × String)

namespace DirectedGraph

variable {G : Type} [DirectedGraph G]

/-- All edges by their two ends, with their kinds, in the order of the nodes. -/
def edges (g : G) : List ((String × String) × String) :=
  (nodes g).flatMap fun node => (successors g node.1).map fun edge => ((node.1, edge.1), edge.2)

end DirectedGraph

open DirectedGraph in
/-- There is one entry for each name and one for each ordered pair of names, and what is
written later replaces what was there. An edge between nodes adds no node. -/
class LawfulDirectedGraph (G : Type) [DirectedGraph G] : Prop where
  nodes_empty : nodes (empty : G) = []
  successors_empty (source : String) : successors (empty : G) source = []
  nodes_addNode (g : G) (name : String) (about : List (String × String)) :
    nodes (addNode g name about) = put name about (nodes g)
  successors_addNode (g : G) (name : String) (about : List (String × String)) (source : String) :
    successors (addNode g name about) source = successors g source
  nodes_addEdge {g : G} {source target : String} (begins : source ∈ (nodes g).map Prod.fst)
    (ends : target ∈ (nodes g).map Prod.fst) (kind : String) :
    nodes (addEdge g source target kind) = nodes g
  successors_addEdge (g : G) (source target kind name : String) :
    successors (addEdge g source target kind) name =
      if name = source then put target kind (successors g name) else successors g name

/-- A graph as the list of its nodes and that of its edges. -/
structure Graph where
  nodes : List (String × List (String × String))
  /-- Each edge by its two ends, with its kind. -/
  edges : List ((String × String) × String)

instance : DirectedGraph Graph where
  empty := ⟨[], []⟩
  addNode g name about := { g with nodes := put name about g.nodes }
  addEdge g source target kind := { g with edges := put (source, target) kind g.edges }
  nodes := Graph.nodes
  successors g source :=
    (g.edges.filter fun edge => edge.1.1 == source).map fun edge => (edge.1.2, edge.2)

/-- A part of a drawing: its name, and what is said about it. -/
structure Figure where
  name : String
  about : List (String × String)

/-- A drawing of a tree. -/
structure Drawing where
  name : String
  about : List (String × String)
  clusters : List (Figure × List Figure)
  edges : List (String × String × List (String × String))

namespace ScopeTree

/-- The colour of a scope. -/
def color (s : Scope) : String := if s.isMacro then "#8BC34A" else "#90CAF9"

/-- All scopes with their numbers. -/
def numbered (t : ScopeTree) : List (Scope × Nat) := t.scopes.toList.zipIdx

/-- The edges that leave a scope, with their kinds: its children, then its imports. -/
def edgesFrom (t : ScopeTree) (s : Scope) : Except ScopeError (List (Nat × Option String)) := do
  let aliases ← s.aliases.mapM fun (name, a) => return (← t.aliasTarget a, some name)
  return s.children.map (fun child => (child.2, none)) ++ aliases

open DirectedGraph in
/-- The graph of nesting and imports. -/
def graph (G : Type) [DirectedGraph G] (t : ScopeTree) : Except ScopeError G := do
  let nodes := t.numbered.foldl (fun g (s, n) =>
    addNode g (t.fullName n) [("label", s.name), ("kind", s.kind), ("color", color s)]) DirectedGraph.empty
  t.numbered.foldlM (fun g (s, n) => do
    let edges ← t.edgesFrom s
    return edges.foldl (fun g (target, use) =>
      addEdge g (t.fullName n) (t.fullName target) (if use.isSome then "alias" else "nest")) g) nodes

/-- What a scope is called in a drawing. -/
def figureName (n : Nat) : String := s!"scope_{n}"

/-- A scope in a drawing. -/
def figure (s : Scope) (n : Nat) : Figure :=
  ⟨figureName n, [("label", s.name), ("shape", if s.isMacro then "box" else "folder"),
    ("style", "filled"), ("fillcolor", color s), ("fontname", "Helvetica")]⟩

/-- The cluster of a root. -/
def cluster (t : ScopeTree) (name : String) (root : Nat) : Figure × List Figure :=
  (⟨s!"cluster_cluster_{name}", [("label", name), ("color", "#7f8c8d"), ("fontname", "Helvetica"),
    ("fontsize", "10"), ("style", "rounded")]⟩,
   (t.below root).filterMap fun n => t.scopes[n]?.map fun s => figure s n)

/-- The drawing of a tree. -/
def drawing (t : ScopeTree) : Except ScopeError Drawing := do
  let edges ← t.numbered.mapM fun (s, n) => do
    let edges ← t.edgesFrom s
    return edges.map fun (target, use) =>
      (figureName n, figureName target,
        match use with
        | none => []
        | some name => [("label", s!"use {name}"), ("style", "dashed"), ("color", "#7f8c8d")])
  return ⟨"macrotape_scopes", [("rankdir", "LR"), ("fontname", "Helvetica")],
    t.roots.map fun (name, root) => t.cluster name root, edges.flatten⟩

end ScopeTree

end ByteTape
