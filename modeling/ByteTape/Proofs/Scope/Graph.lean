import Mathlib.Algebra.BigOperators.Group.List.Basic
import Mathlib.Algebra.GroupWithZero.Nat
import ByteTape.Scope.Graph
import ByteTape.Proofs.Disk
import ByteTape.Proofs.Scope.Listing
import ByteTape.Proofs.Scope.Naming

/-! # Graphs of trees

The nodes of a graph are told apart by full names and its edges by those of their two ends.
Where no name has a slash in it no two scopes have one full name. What is a child of a scope or
is imported there has its own name there too, so no macro is both and none is imported twice.
Hence nothing that is put into the graph of a tree replaces anything, whatever keeps the graph.
-/

namespace ByteTape

/-- The name is not cut by a slash. -/
def Slashless (name : String) : Prop := '/' ∉ name.toList

theorem IsName.slashless {name : String} (h : IsName name) : Slashless name := by
  intro slash
  exact absurd (h.2 '/' slash) (by decide)

namespace Graph

theorem successors_put (source target kind name : String) (list : List ((String × String) × String)) :
    ((put (source, target) kind list).filter fun edge => edge.1.1 == name).map
        (fun edge => (edge.1.2, edge.2)) =
      if name = source then
        put target kind ((list.filter fun edge => edge.1.1 == name).map fun edge => (edge.1.2, edge.2))
      else (list.filter fun edge => edge.1.1 == name).map fun edge => (edge.1.2, edge.2) := by
  induction list with
  | nil => by_cases same : name = source <;> simp [put, same, Ne.symm]
  | cons edge list ih =>
      obtain ⟨⟨first, second⟩, old⟩ := edge
      by_cases same : name = source <;> by_cases here : first = name <;> by_cases there : second = target <;>
        grind [put]

instance : LawfulDirectedGraph Graph where
  nodes_empty := rfl
  successors_empty _ := rfl
  nodes_addNode _ _ _ := rfl
  successors_addNode _ _ _ _ := rfl
  nodes_addEdge _ _ _ := rfl
  successors_addEdge g source target kind name := successors_put source target kind name g.edges

end Graph

namespace DirectedGraph

open LawfulDirectedGraph

variable {G : Type} [DirectedGraph G] [LawfulDirectedGraph G]

theorem nodes_foldl_addNode (g : G) (new : List (String × List (String × String))) :
    nodes (new.foldl (fun g node => addNode g node.1 node.2) g) =
      new.foldl (fun list node => put node.1 node.2 list) (nodes g) := by
  refine (List.foldl_hom nodes ?_).symm
  exact fun g node => (nodes_addNode g node.1 node.2).symm

theorem successors_foldl_addNode (g : G) (new : List (String × List (String × String)))
    (source : String) :
    successors (new.foldl (fun g node => addNode g node.1 node.2) g) source = successors g source := by
  induction new generalizing g with
  | nil => rfl
  | cons node new ih => rw [List.foldl_cons, ih, successors_addNode]

theorem nodes_foldl_addEdge (g : G) (new : List ((String × String) × String))
    (ends : ∀ edge ∈ new, edge.1.1 ∈ (nodes g).map Prod.fst ∧ edge.1.2 ∈ (nodes g).map Prod.fst) :
    nodes (new.foldl (fun g edge => addEdge g edge.1.1 edge.1.2 edge.2) g) = nodes g := by
  induction new generalizing g with
  | nil => rfl
  | cons edge new ih =>
      obtain ⟨⟨begins, stops⟩, ends⟩ := List.forall_mem_cons.mp ends
      have kept := nodes_addEdge begins stops edge.2
      rw [List.foldl_cons, ih _ (kept.symm ▸ ends), kept]

theorem successors_foldl_addEdge (g : G) (new : List ((String × String) × String)) (source : String) :
    successors (new.foldl (fun g edge => addEdge g edge.1.1 edge.1.2 edge.2) g) source =
      (new.filter fun edge => edge.1.1 == source).foldl (fun list edge => put edge.1.2 edge.2 list)
        (successors g source) := by
  induction new generalizing g with
  | nil => rfl
  | cons edge new ih =>
      rw [List.foldl_cons, ih, successors_addEdge]
      by_cases same : source = edge.1.1
      · simp [same]
      · simp [same, Ne.symm same]

/-- The graph with these nodes and these edges. -/
def ofLists (listed : List (String × List (String × String))) (joined : List ((String × String) × String)) :
    G :=
  joined.foldl (fun g edge => addEdge g edge.1.1 edge.1.2 edge.2)
    (listed.foldl (fun g node => addNode g node.1 node.2) empty)

section

variable {listed : List (String × List (String × String))} {joined : List ((String × String) × String)}

theorem nodes_ofLists (distinct : (listed.map Prod.fst).Nodup)
    (ends : ∀ edge ∈ joined, edge.1.1 ∈ listed.map Prod.fst ∧ edge.1.2 ∈ listed.map Prod.fst) :
    nodes (ofLists listed joined : G) = listed := by
  have start : nodes (listed.foldl (fun g node => addNode g node.1 node.2) (empty : G)) = listed := by
    rw [nodes_foldl_addNode, nodes_empty]
    exact foldl_put distinct
  rw [ofLists, nodes_foldl_addEdge _ _ (start.symm ▸ ends), start]

theorem successors_ofLists (distinct : (joined.map Prod.fst).Nodup) (source : String) :
    successors (ofLists listed joined : G) source =
      (joined.filter fun edge => edge.1.1 == source).map fun edge => (edge.1.2, edge.2) := by
  rw [ofLists, successors_foldl_addEdge, successors_foldl_addNode, successors_empty,
    ← List.nil_append (List.map _ _), ← foldl_put, List.foldl_map]
  rw [List.nil_append, List.map_map]
  refine List.pairwise_map.mpr (((List.pairwise_map.mp distinct).filter _).imp_of_mem ?_)
  intro edge edge' here here' different same
  have begins := eq_of_beq (List.mem_filter.mp here).2
  have begins' := eq_of_beq (List.mem_filter.mp here').2
  exact different (Prod.ext (begins.trans begins'.symm) same)

theorem edges_ofLists (nodes : (listed.map Prod.fst).Nodup) (distinct : (joined.map Prod.fst).Nodup)
    (ends : ∀ edge ∈ joined, edge.1.1 ∈ listed.map Prod.fst ∧ edge.1.2 ∈ listed.map Prod.fst) :
    edges (ofLists listed joined : G) =
      listed.flatMap fun node => joined.filter fun edge => edge.1.1 == node.1 := by
  rw [edges, nodes_ofLists nodes ends]
  refine List.flatMap_congr fun node _ => ?_
  rw [successors_ofLists distinct, List.map_map]
  refine (List.map_congr_left fun edge there => ?_).trans (List.map_id _)
  rw [Function.comp_apply, ← eq_of_beq (List.mem_filter.mp there).2]
  rfl

end

end DirectedGraph

theorem flatMap_of_alone {α β : Type} {list : List α} {a : α} {f : α → List β} (distinct : list.Nodup)
    (there : a ∈ list) (alone : ∀ b ∈ list, b ≠ a → f b = []) : list.flatMap f = f a := by
  obtain ⟨front, back, rfl⟩ := List.append_of_mem there
  rw [List.nodup_middle, List.nodup_cons, List.mem_append, not_or] at distinct
  have before : front.flatMap f = [] := by
    refine List.flatMap_eq_nil_iff.mpr fun b here => alone b (List.mem_append_left _ here) ?_
    rintro rfl
    exact distinct.1.1 here
  have behind : back.flatMap f = [] := by
    refine List.flatMap_eq_nil_iff.mpr fun b here => ?_
    refine alone b (List.mem_append_right _ (List.mem_cons_of_mem _ here)) ?_
    rintro rfl
    exact distinct.1.2 here
  rw [List.flatMap_append, List.flatMap_cons, before, behind, List.nil_append, List.append_nil]

namespace ScopeTree

open DirectedGraph (nodes nodes_ofLists edges_ofLists ofLists)

variable {t : ScopeTree} {n m : Nat} {s : Scope} {name : String}

/-- The macro that an import leads to. -/
def goal (t : ScopeTree) (a : Alias) : Nat := (t.aliasTarget a).toOption.getD 0

/-- What has a name in the scope: its children, then its imports. -/
def links (t : ScopeTree) (s : Scope) : List (String × Nat) :=
  s.children ++ s.aliases.map fun bound => (bound.1, t.goal bound.2)

/-- A scope as a node. -/
def node (t : ScopeTree) (entry : Scope × Nat) : String × List (String × String) :=
  (t.fullName entry.2,
    [("label", entry.1.name), ("kind", entry.1.kind), ("color", color entry.1)])

/-- The children and imports of a scope as edges. -/
def edges (t : ScopeTree) (entry : Scope × Nat) : List ((String × String) × String) :=
  entry.1.children.map (fun child => ((t.fullName entry.2, t.fullName child.2), "nest")) ++
    entry.1.aliases.map fun bound => ((t.fullName entry.2, t.fullName (t.goal bound.2)), "alias")

/-- The two ends of each edge by their numbers. -/
def arcs (t : ScopeTree) : List (Nat × Nat) :=
  t.numbered.flatMap fun entry => (t.links entry.1).map fun link => (entry.2, link.2)

theorem mem_numbered_iff : (s, n) ∈ t.numbered ↔ t.scopes[n]? = some s := by
  rw [numbered, List.mem_zipIdx_iff_getElem?, Array.getElem?_toList]

theorem numbered_map_fst (t : ScopeTree) : t.numbered.map Prod.fst = t.scopes.toList :=
  List.zipIdx_map_fst ..

theorem numbered_map_snd (t : ScopeTree) : t.numbered.map Prod.snd = List.range t.size := by
  rw [numbered, List.zipIdx_map_snd, List.range_eq_range', Array.length_toList, size]

theorem numbers_distinct (t : ScopeTree) : (t.numbered.map Prod.snd).Nodup :=
  numbered_map_snd t ▸ List.nodup_range

theorem edge_begins {entry : Scope × Nat} {edge : (String × String) × String} (joined : edge ∈ t.edges entry) :
    edge.1.1 = t.fullName entry.2 := by
  obtain child | bound := List.mem_append.mp joined
  · obtain ⟨_, -, rfl⟩ := List.mem_map.mp child
    rfl
  · obtain ⟨_, -, rfl⟩ := List.mem_map.mp bound
    rfl

theorem edges_map_fst (t : ScopeTree) (entry : Scope × Nat) :
    (t.edges entry).map Prod.fst =
      (t.links entry.1).map fun link => (t.fullName entry.2, t.fullName link.2) := by
  simp [edges, links, Function.comp_def]

theorem nodes_map_fst (t : ScopeTree) :
    (t.numbered.map t.node).map Prod.fst = (List.range t.size).map t.fullName := by
  rw [← numbered_map_snd, List.map_map, List.map_map]
  rfl

theorem edges_ends (t : ScopeTree) :
    (t.numbered.flatMap t.edges).map Prod.fst =
      t.arcs.map fun arc => (t.fullName arc.1, t.fullName arc.2) := by
  simp only [arcs, List.map_flatMap, edges_map_fst, List.map_map]
  rfl

namespace Arena

theorem goal_of_mem (h : t.Arena) (here : t.scopes[n]? = some s) {a : Alias}
    (there : (name, a) ∈ s.aliases) :
    t.aliasTarget a = .ok (t.goal a) ∧ t.Imports n name (t.goal a) ∧
      ∃ p, t.Named (t.goal a) p name := by
  have bound := lookup_of_mem (h.tidy.scope here).aliases there
  obtain ⟨k, m, holder, held, above, child, named⟩ := h.imported here bound
  have found : t.aliasTarget a = .ok m :=
    aliasTarget_eq_ok_iff.mpr ⟨k, k, holder, held, position?_natCast (lt_size above), above, child⟩
  have same : t.goal a = m := by rw [goal, found]; rfl
  rw [same]
  exact ⟨found, ⟨s, a, here, bound, found⟩, some k, (h.tidy.scope here).keyed bound ▸ named⟩

theorem edgesFrom_eq (h : t.Arena) (here : t.scopes[n]? = some s) :
    t.edgesFrom s = .ok (s.children.map (fun child => (child.2, none)) ++
      s.aliases.map fun bound => (t.goal bound.2, some bound.1)) := by
  have found : (s.aliases.mapM fun bound => do return (← t.aliasTarget bound.2, some bound.1)) =
      .ok (s.aliases.map fun bound => (t.goal bound.2, some bound.1)) := by
    refine mapM_eq_ok_map fun bound there => ?_
    rw [(h.goal_of_mem here there).1]
    rfl
  unfold edgesFrom
  rw [found]
  rfl

theorem named_of_link (h : t.Arena) (here : t.scopes[n]? = some s) :
    ∀ link ∈ t.links s, ∃ p, t.Named link.2 p link.1 := by
  intro link there
  obtain child | bound := List.mem_append.mp there
  · exact ⟨_, h.named_of_child here child⟩
  · obtain ⟨entry, among, same⟩ := List.mem_map.mp bound
    rw [← same]
    exact (h.goal_of_mem here among).2.2

theorem names_distinct (h : t.Arena) (here : t.scopes[n]? = some s) :
    ((t.links s).map Prod.fst).Nodup := by
  have tidy := h.tidy.scope here
  have keys : (t.links s).map Prod.fst = s.children.map Prod.fst ++ s.aliases.map Prod.fst := by
    simp [links, Function.comp_def]
  rw [keys, List.nodup_append']
  refine ⟨tidy.children, tidy.aliases, fun name child bound => ?_⟩
  obtain ⟨⟨word, m⟩, among, rfl⟩ := List.mem_map.mp child
  obtain ⟨⟨other, a⟩, among', same⟩ := List.mem_map.mp bound
  obtain rfl : other = word := same
  obtain none | none := tidy.apart other
  · cases none.symm.trans (lookup_of_mem tidy.children among)
  · cases none.symm.trans (lookup_of_mem tidy.aliases among')

theorem links_distinct (h : t.Arena) (here : t.scopes[n]? = some s) :
    ((t.links s).map Prod.snd).Nodup := by
  refine List.pairwise_map.mpr ((List.pairwise_map.mp (h.names_distinct here)).imp_of_mem ?_)
  intro first second there there' different same
  obtain ⟨_, named⟩ := h.named_of_link here first there
  obtain ⟨_, named'⟩ := h.named_of_link here second there'
  exact different (named.unique (same ▸ named')).2

theorem arcs_distinct (h : t.Arena) : t.arcs.Nodup := by
  refine List.nodup_flatMap.mpr ⟨?_, ?_⟩
  · rintro ⟨s, n⟩ there
    have once := h.links_distinct (mem_numbered_iff.mp there)
    refine List.pairwise_map.mpr ((List.pairwise_map.mp once).imp fun different same => ?_)
    exact different (Prod.ext_iff.mp same).2
  · refine (List.pairwise_map.mp t.numbers_distinct).imp fun different arc here there => ?_
    obtain ⟨_, -, rfl⟩ := List.mem_map.mp here
    obtain ⟨_, -, same⟩ := List.mem_map.mp there
    exact different (Prod.ext_iff.mp same).1.symm

theorem arc_lt_size (h : t.Arena) : ∀ arc ∈ t.arcs, arc.1 < t.size ∧ arc.2 < t.size := by
  intro arc there
  obtain ⟨⟨s, n⟩, among, linked⟩ := List.mem_flatMap.mp there
  obtain ⟨link, among', rfl⟩ := List.mem_map.mp linked
  have here := mem_numbered_iff.mp among
  obtain ⟨_, named⟩ := h.named_of_link here link among'
  exact ⟨lt_size here, named.lt_size⟩

theorem fullName_injective (h : t.Arena) (whole : t.Every (Scope.Called Slashless)) (inside : n < t.size)
    (inside' : m < t.size) (same : t.fullName n = t.fullName m) : n = m := by
  have names {k : Nat} (inside : k < t.size) : Disk.names (t.fullName k) = t.address k :=
    Disk.names_intercalate (h.fit_of_mem_address whole inside) (h.address_ne_nil inside)
  refine h.address_injective inside inside' ?_
  rw [← names inside, same, names inside']

theorem nodes_distinct (h : t.Arena) (whole : t.Every (Scope.Called Slashless)) :
    ((t.numbered.map t.node).map Prod.fst).Nodup := by
  rw [t.nodes_map_fst]
  refine List.nodup_range.map_on fun n inside m inside' same => ?_
  exact h.fullName_injective whole (List.mem_range.mp inside) (List.mem_range.mp inside') same

theorem edge_ends (h : t.Arena) : ∀ edge ∈ t.numbered.flatMap t.edges,
    edge.1.1 ∈ (t.numbered.map t.node).map Prod.fst ∧
      edge.1.2 ∈ (t.numbered.map t.node).map Prod.fst := by
  intro edge there
  obtain ⟨arc, among, same⟩ := List.mem_map.mp (t.edges_ends ▸ List.mem_map_of_mem (f := Prod.fst) there)
  have inside := h.arc_lt_size arc among
  rw [t.nodes_map_fst, ← same]
  exact ⟨List.mem_map_of_mem (List.mem_range.mpr inside.1), List.mem_map_of_mem (List.mem_range.mpr inside.2)⟩

theorem edges_distinct (h : t.Arena) (whole : t.Every (Scope.Called Slashless)) :
    ((t.numbered.flatMap t.edges).map Prod.fst).Nodup := by
  rw [t.edges_ends]
  refine h.arcs_distinct.map_on fun arc there arc' there' same => ?_
  have inside := h.arc_lt_size arc there
  have inside' := h.arc_lt_size arc' there'
  exact Prod.ext (h.fullName_injective whole inside.1 inside'.1 (Prod.ext_iff.mp same).1)
    (h.fullName_injective whole inside.2 inside'.2 (Prod.ext_iff.mp same).2)

theorem filter_edges (h : t.Arena) (whole : t.Every (Scope.Called Slashless)) {entry : Scope × Nat}
    (there : entry ∈ t.numbered) :
    (t.numbered.flatMap t.edges).filter (fun edge => edge.1.1 == t.fullName entry.2) = t.edges entry := by
  rw [List.filter_flatMap, flatMap_of_alone (.of_map _ t.numbers_distinct) there, List.filter_eq_self]
  · exact fun edge joined => beq_of_eq (edge_begins joined)
  · intro other there' different
    rw [List.filter_eq_nil_iff]
    intro edge joined same
    rw [edge_begins joined, beq_iff_eq] at same
    have number := h.fullName_injective whole (lt_size (mem_numbered_iff.mp there'))
      (lt_size (mem_numbered_iff.mp there)) same
    have scope := (mem_numbered_iff.mp there').symm.trans (number ▸ mem_numbered_iff.mp there)
    exact different (Prod.ext (Option.some.inj scope) number)

theorem graph_eq (h : t.Arena) (G : Type) [DirectedGraph G] :
    t.graph G = .ok (DirectedGraph.ofLists (t.numbered.map t.node) (t.numbered.flatMap t.edges)) := by
  unfold DirectedGraph.ofLists
  rw [List.foldl_map, List.foldl_flatMap]
  -- no import fails to lead anywhere, so the fold is one that cannot fail
  refine foldlM_eq_ok_foldl (fun entry there g => ?_) _
  obtain ⟨s, n⟩ := entry
  dsimp only
  rw [h.edgesFrom_eq (mem_numbered_iff.mp there)]
  change Except.ok (List.foldl _ g _) = _
  simp only [ScopeTree.edges, List.foldl_append, List.foldl_map]
  rfl

theorem children_distinct (h : t.Arena) :
    (t.numbered.flatMap fun entry => entry.1.children.map Prod.snd).Nodup := by
  refine List.nodup_flatMap.mpr ⟨?_, ?_⟩
  · rintro ⟨s, n⟩ there
    have distinct := h.links_distinct (mem_numbered_iff.mp there)
    rw [links, List.map_append] at distinct
    exact (List.nodup_append.mp distinct).1
  · refine (List.pairwise_map.mp t.numbers_distinct).imp_of_mem ?_
    intro a b left right different m below below'
    obtain ⟨child, among, rfl⟩ := List.mem_map.mp below
    obtain ⟨child', among', same⟩ := List.mem_map.mp below'
    have first := h.named_of_child (mem_numbered_iff.mp left) among
    have second := h.named_of_child (mem_numbered_iff.mp right) among'
    exact different (Int.ofNat.inj (Option.some.inj (first.unique (same ▸ second)).1))

theorem children_perm (h : t.Arena) :
    (t.numbered.flatMap fun entry => entry.1.children.map Prod.snd).Perm
      ((t.numbered.filter fun entry => entry.1.isMacro).map Prod.snd) := by
  have macros := t.numbers_distinct.sublist
    ((List.filter_sublist (p := fun entry : Scope × Nat => entry.1.isMacro)).map Prod.snd)
  rw [List.perm_ext_iff_of_nodup h.children_distinct macros]
  intro m
  simp only [List.mem_flatMap, List.mem_map (f := Prod.snd), List.mem_filter]
  constructor
  · rintro ⟨⟨s, n⟩, there, child, among, rfl⟩
    obtain ⟨s', here, parent, -⟩ := h.named_of_child (mem_numbered_iff.mp there) among
    exact ⟨(s', child.2), ⟨mem_numbered_iff.mpr here, by rw [Scope.isMacro, parent]; rfl⟩, rfl⟩
  · rintro ⟨⟨s, _⟩, ⟨there, kind⟩, rfl⟩
    have here := mem_numbered_iff.mp there
    obtain ⟨i, parent⟩ := Option.isSome_iff_exists.mp kind
    obtain ⟨k, rfl⟩ := Int.eq_ofNat_of_zero_le (h.parent here parent).1
    obtain ⟨s', above, -, child⟩ := h.nests_iff.mpr ⟨s, here, parent, rfl⟩
    exact ⟨(s', k), mem_numbered_iff.mpr above, _, mem_of_lookup child, rfl⟩

theorem length_edges (h : t.Arena) :
    (t.numbered.flatMap t.edges).length =
      t.scopes.toList.countP Scope.isMacro + (t.scopes.toList.map fun s => s.aliases.length).sum := by
  have macros := h.children_perm.length_eq
  rw [List.length_flatMap, List.length_map, ← List.countP_eq_length_filter] at macros
  rw [← t.numbered_map_fst, List.countP_map, List.map_map, List.length_flatMap]
  simp only [Function.comp_def]
  rw [← macros, ← List.sum_map_add]
  simp [edges]

theorem mem_edges_iff (h : t.Arena) {edge : (String × String) × String} :
    edge ∈ t.numbered.flatMap t.edges ↔ ∃ n m name,
      edge = ((t.fullName n, t.fullName m), "nest") ∧ t.Nests n name m ∨
        edge = ((t.fullName n, t.fullName m), "alias") ∧ t.Imports n name m := by
  rw [List.mem_flatMap]
  constructor
  · rintro ⟨⟨s, n⟩, there, joined⟩
    have here := mem_numbered_iff.mp there
    obtain joined | joined := List.mem_append.mp joined
    · obtain ⟨child, among, rfl⟩ := List.mem_map.mp joined
      exact ⟨n, child.2, child.1, .inl ⟨rfl, h.nests_iff.mpr (h.named_of_child here among)⟩⟩
    · obtain ⟨bound, among, rfl⟩ := List.mem_map.mp joined
      exact ⟨n, t.goal bound.2, bound.1, .inr ⟨rfl, (h.goal_of_mem here among).2.1⟩⟩
  · rintro ⟨n, m, name, ⟨rfl, s, here, -, child⟩ | ⟨rfl, s, a, here, bound, found⟩⟩
    · exact ⟨(s, n), mem_numbered_iff.mpr here,
        List.mem_append_left _ (List.mem_map.mpr ⟨_, mem_of_lookup child, rfl⟩)⟩
    · have among := mem_of_lookup bound
      obtain rfl : t.goal a = m := Except.ok.inj ((h.goal_of_mem here among).1.symm.trans found)
      exact ⟨(s, n), mem_numbered_iff.mpr here,
        List.mem_append_right _ (List.mem_map.mpr ⟨_, among, rfl⟩)⟩

end Arena

/-- Trees that come from loading texts under roots that have no slash in their names. -/
inductive Unslashed : ScopeTree → Prop where
  | empty : Unslashed .empty
  | load {t : ScopeTree} (before : Unslashed t) (dialect : Dialect) {root : String}
    (whole : Slashless root) (source : Source) : Unslashed (t.load dialect root source).1

namespace Unslashed

theorem fits (h : t.Unslashed) : t.Arena := by
  induction h with
  | empty => exact .empty
  | load _ _ _ _ ih => exact ih.load

theorem every (h : t.Unslashed) : t.Every (Scope.Called Slashless) := by
  induction h with
  | empty => exact .empty
  | load _ dialect whole source ih => exact called_load IsName.slashless ih dialect whole source

/-- The graph has one node for each scope and one edge for each child and for each import, and
none of them is merged with another. -/
theorem graph_faithful (h : t.Unslashed) (G : Type) [DirectedGraph G] [LawfulDirectedGraph G] :
    ∃ g : G, t.graph G = .ok g ∧ nodes g = t.numbered.map t.node ∧ ((nodes g).map Prod.fst).Nodup ∧
      ((DirectedGraph.edges g).map Prod.fst).Nodup ∧
      (DirectedGraph.edges g).length =
        t.scopes.toList.countP Scope.isMacro + (t.scopes.toList.map fun s => s.aliases.length).sum ∧
      ∀ edge, edge ∈ DirectedGraph.edges g ↔ ∃ n m name,
        edge = ((t.fullName n, t.fullName m), "nest") ∧ t.Nests n name m ∨
          edge = ((t.fullName n, t.fullName m), "alias") ∧ t.Imports n name m := by
  have arena := h.fits
  have distinct := arena.nodes_distinct h.every
  have nodes := nodes_ofLists (G := G) distinct arena.edge_ends
  have edges : DirectedGraph.edges (ofLists (t.numbered.map t.node) (t.numbered.flatMap t.edges) : G) =
      t.numbered.flatMap t.edges := by
    rw [edges_ofLists distinct (arena.edges_distinct h.every) arena.edge_ends, List.flatMap_map]
    exact List.flatMap_congr fun entry there => arena.filter_edges h.every there
  refine ⟨_, arena.graph_eq G, nodes, ?_⟩
  rw [nodes, edges]
  exact ⟨distinct, arena.edges_distinct h.every, arena.length_edges, fun _ => arena.mem_edges_iff⟩

end Unslashed

/-- A text with a macro that imports itself and another that imports what is inside the first. -/
def selfish : Source := ⟨"m", ":a\x7buse #^a :b\x7b\x7d\x7d:c\x7buse #^a/b\x7d"⟩

/-- What it is loaded into. -/
def selfishTree : ScopeTree where
  scopes := #[⟨0, "main", none, none, [("a", 1), ("c", 3)], [], some []⟩,
    ⟨1, "a", some 0, some ⟨"m", 1, 1⟩, [("b", 2)], [("a", ⟨some 0, "a", ⟨"m", 1, 4⟩⟩)], some []⟩,
    ⟨2, "b", some 1, some ⟨"m", 1, 12⟩, [], [], some []⟩,
    ⟨3, "c", some 0, some ⟨"m", 1, 17⟩, [], [("b", ⟨some 1, "b", ⟨"m", 1, 20⟩⟩)], some []⟩]
  roots := [("main", 0)]

private theorem selfish_loaded : (ScopeTree.empty.load .extended "main" selfish).1 = selfishTree := by
  decide +kernel

theorem Unslashed.graph_faithful_selfish :
    selfishTree.Unslashed ∧ ∃ g, selfishTree.graph Graph = .ok g ∧
      g.nodes.map Prod.fst = ["main", "main/a", "main/a/b", "main/c"] ∧
      (DirectedGraph.edges g).length = 5 ∧ (("main/a", "main/a"), "alias") ∈ DirectedGraph.edges g ∧
      (("main/a", "main/a/b"), "nest") ∈ DirectedGraph.edges g ∧
      (("main/c", "main/a/b"), "alias") ∈ DirectedGraph.edges g ∧
      ((DirectedGraph.edges g).map Prod.fst).Nodup := by
  have unslashed : selfishTree.Unslashed := by
    rw [← selfish_loaded]
    exact .load .empty .extended (show '/' ∉ "main".toList by decide) selfish
  obtain ⟨g, made, nodes, -, edges, length, joined⟩ := unslashed.graph_faithful Graph
  refine ⟨unslashed, g, made, ?_, length, ?_, ?_, ?_, edges⟩
  · change (DirectedGraph.nodes g).map Prod.fst = _
    rw [nodes]
    decide +kernel
  · exact (joined _).mpr ⟨1, 1, "a", .inr ⟨by decide +kernel, _, _, rfl, rfl, rfl⟩⟩
  · exact (joined _).mpr ⟨1, 2, "b", .inl ⟨by decide +kernel, _, rfl, rfl, rfl⟩⟩
  · exact (joined _).mpr ⟨3, 2, "b", .inr ⟨by decide +kernel, _, _, rfl, rfl, rfl⟩⟩

end ScopeTree

end ByteTape
