import ByteTape.Item

/-! # Scopes

Scopes form a tree that grows and never shrinks. They are numbered in the order
in which they were made, and refer to each other by number. A root has no
parent; every other scope is a macro, and the names that its body defines are
its children. An import binds a name in a scope to a macro defined elsewhere.

Numbers given from outside may be negative: they then count from the end, and a
parent given that way is kept as it was given.
-/

namespace ByteTape

/-- A name bound by an import: the macro of that name among the children of `scope`. -/
structure Alias where
  scope : Option Int
  name : String
  loc : Location
deriving DecidableEq

structure Scope where
  /-- The number it was given when it was made. -/
  index : Nat
  name : String
  parent : Option Int
  /-- Where it is defined, if that is known; roots are not defined anywhere. -/
  loc : Option Location
  /-- The macros defined in it, in order. -/
  children : List (String × Nat)
  /-- The imports bound in it, in order. -/
  aliases : List (String × Alias)
  /-- Its items without definitions and imports, once all of them are known. -/
  body : Option (List Item)
deriving DecidableEq

namespace Scope

def isMacro (s : Scope) : Bool := s.parent.isSome

def child? (s : Scope) (name : String) : Option Nat := s.children.lookup name

def alias? (s : Scope) (name : String) : Option Alias := s.aliases.lookup name

/-- Whether a name has a meaning of its own in the scope. -/
def binds (s : Scope) (name : String) : Bool :=
  (s.child? name).isSome || (s.alias? name).isSome

/-- The items to be expanded. -/
def items (s : Scope) : List Item := s.body.getD []

/-- What a scope is called in listings. -/
def kind (s : Scope) : String := if s.isMacro then "macro" else "root"

/-- A short description. -/
def summary (s : Scope) : String :=
  let kind := if s.isMacro then "Macro" else "Root"
  s!"{kind}({s.name}#{s.index})"

end Scope

/-- Why something cannot be done with a tree of scopes. -/
inductive ScopeError where
  | unknownRoot (name : String)
  | rootDeclared (name : String)
  | alreadyDefined (name scope : String) (loc : Option Location)
  | alreadyBound (name scope : String) (loc : Location)
  | aboveRoot (ref root : String) (loc : Location)
  /-- A path that goes on behind an imported name. -/
  | throughAlias (name ref : String) (loc : Location)
  | unknownMacro (name scope ref : String) (loc : Location)
  /-- A path that ends at a root. -/
  | notMacro (ref scope : String) (loc : Location)
  | badImport (cause : ScopeError) (loc : Location)
  /-- A number that no scope has. -/
  | noScope
  /-- An import whose scope has no child of that name. -/
  | noChild (name : String)
  /-- An import that was bound to a root, which no scope holds. -/
  | noHolder
deriving DecidableEq

namespace ScopeError

/-- A failure to build or to find, as opposed to a number or an import that the
tree was given wrongly. -/
def isLanguage : ScopeError → Bool
  | noScope | noChild _ | noHolder => false
  | _ => true

def message : ScopeError → String
  | unknownRoot name => s!"Unknown root scope '{name}'"
  | rootDeclared name => s!"Root scope '{name}' is already declared"
  | alreadyDefined name scope loc =>
    let place := loc.elim "None" Location.render
    s!"Macro '{name}' is already defined in scope '{scope}' at {place}"
  | alreadyBound name scope loc =>
    s!"Cannot import '{name}': the name is already bound in scope '{scope}' at {loc.render}"
  | aboveRoot ref root loc => s!"Path '{ref}' climbs above root scope '{root}' at {loc.render}"
  | throughAlias name ref loc =>
    s!"'{name}' in path '{ref}' is an imported alias and exposes no nested macros at {loc.render}"
  | unknownMacro name scope ref loc =>
    s!"Unknown macro '{name}' in scope '{scope}' (path '{ref}') at {loc.render}"
  | notMacro ref scope loc => s!"Path '{ref}' names scope '{scope}', not a macro at {loc.render}"
  | badImport cause _ => s!"Cannot resolve import: {cause.message}"
  | noScope => "list index out of range"
  | noChild name => name
  | noHolder => "an imported root has no enclosing scope"

def loc? : ScopeError → Option Location
  | alreadyDefined _ _ loc => loc
  | alreadyBound _ _ loc | aboveRoot _ _ loc | throughAlias _ _ loc
  | unknownMacro _ _ _ loc | notMacro _ _ loc | badImport _ loc => some loc
  | _ => none

def kind : ScopeError → Report.Kind
  | noScope => .range
  | noChild _ => .key
  | noHolder => .type
  | _ => .scope

def report (e : ScopeError) : Report := ⟨e.kind, e.message, e.loc?.map .source⟩

end ScopeError

/-- All scopes, and the roots by name in the order of their making. -/
structure ScopeTree where
  scopes : Array Scope
  roots : List (String × Nat)
deriving DecidableEq

namespace ScopeTree

def empty : ScopeTree := ⟨#[], []⟩

def size (t : ScopeTree) : Nat := t.scopes.size

/-- The number of a scope, counted from the front; a negative number counts from the end. -/
def position? (t : ScopeTree) (i : Int) : Option Nat :=
  if 0 ≤ i then if i < t.size then some i.toNat else none
  else if -(t.size : Int) ≤ i then some (t.size + i).toNat
  else none

def position (t : ScopeTree) (i : Int) : Except ScopeError Nat :=
  match t.position? i with
  | some n => .ok n
  | none => .error .noScope

/-- The scope with a number counted from the front. -/
def scope (t : ScopeTree) (n : Nat) : Except ScopeError Scope :=
  match t.scopes[n]? with
  | some s => .ok s
  | none => .error .noScope

def rootIndex? (t : ScopeTree) (name : String) : Option Nat := t.roots.lookup name

/-- The number of the root with a name. -/
def root (t : ScopeTree) (name : String) : Except ScopeError Nat :=
  match t.rootIndex? name with
  | some n => .ok n
  | none => .error (.unknownRoot name)

/-- The names from a scope up to its root, at most `fuel` of them. -/
def ancestry (t : ScopeTree) : (fuel : Nat) → Nat → List String
  | 0, _ => []
  | fuel + 1, n =>
    match t.scopes[n]? with
    | none => []
    | some s => s.name :: ((s.parent.bind t.position?).map (ancestry t fuel)).getD []

/-- The names from the root to a scope, with slashes between. -/
def fullName (t : ScopeTree) (n : Nat) : String :=
  "/".intercalate (t.ancestry t.size n).reverse

/-- Add a root. -/
def addRoot (t : ScopeTree) (name : String) : Except ScopeError (ScopeTree × Nat) :=
  match t.rootIndex? name with
  | some _ => .error (.rootDeclared name)
  | none =>
    .ok (⟨t.scopes.push ⟨t.size, name, none, none, [], [], none⟩, t.roots ++ [(name, t.size)]⟩, t.size)

/-- Change the scope with a number. -/
def modify (t : ScopeTree) (n : Nat) (f : Scope → Scope) : ScopeTree :=
  { t with scopes := t.scopes.modify n f }

/-- Add a macro to the scope with number `parent`. -/
def addMacro (t : ScopeTree) (parent : Int) (name : String) (loc : Option Location) :
    Except ScopeError (ScopeTree × Nat) := do
  let n ← t.position parent
  let s ← t.scope n
  if s.binds name then throw (.alreadyDefined name (t.fullName n) loc)
  let grown := t.modify n fun s => { s with children := s.children ++ [(name, t.size)] }
  let new : Scope := ⟨t.size, name, some parent, loc, [], [], none⟩
  return ({ grown with scopes := grown.scopes.push new }, t.size)

/-- Bind the name of the scope with number `target` in the scope with number `scope`. -/
def bindAlias (t : ScopeTree) (scope : Int) (target : Nat) (loc : Location) :
    Except ScopeError (ScopeTree × Alias) := do
  let n ← t.position scope
  let s ← t.scope n
  let goal ← t.scope target
  if s.binds goal.name then throw (.alreadyBound goal.name (t.fullName n) loc)
  let bound : Alias := ⟨goal.parent, goal.name, loc⟩
  return (t.modify n fun s => { s with aliases := s.aliases ++ [(goal.name, bound)] }, bound)

/-- The macro an import stands for. -/
def aliasTarget (t : ScopeTree) (a : Alias) : Except ScopeError Nat := do
  let some holder := a.scope | throw .noHolder
  let s ← t.scope (← t.position holder)
  match s.child? a.name with
  | some n => return n
  | none => throw (.noChild a.name)

end ScopeTree

end ByteTape
