import ByteTape.Scope.Walk

/-! # Views of a tree of scopes

The scopes in order, the tree as nested outlines, the listing that is printed,
and the account of how a path is walked.
-/

namespace ByteTape

/-- A scope with everything below it. -/
inductive Outline where
  | mk (name path kind : String) (items : Nat) (aliases : List (String × String))
    (children : List Outline)

/-- How a path was walked: the macro it names, if it does, and an account. -/
structure Account where
  target : Option String
  lines : List String

namespace ScopeTree

/-- A scope and all scopes below it, each before its children, at most `fuel` deep. -/
def preorder (t : ScopeTree) : (fuel : Nat) → Nat → List Nat
  | 0, _ => []
  | fuel + 1, n =>
    match t.scopes[n]? with
    | none => []
    | some s => n :: s.children.flatMap fun child => preorder t fuel child.2

/-- A scope and all scopes below it. -/
def below (t : ScopeTree) (n : Nat) : List Nat := t.preorder t.size n

/-- All scopes, root after root. -/
def order (t : ScopeTree) : List Nat := t.roots.flatMap fun root => t.below root.2

/-- The full name of the macro that an import stands for. -/
def aliasName (t : ScopeTree) (a : Alias) : Except ScopeError String := do
  return t.fullName (← t.aliasTarget a)

/-- The outline of a scope, at most `fuel` deep. -/
def outlineWithin (t : ScopeTree) : (fuel : Nat) → Nat → Except ScopeError Outline
  | 0, _ => .error .noScope
  | fuel + 1, n => do
    let s ← t.scope n
    let aliases ← s.aliases.mapM fun (name, a) => return (name, ← t.aliasName a)
    let children ← s.children.mapM fun child => outlineWithin t fuel child.2
    return .mk s.name (t.fullName n) s.kind s.items.length aliases children

def outline (t : ScopeTree) (n : Nat) : Except ScopeError Outline := t.outlineWithin t.size n

/-- The lines about a scope and those below it, at most `fuel` deep. -/
def listingWithin (t : ScopeTree) : (fuel : Nat) → Int → Nat → Except ScopeError (List String)
  | 0, _, _ => .error .noScope
  | fuel + 1, indent, n => do
    let s ← t.scope n
    let margin := String.ofList (List.replicate (2 * indent.toNat) ' ')
    let label := if s.isMacro then ":" ++ s.name else s.name
    let aliases ← s.aliases.mapM fun (name, a) => do
      let target ← t.aliasName a
      return s!"{margin}  use {name} → {target}"
    let children ← s.children.mapM fun child => listingWithin t fuel (indent + 1) child.2
    return s!"{margin}{label}  ({s.items.length} items)" :: aliases ++ children.flatten

/-- The lines about a scope. -/
def listing (t : ScopeTree) (indent : Int) (n : Nat) : Except ScopeError (List String) :=
  t.listingWithin t.size indent n

/-- The lines about all scopes, root after root. -/
def fullListing (t : ScopeTree) (indent : Int) : Except ScopeError (List String) := do
  let parts ← t.roots.mapM fun root => t.listing indent root.2
  return parts.flatten

/-- The line about one hop. -/
def hopLine (t : ScopeTree) (hop : Hop) : String :=
  let path := t.fullName hop.index
  match hop.kind with
  | .up => s!"  ^ up to {path}"
  | .root => s!"  / anchored at root {hop.name}"
  | .imported => s!"  → {hop.name}: imported alias of {path}"
  | .child => s!"  → {hop.name}: macro {path}"

/-- Tell how a path is walked from scope `n`. Only a tree that was given wrong
numbers makes this fail. -/
def explain (t : ScopeTree) (text : String) (n : Nat) : Except ScopeError Account :=
  match Path.parse text with
  | .error e => .ok ⟨none, ["✗ " ++ e.message]⟩
  | .ok path =>
    let walk := t.walk n ⟨path, false, PathError.place⟩
    let lines := s!"Resolving '{text}' from {t.fullName n}" :: walk.hops.map t.hopLine
    match walk.outcome with
    | .ok target =>
      let name := t.fullName target
      .ok ⟨some name, lines ++ [s!"  ✓ resolves to {name}"]⟩
    | .error e =>
      if e.isLanguage then .ok ⟨none, lines ++ ["  ✗ " ++ e.message]⟩ else .error e

end ScopeTree

end ByteTape
