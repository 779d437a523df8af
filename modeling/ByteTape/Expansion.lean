import ByteTape.Scope.Build
import ByteTape.Program
import Std.Data.TreeMap

/-! # Expansion

Items become a flat list of operations, each with the position it comes from.
A reference is replaced by the code of the macro it names, found from the scope
in which it is written, so the code of a macro does not depend on where it is
put in. It is therefore kept once it is known. A macro that would need its own
code first is a cyclic inclusion.
-/

namespace ByteTape

/-- Operations with the positions they come from. -/
abbrev Code := List (Op × Location)

/-- Clear a cell, count it up to a byte and step to the right, for each byte. -/
def textOps (bytes : List UInt8) : List Op :=
  bytes.flatMap fun b =>
    [.loopOpen, .decrement, .loopClose] ++ List.replicate b.toNat .increment ++ [.right]

/-- Why items cannot be expanded. -/
inductive ExpansionError where
  | scope (e : ScopeError)
  | cyclic (chain : List String) (loc : Location)
  /-- A definition that no scope has taken up. -/
  | definition (name : String) (loc : Location)
  /-- An import that no scope has taken up. -/
  | use (ref : String) (loc : Location)
  | count (e : CountError)
deriving DecidableEq

def ExpansionError.report : ExpansionError → Report
  | scope e => e.report
  | cyclic chain loc =>
    let chain := " -> ".intercalate chain
    .located .expansion s!"Cyclic macro inclusion {chain}" loc
  | definition name loc =>
    .located .expansion s!"Macro definition '{name}' was not registered in the scope tree" loc
  | use ref loc => .located .expansion s!"Import '{ref}' was not bound by the scope tree" loc
  | count e => e.report

namespace Expansion

/-- The code of the macros that are done, by number. -/
abbrev Cache := Std.TreeMap Nat Code

/-- Expanding looks up and adds to the cache, and keeps it when it fails. -/
abbrev Task := ExceptT ExpansionError (StateM Cache)

mutual

/-- The code of an item, given what references stand for. -/
def item (macroCode : Reference → Task Code) : Item → Task Code
  | .op op loc => return [(op, loc)]
  | .debug loc => return [(.debug, loc)]
  | .text bytes loc => return (textOps bytes).map (·, loc)
  | .ref path loc => macroCode ⟨path, false, loc⟩
  | .use path loc => throw (.use (Reference.render ⟨path, true, loc⟩) loc)
  | .define name _ loc => throw (.definition name loc)
  | .group members _ => items macroCode members
  | .times count target _ => do
    let code ← item macroCode target
    match count.value with
    | .ok n => return (List.replicate n.toNat code).flatten
    | .error e => throw (.count e)

/-- The code of items one after the other. -/
def items (macroCode : Reference → Task Code) : List Item → Task Code
  | [] => return []
  | first :: rest => do
    let front ← item macroCode first
    let back ← items macroCode rest
    return front ++ back

end

/-- The names of the macros on the way to a cyclic inclusion. -/
def chainNames (t : ScopeTree) : List Int → Except ScopeError (List String)
  | [] => .ok []
  | i :: rest => do
    let n ← t.position i
    return t.fullName n :: (← chainNames t rest)

/-- The complaint about a macro that is under way already. -/
def cycle (t : ScopeTree) (active : List Int) (n : Nat) (loc : Location) : ExpansionError :=
  match chainNames t (active ++ [(n : Int)]) with
  | .ok chain => .cyclic chain loc
  | .error e => .scope e

/-- The number of scopes that are not under way. -/
def idle (t : ScopeTree) (active : List Int) : Nat :=
  ((List.range t.size).filter fun n : Nat => !active.contains (n : Int)).length

theorem idle_lt {t : ScopeTree} {active : List Int} {n : Nat} (bound : n < t.size)
    (fresh : ¬ (n : Int) ∈ active) : idle t (active ++ [(n : Int)]) < idle t active := by
  unfold idle
  have split : (List.range t.size).filter (fun m : Nat => !(active ++ [(n : Int)]).contains (m : Int)) =
      ((List.range t.size).filter fun m : Nat => !active.contains (m : Int)).filter (fun m : Nat => m != n) := by
    rw [List.filter_filter]
    apply List.filter_congr
    intro m _
    by_cases hm : m = n
    · subst hm; simp
    · have : ¬ ((m : Int) = (n : Int)) := by omega
      simp [hm, this]
  rw [split]
  apply List.length_filter_lt_length_iff_exists.2
  exact ⟨n, by simp [bound, fresh], by simp⟩

/-- The code of macro `n`, whose expansion is asked for while the macros `active`
are under way. Code that is known is not asked for again. -/
def macroCode (t : ScopeTree) (active : List Int) (n : Nat) : Task Code := do
  match (← get)[n]? with
  | some code => return code
  | none =>
    let body := (t.scopes[n]?.map Scope.items).getD []
    let code ← items (fun ref =>
      match _found : t.find n ref with
      | .error e => throw (.scope e)
      | .ok target =>
        if _under : (target : Int) ∈ active ++ [(n : Int)] then
          throw (cycle t (active ++ [(n : Int)]) target ref.loc)
        else macroCode t (active ++ [(n : Int)]) target) body
    modify fun cache => cache.insert n code
    return code
termination_by idle t (active ++ [(n : Int)])
decreasing_by exact idle_lt (ScopeTree.find_lt _found) _under

/-- What a reference in scope `n` stands for while the macros `active` are under way. -/
def reference (t : ScopeTree) (active : List Int) (n : Nat) (ref : Reference) : Task Code :=
  match t.find n ref with
  | .error e => throw (.scope e)
  | .ok target =>
    if (target : Int) ∈ active then throw (cycle t active target ref.loc)
    else macroCode t active target

/-- The code of items written in scope `n`. -/
def codeOf (t : ScopeTree) (active : List Int) (n : Nat) (list : List Item) : Task Code :=
  items (reference t active n) list

/-- Do a task with what is known; the result and what is known then. -/
def perform {α : Type} (task : Task α) (cache : Cache) : Except ExpansionError α × Cache :=
  (task.run).run cache

/-- The code of the items of scope `n`, without anything known. -/
def scopeCode (t : ScopeTree) (n : Nat) : Except ExpansionError Code :=
  (perform (codeOf t [] n ((t.scopes[n]?.map Scope.items).getD [])) ∅).1

end Expansion

/-- A program from operations with positions. -/
def Code.link (code : Code) : Except BracketError Program :=
  Program.ofOps (code.map Prod.fst) (some (code.map fun c => some (.source c.2)).toArray)

end ByteTape
