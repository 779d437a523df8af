import ByteTape.Proofs.Expansion.Inclusion
import ByteTape.Proofs.Scope.Growth

/-! # What is remembered

A macro whose code is known is not expanded again, and no question is asked then
about the macros that are under way. This is right because the code that is kept is
the code of the macro under every chain by which it can be met, and stays so while
the tree grows. So the cache cannot be noticed, whatever was asked before, what of
it failed, and how the tree has grown in between.
-/

namespace ByteTape

namespace Expansion

theorem perform_bind {α β : Type} (task : Task α) (next : α → Task β) (cache : Cache) :
    perform (task >>= next) cache =
      match perform task cache with
      | (.ok a, known) => perform (next a) known
      | (.error e, known) => (.error e, known) := by
  simp only [perform, ExceptT.run_bind, StateT.run_bind]
  cases (task.run).run cache with
  | mk result known => cases result <;> rfl

/-- From a cache of this kind the task comes to the result and leaves a cache of
this kind. -/
def Gives {α : Type} (kind : Cache → Prop) (task : Task α) (result : Except ExpansionError α) :
    Prop :=
  ∀ cache, kind cache → ∃ cache', perform task cache = (result, cache') ∧ kind cache'

namespace Gives

variable {α β : Type} {kind : Cache → Prop}

theorem done (a : α) : Gives kind (pure a) (.ok a) := fun cache fit => ⟨cache, rfl, fit⟩

theorem failed (e : ExpansionError) : Gives kind (throw e : Task α) (.error e) :=
  fun cache fit => ⟨cache, rfl, fit⟩

theorem bind {task : Task α} {next : α → Task β} {a : α} {result : Except ExpansionError β}
    (first : Gives kind task (.ok a)) (second : Gives kind (next a) result) :
    Gives kind (task >>= next) result := by
  intro cache fit
  obtain ⟨cache', run, fit'⟩ := first cache fit
  obtain ⟨cache'', run', fit''⟩ := second cache' fit'
  refine ⟨cache'', ?_, fit''⟩
  rw [perform_bind, run]
  exact run'

theorem stop {task : Task α} {next : α → Task β} {e : ExpansionError}
    (first : Gives kind task (.error e)) : Gives kind (task >>= next) (.error e) := by
  intro cache fit
  obtain ⟨cache', run, fit'⟩ := first cache fit
  exact ⟨cache', by rw [perform_bind, run], fit'⟩

end Gives

section
variable {kind : Cache → Prop} {ask : Reference → Task Code}
  {look : Reference → Except ExpansionError Code}

mutual

theorem gives_item (it : Item) (known : ∀ ref ∈ it.refs, Gives kind (ask ref) (look ref)) :
    Gives kind (item ask it) (it.code look) := by
  cases it with
  | op | debug | text => exact .done _
  | use | define => exact .failed _
  | ref path loc => exact known _ (List.mem_singleton_self _)
  | group members loc =>
      simp only [item, Item.code]
      exact gives_items members known
  | times count target loc =>
      have inner := gives_item target known
      simp only [item, Item.code]
      cases found : target.code look with
      | error e =>
          rw [found] at inner
          exact inner.stop
      | ok code =>
          rw [found] at inner
          refine inner.bind ?_
          cases count.value with
          | ok n => exact .done _
          | error e => exact .failed _
termination_by sizeOf it

theorem gives_items (list : List Item)
    (known : ∀ ref ∈ Item.refsOf list, Gives kind (ask ref) (look ref)) :
    Gives kind (items ask list) (Item.codes look list) := by
  cases list with
  | nil => exact .done _
  | cons first rest =>
      have front := gives_item first fun ref there => known ref (List.mem_append_left _ there)
      have back := gives_items rest fun ref there => known ref (List.mem_append_right _ there)
      simp only [items, Item.codes]
      cases found : first.code look with
      | error e =>
          rw [found] at front
          exact front.stop
      | ok code =>
          rw [found] at front
          refine front.bind ?_
          cases found' : Item.codes look rest with
          | error e =>
              rw [found'] at back
              exact back.stop
          | ok code' =>
              rw [found'] at back
              exact back.bind (.done _)
termination_by sizeOf list

end

end

theorem perform_macroCode_known {t : ScopeTree} {active : List Int} {n : Nat} {cache : Cache}
    {code : Code} (known : cache[n]? = some code) :
    perform (macroCode t active n) cache = (.ok code, cache) := by
  rw [macroCode, perform_bind]
  simp only [show perform get cache = (.ok cache, cache) from rfl, known]
  rfl

theorem perform_insert (task : Task Code) (n : Nat) (cache : Cache) :
    perform (do
      let code ← task
      modify fun cache => cache.insert n code
      return code) cache =
    match perform task cache with
    | (.ok code, known) => (.ok code, known.insert n code)
    | (.error e, known) => (.error e, known) := by
  rw [perform_bind]
  rcases perform task cache with ⟨e | code, known⟩ <;> rfl

theorem perform_macroCode_new {t : ScopeTree} {active : List Int} {n : Nat} {cache : Cache}
    (new : cache[n]? = none) :
    perform (macroCode t active n) cache =
      perform (do
        let code ← codeOf t (active ++ [(n : Int)]) n (t.itemsOf n)
        modify fun cache => cache.insert n code
        return code) cache := by
  rw [macroCode, perform_bind]
  simp only [show perform get cache = (.ok cache, cache) from rfl, new]
  have spelt (ask : Reference → Task Code) (same : ask = reference t (active ++ [(n : Int)]) n) :
      items ask (t.itemsOf n) = codeOf t (active ++ [(n : Int)]) n (t.itemsOf n) := by
    rw [same, codeOf]
  refine congrArg (fun task : Task Code => perform (task >>= _) cache) (spelt _ (funext fun ref => ?_))
  unfold reference
  split <;> simp_all

/-- A macro gives what its body gives, if what is remembered of it is just that. -/
theorem gives_macroCode {kind : Cache → Prop} {t : ScopeTree} {active : List Int} {n : Nat}
    {result : Except ExpansionError Code}
    (body : Gives kind (codeOf t (active ++ [(n : Int)]) n (t.itemsOf n)) result)
    (right : ∀ cache code, kind cache → cache[n]? = some code → result = .ok code)
    (kept : ∀ cache code, kind cache → result = .ok code → kind (cache.insert n code)) :
    Gives kind (macroCode t active n) result := by
  intro cache fit
  cases known : cache[n]? with
  | some code =>
      rw [right cache code fit known]
      exact ⟨cache, perform_macroCode_known known, fit⟩
  | none =>
      obtain ⟨cache', run, fit'⟩ := body cache fit
      rw [perform_macroCode_new known, perform_insert, run]
      cases result with
      | error e => exact ⟨cache', rfl, fit'⟩
      | ok code => exact ⟨cache'.insert n code, rfl, kept cache' code fit' rfl⟩

/-- Only the code of macros is remembered, as it is when nothing else is under way. -/
structure Valid (t : ScopeTree) (cache : Cache) : Prop where
  known : ∀ {n : Nat} {code : Code}, cache[n]? = some code →
    n < t.size ∧ bodyCode t [n] n = .ok code

theorem valid_empty (t : ScopeTree) : Valid t ∅ :=
  ⟨fun {n} {code} known => by simp at known⟩

theorem Valid.insert {t : ScopeTree} {cache : Cache} {n : Nat} {code : Code} (valid : Valid t cache)
    (inside : n < t.size) (right : bodyCode t [n] n = .ok code) : Valid t (cache.insert n code) := by
  refine ⟨fun {m} {code'} known => ?_⟩
  rw [Std.TreeMap.getElem?_insert] at known
  split at known
  · next same =>
      obtain rfl := Option.some.inj known
      obtain rfl := Std.LawfulEqCmp.compare_eq_iff_eq.mp same
      exact ⟨inside, right⟩
  · exact valid.known known

section
open Relation

variable {t : ScopeTree} {chain : List Nat} {n : Nat}

/-- What is remembered of a macro is right under every chain by which it is met, since
none of the macros that include it is below it. -/
private theorem bodyCode_met {code : Code} (inside : n < t.size)
    (met : ∀ k ∈ chain, TransGen t.Includes k n) (right : bodyCode t [n] n = .ok code) :
    bodyCode t (chain ++ [n]) n = .ok code := by
  have apart := acyclic_of_bodyCode right
  refine bodyCode_kept (.refl t) inside (fun m below under => ?_) right
  obtain under | same := List.mem_append.mp under
  · exact apart (below.trans (met m under))
  · exact apart (List.mem_singleton.mp same ▸ below)

private theorem bodyCode_alone {code : Code} (inside : n < t.size)
    (done : bodyCode t (chain ++ [n]) n = .ok code) : bodyCode t [n] n = .ok code := by
  refine bodyCode_kept (.refl t) inside (fun m below under => ?_) done
  exact not_mem_of_bodyCode done below (List.mem_append_right _ under)

/-- A macro that is met along a chain gives its code under that chain, if its body does. -/
private theorem gives_met (chain : List Nat) (inside : n < t.size)
    (met : ∀ k ∈ chain, TransGen t.Includes k n)
    (body : Gives (Valid t) (codeOf t ((chain ++ [n]).map Nat.cast) n (t.itemsOf n))
      (bodyCode t (chain ++ [n]) n)) :
    Gives (Valid t) (macroCode t (chain.map Nat.cast) n) (bodyCode t (chain ++ [n]) n) := by
  rw [List.map_append] at body
  refine gives_macroCode body (fun cache code valid known => ?_) fun cache code valid done => ?_
  · exact bodyCode_met inside met (valid.known known).2
  · exact valid.insert inside (bodyCode_alone inside done)

private theorem gives_reference (chain : List Nat) {ref : Reference}
    (further : ∀ m, t.find n ref = .ok m → m ∉ chain →
      Gives (Valid t) (macroCode t (chain.map Nat.cast) m) (bodyCode t (chain ++ [m]) m)) :
    Gives (Valid t) (reference t (chain.map Nat.cast) n ref) (refCode t chain n ref) := by
  unfold reference refCode
  cases found : t.find n ref with
  | error e => exact .failed _
  | ok m =>
      by_cases under : m ∈ chain
      · simp only [under, mem_map_cast, if_true]
        exact .failed _
      · simp only [under, mem_map_cast, if_false]
        exact further m found under

/-- Under a chain of macros that all lead to it, a body gives its code. -/
theorem gives_body (met : ∀ k ∈ chain, ReflTransGen t.Includes k n) :
    Gives (Valid t) (codeOf t (chain.map Nat.cast) n (t.itemsOf n)) (bodyCode t chain n) := by
  induction chain, n using chain_induction (t := t) with
  | step chain n ih =>
      rw [bodyCode_eq]
      refine gives_items _ fun ref there => gives_reference chain fun m found fresh => ?_
      -- all that are under way lead to `n`, hence to the macro that is met
      have included : t.Includes n m := ⟨ref, there, found⟩
      refine gives_met chain (ScopeTree.find_lt found) (fun k under => ?_) (ih m included fresh ?_)
      · exact .tail' (met k under) included
      · intro k under
        obtain under | same := List.mem_append.mp under
        · exact (met k under).tail included
        · exact List.mem_singleton.mp same ▸ .refl

theorem gives_macroCode_nil (inside : n < t.size) :
    Gives (Valid t) (macroCode t [] n) (bodyCode t [n] n) := by
  refine gives_met [] inside (fun k none => by cases none) ?_
  exact gives_body fun k same => List.mem_singleton.mp same ▸ .refl

theorem gives_codeOf_nil (t : ScopeTree) (n : Nat) (list : List Item) :
    Gives (Valid t) (codeOf t [] n list) (Item.codes (refCode t [] n) list) := by
  refine gives_items list fun ref _ => gives_reference [] fun m found _ => ?_
  exact gives_macroCode_nil (ScopeTree.find_lt found)

end

end Expansion

/-- The path does not go up, and its first step has the name of the root. -/
def Reference.Begins (ref : Reference) (root : String) : Prop :=
  ref.path.up = 0 ∧ ref.path.steps.head? = some root

instance (ref : Reference) (root : String) : Decidable (ref.Begins root) :=
  inferInstanceAs (Decidable (_ ∧ _))

namespace ScopeTree

/-- No stored reference begins with the name of a root that is still to be added. -/
def Unclaimed (t : ScopeTree) (new : Option String) : Prop :=
  ∀ root ∈ new, t.rootIndex? root = none →
    ∀ s ∈ t.scopes, ∀ ref ∈ Item.refsOf s.items, ¬ ref.Begins root

instance (t : ScopeTree) (new : Option String) : Decidable (t.Unclaimed new) :=
  inferInstanceAs (Decidable (∀ root ∈ new, _ → ∀ s ∈ t.scopes, ∀ ref ∈ Item.refsOf s.items, _))

theorem mem_scopes_of_refs {t : ScopeTree} {n : Nat} {ref : Reference}
    (there : ref ∈ Item.refsOf (t.itemsOf n)) : ∃ s ∈ t.scopes, ref ∈ Item.refsOf s.items := by
  unfold itemsOf at there
  cases here : t.scopes[n]? with
  | none =>
      rw [here] at there
      cases there
  | some s =>
      rw [here] at there
      exact ⟨s, Array.mem_of_getElem? here, there⟩

theorem Grows.itemsOf {t t' : ScopeTree} (h : t.Grows t') {n : Nat} (inside : n < t.size) :
    t'.itemsOf n = t.itemsOf n := by
  obtain ⟨s, here⟩ : ∃ s, t.scopes[n]? = some s := ⟨_, Array.getElem?_eq_getElem inside⟩
  obtain ⟨s', here', keeps⟩ := h.scope here
  unfold ScopeTree.itemsOf
  rw [here, here', Option.map_some, Option.map_some, Scope.items, Scope.items, keeps.body]

theorem Grown.keepsBodies {t t' : ScopeTree} {new : Option String} (grown : Grown t t' new)
    (up : t.Upright) (free : t.Unclaimed new) : KeepsBodies id t t' := by
  refine ⟨fun _ _ same => same, grown.grows.itemsOf, fun {n} {m} {ref} there found => ?_⟩
  refine grown.grows.find up (fun level name first unnamed => ?_) found
  obtain ⟨s, stored, there⟩ := mem_scopes_of_refs there
  by_cases asked : name ∈ new
  · exact absurd ⟨level, first⟩ (free name asked unnamed s stored ref there)
  · rw [grown.roots asked, unnamed]

end ScopeTree

namespace Expansion

theorem Valid.grown {t t' : ScopeTree} {cache : Cache} (valid : Valid t cache)
    (keeps : ScopeTree.KeepsBodies id t t') (size : t.size ≤ t'.size) : Valid t' cache := by
  refine ⟨fun {n} {code} known => ?_⟩
  obtain ⟨inside, right⟩ := valid.known known
  refine ⟨Nat.lt_of_lt_of_le inside size, ?_⟩
  exact bodyCode_kept keeps inside (fun m below => not_mem_of_bodyCode right below) right

/-- What an expander is asked for. -/
inductive Query where
  /-- The code of a scope. -/
  | body (n : Nat)
  /-- The code of items as if they were written in a scope. -/
  | items (n : Nat) (list : List Item)

def Query.task (t : ScopeTree) : Query → Task Code
  | body n => macroCode t [] n
  | items n list => codeOf t [] n list

/-- The tree grows, or its expander is asked. -/
inductive Event where
  | grow (g : ScopeTree.Growth)
  | ask (q : Query)

namespace Event

/-- The tree afterwards. -/
def after (t : ScopeTree) : Event → ScopeTree
  | grow g => t.grow g
  | ask _ => t

/-- A new root takes no stored reference over, and a scope that is asked for is there. -/
def Fits (t : ScopeTree) : Event → Prop
  | grow g => t.Unclaimed g.newRoot?
  | ask (.body n) => n < t.size
  | ask (.items ..) => True

instance (t : ScopeTree) : (e : Event) → Decidable (e.Fits t)
  | grow g => inferInstanceAs (Decidable (t.Unclaimed g.newRoot?))
  | ask (.body n) => inferInstanceAs (Decidable (n < t.size))
  | ask (.items ..) => inferInstanceAs (Decidable True)

end Event

/-- Every event fits the tree it meets. -/
def Fitting (t : ScopeTree) : List Event → Prop
  | [] => True
  | e :: es => e.Fits t ∧ Fitting (e.after t) es

instance Fitting.decide : (t : ScopeTree) → (es : List Event) → Decidable (Fitting t es)
  | _, [] => inferInstanceAs (Decidable True)
  | t, e :: es => @instDecidableAnd _ _ _ (Fitting.decide (e.after t) es)

/-- What one expander answers, which remembers all it has found out before. -/
def answers (t : ScopeTree) (cache : Cache) : List Event → List (Except ExpansionError Code)
  | [] => []
  | .grow g :: es => answers (t.grow g) cache es
  | .ask q :: es => (perform (q.task t) cache).1 :: answers t (perform (q.task t) cache).2 es

/-- What expanders answer that each are asked only once. -/
def freshAnswers (t : ScopeTree) : List Event → List (Except ExpansionError Code)
  | [] => []
  | .grow g :: es => freshAnswers (t.grow g) es
  | .ask q :: es => (perform (q.task t) ∅).1 :: freshAnswers t es

/-- What is answered to a question is a matter of the tree. -/
theorem Query.gives {t : ScopeTree} {q : Query} (fits : (Event.ask q).Fits t) :
    ∃ result, Gives (Valid t) (q.task t) result := by
  cases q with
  | body n => exact ⟨_, gives_macroCode_nil fits⟩
  | items n list => exact ⟨_, gives_codeOf_nil t n list⟩

theorem answers_eq_of_valid {t : ScopeTree} {cache : Cache} (up : t.Upright)
    (valid : Valid t cache) {es : List Event} (fits : Fitting t es) :
    answers t cache es = freshAnswers t es := by
  induction es generalizing t cache with
  | nil => rfl
  | cons e es ih =>
      obtain ⟨here, later⟩ := fits
      cases e with
      | grow g =>
          have grown := ScopeTree.Grown.of_grow up g
          exact ih grown.upright (valid.grown (grown.keepsBodies up here) grown.grows.size) later
      | ask q =>
          obtain ⟨result, gives⟩ := Query.gives here
          obtain ⟨cache', run, valid'⟩ := gives cache valid
          obtain ⟨_, fresh, -⟩ := gives ∅ (valid_empty t)
          simp only [answers, freshAnswers, run, fresh]
          rw [ih up valid' later]

/-- One expander that remembers what it has found answers like a new one each time,
whatever it was asked before and however its tree has grown since. -/
theorem cache_unobservable (early : List ScopeTree.Growth) (es : List Event)
    (fits : Fitting (ScopeTree.empty.grownFrom early) es) :
    answers (.grownFrom .empty early) ∅ es = freshAnswers (.grownFrom .empty early) es :=
  answers_eq_of_valid (ScopeTree.upright_grownFrom .empty early) (valid_empty _) fits

/-- A root with the macros `a`, `b` that includes `a` and an unknown `c`, and `d` that
includes `b` and itself. -/
def unfinished (loc : Location) : List ScopeTree.Growth :=
  [.build "main"
    [.define "a" [.op .increment loc] loc,
      .define "b" [.ref ⟨1, ["a"]⟩ loc, .ref ⟨1, ["c"]⟩ loc] loc,
      .define "d" [.ref ⟨1, ["b"]⟩ loc, .ref ⟨1, ["d"]⟩ loc] loc]]

/-- Ask for `b`, make `c` known, ask for `d` and again for `b`, and have another root
include `b` twice. -/
def finishing (loc : Location) : List Event :=
  [.ask (.body 2), .grow (.child 0 "c" none), .ask (.body 3), .ask (.body 2),
    .grow (.build "other" []),
    .ask (.items 5 [.group [.ref ⟨0, ["main", "b"]⟩ loc] loc, .ref ⟨0, ["main", "b"]⟩ loc])]

theorem cache_unobservable_finishing :
    Fitting (.grownFrom .empty (unfinished (.start "m"))) (finishing (.start "m")) ∧
      answers (.grownFrom .empty (unfinished (.start "m"))) ∅ (finishing (.start "m")) =
        [.error (.scope (.unknownMacro "c" "main" "#^c" (.start "m"))),
          .error (.cyclic ["main/d", "main/d"] (.start "m")), .ok [(.increment, .start "m")],
          .ok [(.increment, .start "m"), (.increment, .start "m")]] := by
  have fits : Fitting (.grownFrom .empty (unfinished (.start "m"))) (finishing (.start "m")) :=
    by decide +kernel
  refine ⟨fits, ?_⟩
  rw [cache_unobservable _ _ fits]
  decide +kernel

end Expansion

end ByteTape
