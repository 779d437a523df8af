import ByteTape.Proofs.Scope.Address
import ByteTape.Proofs.Scope.Failures
import ByteTape.Scope.Outline

/-! # The hops of a walk

A path is made up of moves: so many to the parent, then one for each name. Which hop makes
a move is settled by the scope it is made from, so the hops that walk a path are settled as
well, and those that a walk keeps are as many of them as there are. A walk that gets to the
end of its path fails only at a root.
-/

namespace ByteTape

/-- One part of a path. -/
inductive Move where
  | up
  | step (name : String)

/-- The parts of a path in the order in which they are walked. -/
def Path.moves (p : Path) : List Move := List.replicate p.up .up ++ p.steps.map .step

theorem Path.length_moves (p : Path) : p.moves.length = p.up + p.steps.length := by
  simp [moves]

namespace ScopeTree

variable {t : ScopeTree} {ref : Reference} {first : Bool} {n m : Nat} {move : Move} {moves : List Move}
  {hop : Hop} {hops : List Hop} {w : Walk}

/-- From scope `n` the hop makes the first of these moves. A root is named only by the first
move of a path, and there its name means nothing else. An import is named only by the last. -/
inductive Makes (t : ScopeTree) (first : Bool) (n : Nat) : List Move → Hop → Prop where
  | up {m : Nat} {s : Scope} {moves : List Move} (above : t.Above n m) (there : t.scopes[m]? = some s) :
    Makes t first n (.up :: moves) ⟨.up, s.name, m⟩
  | root {m : Nat} {name : String} {moves : List Move} (start : first)
    (known : t.rootIndex? name = some m) : Makes t first n (.step name :: moves) ⟨.root, name, m⟩
  | imported {m : Nat} {name : String} (rootless : first → t.rootIndex? name = none)
    (bound : t.Imports n name m) : Makes t first n [.step name] ⟨.imported, name, m⟩
  | child {m : Nat} {name : String} {moves : List Move} (rootless : first → t.rootIndex? name = none)
    (nested : t.Nests n name m) : Makes t first n (.step name :: moves) ⟨.child, name, m⟩

/-- From scope `n` the hops walk an initial part of the moves, which leads to scope `m`. -/
inductive Trail (t : ScopeTree) : Bool → Nat → List Move → List Hop → Nat → Prop where
  | stop {first : Bool} {n : Nat} {moves : List Move} : Trail t first n moves [] n
  | hop {first : Bool} {n m : Nat} {move : Move} {moves : List Move} {hop : Hop} {hops : List Hop}
    (made : t.Makes first n (move :: moves) hop) (rest : Trail t false hop.index moves hops m) :
    Trail t first n (move :: moves) (hop :: hops) m

/-- The hop leads from scope `n` to its parent, to a root, to the macro of an import in it or
to a child of it. -/
def Leaps (t : ScopeTree) (n : Nat) (hop : Hop) : Prop :=
  match hop.kind with
  | .up => t.Above n hop.index
  | .root => t.rootIndex? hop.name = some hop.index
  | .imported => t.Imports n hop.name hop.index
  | .child => t.Nests n hop.name hop.index

/-- Each hop leads on from where the one before it led, the first from scope `n`. Only the
first may lead to a root, and only the last along an import. -/
def Linked (t : ScopeTree) : Bool → Nat → List Hop → Prop
  | _, _, [] => True
  | first, n, hop :: hops => t.Leaps n hop ∧ (hop.kind = .root → first) ∧
      (hop.kind = .imported → hops = []) ∧ t.Linked false hop.index hops

theorem Above.unique {k : Nat} (h : t.Above n m) (h' : t.Above n k) : m = k := by
  obtain ⟨s, i, here, parent, place⟩ := h
  obtain ⟨s', i', here', parent', place'⟩ := h'
  cases here.symm.trans here'
  cases parent.symm.trans parent'
  exact Option.some.inj (place.symm.trans place')

theorem Imports.unique {k : Nat} {name : String} (h : t.Imports n name m) (h' : t.Imports n name k) :
    m = k := by
  obtain ⟨s, a, here, bound, goal⟩ := h
  obtain ⟨s', a', here', bound', goal'⟩ := h'
  cases here.symm.trans here'
  cases bound.symm.trans bound'
  exact Except.ok.inj (goal.symm.trans goal')

theorem Nests.unique {k : Nat} {name : String} (h : t.Nests n name m) (h' : t.Nests n name k) :
    m = k := by
  obtain ⟨s, here, -, child⟩ := h
  obtain ⟨s', here', -, child'⟩ := h'
  cases here.symm.trans here'
  exact Option.some.inj (child.symm.trans child')

theorem Nests.not_imports {k : Nat} {name : String} (h : t.Nests n name m) : ¬ t.Imports n name k := by
  rintro ⟨s', a, here', bound, -⟩
  obtain ⟨s, here, free, -⟩ := h
  cases here.symm.trans here'
  cases free.symm.trans bound

namespace Makes

theorem unique {hop' : Hop} (h : t.Makes first n moves hop) (h' : t.Makes first n moves hop') :
    hop = hop' := by
  cases h with
  | up above there =>
      cases h' with
      | up above' there' =>
          obtain rfl := above.unique above'
          cases there.symm.trans there'
          rfl
  | root start known =>
      cases h' with
      | root _ known' =>
          cases known.symm.trans known'
          rfl
      | imported rootless _ => cases known.symm.trans (rootless start)
      | child rootless _ => cases known.symm.trans (rootless start)
  | imported rootless bound =>
      cases h' with
      | root start known => cases known.symm.trans (rootless start)
      | imported _ bound' =>
          obtain rfl := bound.unique bound'
          rfl
      | child _ nested => exact absurd bound nested.not_imports
  | child rootless nested =>
      cases h' with
      | root start known => cases known.symm.trans (rootless start)
      | imported _ bound => exact absurd bound nested.not_imports
      | child _ nested' =>
          obtain rfl := nested.unique nested'
          rfl

theorem first_iff (rootless : ∀ name, moves.head? = some (.step name) → t.rootIndex? name = none) :
    t.Makes true n moves hop ↔ t.Makes false n moves hop := by
  constructor
  · intro h
    cases h with
    | up above there => exact .up above there
    | root _ known => cases known.symm.trans (rootless _ rfl)
    | imported _ bound => exact .imported (fun start => by cases start) bound
    | child _ nested => exact .child (fun start => by cases start) nested
  · intro h
    cases h with
    | up above there => exact .up above there
    | root start => cases start
    | imported _ bound => exact .imported (fun _ => rootless _ rfl) bound
    | child _ nested => exact .child (fun _ => rootless _ rfl) nested

/-- Behind the start of a path a name is that of an import, and then the last, or of a child. -/
theorem of_step {name : String} (h : t.Makes false n (.step name :: moves) hop) :
    (moves = [] ∧ ∃ m, t.Imports n name m) ∨ ∃ m, t.Nests n name m := by
  cases h with
  | root start => cases start
  | imported _ bound => exact .inl ⟨rfl, _, bound⟩
  | child _ nested => exact .inr ⟨_, nested⟩

theorem leaps (h : t.Makes first n (move :: moves) hop) :
    t.Leaps n hop ∧ (hop.kind = .root → first) ∧ (hop.kind = .imported → moves = []) := by
  cases h with
  | up above => exact ⟨above, by simp, by simp⟩
  | root start known => exact ⟨known, fun _ => start, by simp⟩
  | imported _ bound => exact ⟨bound, by simp, fun _ => rfl⟩
  | child _ nested => exact ⟨nested, by simp, by simp⟩

end Makes

namespace Trail

theorem length_le (h : t.Trail first n moves hops m) : hops.length ≤ moves.length := by
  induction h with
  | stop => exact Nat.zero_le _
  | hop _ _ ih => exact Nat.succ_le_succ ih

theorem linked (h : t.Trail first n moves hops m) : t.Linked first n hops := by
  induction h with
  | stop => trivial
  | hop made rest ih =>
      obtain ⟨leaps, start, last⟩ := made.leaps
      refine ⟨leaps, start, fun kind => ?_, ih⟩
      have short := rest.length_le
      rw [last kind, List.length_nil] at short
      exact List.eq_nil_of_length_eq_zero (Nat.le_zero.mp short)

theorem last (h : t.Trail first n moves hops m) (some : hops ≠ []) :
    hops.getLast?.map Hop.index = Option.some m := by
  induction h with
  | stop => exact absurd rfl some
  | @hop _ _ m _ _ hop hops _ rest ih =>
      cases hops with
      | nil =>
          cases rest
          rfl
      | cons next hops =>
          rw [List.getLast?_cons_cons]
          exact ih (List.cons_ne_nil _ _)

end Trail

/-- How moves are walked from scope `n`: along the hops that make them, to a macro, to a root
or to a scope from which no hop makes the next move. -/
inductive Goes (t : ScopeTree) (ref : Reference) : Bool → Nat → List Move → Walk → Prop where
  | arrived {first : Bool} {n : Nat} {s : Scope} (here : t.scopes[n]? = some s) (kind : s.isMacro) :
    Goes t ref first n [] ⟨[], .ok n⟩
  | root {first : Bool} {n : Nat} {s : Scope} (here : t.scopes[n]? = some s) (kind : s.parent = none) :
    Goes t ref first n [] (.fail (.notMacro ref.render s.name ref.loc))
  | stuck {first : Bool} {n : Nat} {move : Move} {moves : List Move} {e : ScopeError}
    (none : ∀ hop, ¬ t.Makes first n (move :: moves) hop)
    (cause : ∀ scope, e ≠ .notMacro ref.render scope ref.loc) :
    Goes t ref first n (move :: moves) (.fail e)
  | hop {first : Bool} {n : Nat} {move : Move} {moves : List Move} {hop : Hop} {w : Walk}
    (made : t.Makes first n (move :: moves) hop) (rest : Goes t ref false hop.index moves w) :
    Goes t ref first n (move :: moves) (w.behind hop)

namespace Goes

theorem trail (h : t.Goes ref first n moves w) : ∃ m, t.Trail first n moves w.hops m := by
  induction h with
  | arrived | root | stuck => exact ⟨_, .stop⟩
  | hop made _ ih =>
      obtain ⟨m, rest⟩ := ih
      exact ⟨m, .hop made rest⟩

theorem longest (h : t.Goes ref first n moves w) (other : t.Trail first n moves hops m) :
    hops <+: w.hops := by
  induction h generalizing hops m with
  | arrived | root =>
      cases other
      exact List.nil_prefix
  | stuck none =>
      cases other with
      | stop => exact List.nil_prefix
      | hop made => exact absurd made (none _)
  | hop made _ ih =>
      cases other with
      | stop => exact List.nil_prefix
      | hop made' rest =>
          obtain rfl := made.unique made'
          exact (List.prefix_cons_inj _).mpr (ih rest)

theorem of_ok (h : t.Goes ref first n moves w) (found : w.outcome = .ok m) :
    t.Trail first n moves w.hops m ∧ w.hops.length = moves.length := by
  induction h with
  | arrived =>
      cases found
      exact ⟨.stop, rfl⟩
  | root | stuck => cases found
  | hop made _ ih =>
      obtain ⟨rest, complete⟩ := ih found
      exact ⟨.hop made rest, congrArg Nat.succ complete⟩

/-- A walk that fails has made all its moves exactly if it has come to a root. -/
theorem of_error {e : ScopeError} (h : t.Goes ref first n moves w) (failed : w.outcome = .error e) :
    w.hops.length = moves.length ↔ ∃ r s, t.Trail first n moves w.hops r ∧
      t.scopes[r]? = some s ∧ s.parent = none ∧ e = .notMacro ref.render s.name ref.loc := by
  induction h with
  | arrived => cases failed
  | @root _ n s here kind =>
      cases failed
      exact ⟨fun _ => ⟨n, s, .stop, here, kind, rfl⟩, fun _ => rfl⟩
  | stuck _ cause =>
      cases failed
      constructor
      · intro complete
        cases complete
      · rintro ⟨r, s, -, -, -, rfl⟩
        exact absurd rfl (cause s.name)
  | hop made _ ih =>
      refine Nat.succ_inj.trans ((ih failed).trans ?_)
      constructor
      · rintro ⟨r, s, rest, there, kind, rfl⟩
        exact ⟨r, s, .hop made rest, there, kind, rfl⟩
      · rintro ⟨r, s, whole, there, kind, rfl⟩
        cases whole with
        | hop _ rest => exact ⟨r, s, rest, there, kind, rfl⟩

theorem of_rootless (rootless : ∀ name, moves.head? = some (.step name) → t.rootIndex? name = none)
    (h : t.Goes ref false n moves w) : t.Goes ref true n moves w := by
  cases h with
  | arrived here kind => exact .arrived here kind
  | root here kind => exact .root here kind
  | stuck none cause =>
      exact .stuck (fun hop made => none hop ((Makes.first_iff rootless).mp made)) cause
  | hop made rest => exact .hop ((Makes.first_iff rootless).mpr made) rest

end Goes

namespace Arena

theorem goes_descend (h : t.Arena) (inside : n < t.size) (steps : List String) :
    t.Goes ref false n (steps.map .step) (t.descend ref n steps) := by
  induction steps generalizing n with
  | nil =>
      obtain ⟨s, here⟩ := exists_scope inside
      rw [descend, here]
      dsimp only
      split
      · next kind => exact .arrived here kind
      · next kind =>
          refine .root here ?_
          simpa [Scope.isMacro] using kind
  | cons name steps ih =>
      obtain ⟨s, here⟩ := exists_scope inside
      rw [descend.eq_def, List.map_cons]
      simp only [here]
      split
      · next a bound =>
          obtain ⟨m, goal, there⟩ := (h.imported here bound).aliasTarget
          have known : t.Imports n name m := ⟨s, a, here, bound, goal⟩
          -- an import is followed where the path ends and stands in the way elsewhere
          cases steps with
          | nil =>
              simp only [List.isEmpty_nil, Bool.not_true, Bool.false_eq_true, if_false, goal]
              exact .hop (.imported (fun start => by cases start) known) (ih there)
          | cons next steps =>
              refine .stuck (fun hop made => ?_) (by simp)
              obtain ⟨last, -⟩ | ⟨_, nested⟩ := made.of_step
              · cases last
              · exact nested.not_imports known
      · next free =>
          split
          · next m child =>
              have there := ((h.child here).mp child).lt_size
              exact .hop (.child (fun start => by cases start) ⟨s, here, free, child⟩) (ih there)
          · next unknown =>
              refine .stuck (fun hop made => ?_) (by simp)
              obtain ⟨-, _, s', a, here', bound, -⟩ | ⟨_, s', here', -, child⟩ := made.of_step
              · cases here.symm.trans here'
                cases free.symm.trans bound
              · cases here.symm.trans here'
                cases unknown.symm.trans child

theorem goes_anchor (h : t.Arena) (inside : n < t.size) (steps : List String) :
    t.Goes ref true n (steps.map .step) (t.anchor ref n steps) := by
  cases steps with
  | nil => exact (h.goes_descend inside []).of_rootless (by simp)
  | cons name steps =>
      rw [anchor]
      split
      · next root known =>
          exact .hop (.root rfl known) (h.goes_descend (h.root.mp known).lt_size steps)
      · next unknown =>
          exact (h.goes_descend inside (name :: steps)).of_rootless (by simpa using unknown)

theorem goes_climb (h : t.Arena) (inside : n < t.size) (k : Nat) :
    t.Goes ref false n (List.replicate k .up ++ ref.path.steps.map .step) (t.climb ref n k) := by
  induction k generalizing n with
  | zero => exact h.goes_descend inside ref.path.steps
  | succ k ih =>
      obtain ⟨s, here⟩ := exists_scope inside
      rw [climb, List.replicate_succ, List.cons_append]
      simp only [here]
      split
      · next top =>
          refine .stuck (fun hop made => ?_) (by simp)
          cases made with
          | up above =>
              obtain ⟨s', i, here', parent, -⟩ := above
              cases here.symm.trans here'
              cases top.symm.trans parent
      · next i parent =>
          obtain ⟨positive, before⟩ := h.parent here parent
          obtain ⟨m, rfl⟩ := Int.eq_ofNat_of_zero_le positive
          have above : m < t.size := by omega
          obtain ⟨s', there⟩ := exists_scope above
          have place := position?_natCast above
          simp only [place, there]
          exact .hop (.up ⟨s, m, here, parent, place⟩ there) (ih above)

/-- A walk makes the moves of its path. -/
theorem goes (h : t.Arena) (inside : n < t.size) (ref : Reference) :
    t.Goes ref true n ref.path.moves (t.walk n ref) := by
  rw [walk, if_neg (Nat.not_le.mpr inside), Path.moves]
  split
  · next level =>
      rw [level]
      exact h.goes_anchor inside ref.path.steps
  · next climbs =>
      refine (h.goes_climb inside ref.path.up).of_rootless fun name first => ?_
      obtain ⟨k, up⟩ := Nat.exists_eq_succ_of_ne_zero climbs
      rw [up] at first
      cases first

/-- Paths are accounted for in a tree whose numbers fit together, and those that lead to a
macro with its full name. -/
theorem explain (h : t.Arena) (inside : n < t.size) (text : String) :
    ∃ account, t.explain text n = .ok account ∧ ∀ name, account.target = some name ↔
      ∃ path m, Path.parse text = .ok path ∧ t.find n ⟨path, false, PathError.place⟩ = .ok m ∧
        t.fullName m = name := by
  unfold ScopeTree.explain find
  cases Path.parse text with
  | error e => exact ⟨_, rfl, by simp⟩
  | ok path =>
      dsimp only
      cases walked : (t.walk n ⟨path, false, PathError.place⟩).outcome with
      | ok m => exact ⟨_, rfl, by simp [walked]⟩
      | error e =>
          have blamed := h.find_error inside walked
          exact ⟨_, if_pos blamed.isLanguage, by simp [walked]⟩

end Arena

/-- The hops of a walk lead from scope to scope, beginning where the path is seen from. They
are those of the longest initial part of the path that can be walked. If the path leads to a
macro they are as many as its parts, and the last of them leads to the macro; if it does not,
they are as many only if it leads to a root. A path is said to be found, and with which full
name, exactly if it can be read and leads to that macro. -/
theorem Reached.walk_faithful (h : t.Reached) (inside : n < t.size) (ref : Reference)
    (parts : 0 < ref.path.up + ref.path.steps.length) :
    t.Linked true n (t.walk n ref).hops ∧
    (∃ m, t.Trail true n ref.path.moves (t.walk n ref).hops m) ∧
    (∀ hops m, t.Trail true n ref.path.moves hops m → hops <+: (t.walk n ref).hops) ∧
    (∀ m, (t.walk n ref).outcome = .ok m →
      (t.walk n ref).hops.length = ref.path.up + ref.path.steps.length ∧
        (t.walk n ref).hops.getLast?.map Hop.index = some m) ∧
    (∀ e, (t.walk n ref).outcome = .error e →
      ((t.walk n ref).hops.length = ref.path.up + ref.path.steps.length ↔
        ∃ r s, (t.walk n ref).hops.getLast?.map Hop.index = some r ∧ t.scopes[r]? = some s ∧
          s.parent = none ∧ e = .notMacro ref.render s.name ref.loc)) ∧
    ∀ text, ∃ account, t.explain text n = .ok account ∧ ∀ name, account.target = some name ↔
      ∃ path m, Path.parse text = .ok path ∧ t.find n ⟨path, false, PathError.place⟩ = .ok m ∧
        t.fullName m = name := by
  have goes := h.fits.goes inside ref
  obtain ⟨m, trail⟩ := goes.trail
  rw [← Path.length_moves] at parts ⊢
  have filled (complete : (t.walk n ref).hops.length = ref.path.moves.length) :
      (t.walk n ref).hops ≠ [] := List.ne_nil_of_length_pos (complete ▸ parts)
  refine ⟨trail.linked, ⟨m, trail⟩, fun hops m => goes.longest, ?_, ?_, h.fits.explain inside⟩
  · intro m found
    obtain ⟨whole, complete⟩ := goes.of_ok found
    exact ⟨complete, whole.last (filled complete)⟩
  · intro e failed
    constructor
    · intro complete
      obtain ⟨r, s, whole, there, kind, rfl⟩ := (goes.of_error failed).mp complete
      exact ⟨r, s, whole.last (filled complete), there, kind, rfl⟩
    · rintro ⟨r, s, last, there, kind, rfl⟩
      have some : (t.walk n ref).hops ≠ [] := fun none => by simp [none] at last
      obtain rfl := Option.some.inj ((trail.last some).symm.trans last)
      exact (goes.of_error failed).mpr ⟨m, s, trail, there, kind, rfl⟩

/-- Two macros, and a third inside the second that imports what the first defines. -/
def nestedImport (loc : Location) : List Item :=
  [.define "a" [.define "m" [] loc] loc,
    .define "b" [.define "c" [.use ⟨0, ["src", "a", "m"]⟩ loc] loc] loc]

/-- What they are built into. -/
def nestedImporter (loc : Location) : ScopeTree where
  scopes := #[⟨0, "src", none, none, [("a", 1), ("b", 3)], [], some []⟩,
    ⟨1, "a", some 0, some loc, [("m", 2)], [], some []⟩,
    ⟨2, "m", some 1, some loc, [], [], some []⟩,
    ⟨3, "b", some 0, some loc, [("c", 4)], [], some []⟩,
    ⟨4, "c", some 3, some loc, [], [("m", ⟨some 1, "m", loc⟩)], some []⟩]
  roots := [("src", 0)]

private theorem nestedImporter_reached : (nestedImporter (.start "m")).Reached := by
  have built : ScopeTree.empty.grow (.build "src" (nestedImport (.start "m"))) = nestedImporter (.start "m") := by
    decide +kernel
  rw [← built]
  exact .grow .empty trivial

/-- The way up to the root and down again to the import ends at its macro, and where another
name follows it ends before the import. The name of the root alone leads to the root. -/
theorem Reached.walk_faithful_nestedImporter :
    let loc := Location.start "m"
    let t := nestedImporter loc
    let there := t.walk 4 ⟨⟨2, ["b", "c", "m"]⟩, false, loc⟩
    let beyond := t.walk 4 ⟨⟨2, ["b", "c", "m", "x"]⟩, false, loc⟩
    let top := t.walk 4 ⟨⟨0, ["src"]⟩, false, loc⟩
    (t.Reached ∧ 4 < t.size) ∧
    (there.outcome = .ok 2 ∧ t.Linked true 4 there.hops ∧ there.hops.length = 5 ∧
      there.hops.getLast?.map Hop.index = some 2) ∧
    (beyond.hops = [⟨.up, "b", 3⟩, ⟨.up, "src", 0⟩, ⟨.child, "b", 3⟩, ⟨.child, "c", 4⟩] ∧
      ∀ hops m, t.Trail true 4 (Path.moves ⟨2, ["b", "c", "m", "x"]⟩) hops m → hops <+: beyond.hops) ∧
    top.outcome = .error (.notMacro "#src" "src" loc) ∧ top.hops.length = 1 := by
  intro loc t there beyond top
  have reached : t.Reached := nestedImporter_reached
  have inside : 4 < t.size := by decide
  obtain ⟨linked, -, -, arrives, -⟩ :=
    reached.walk_faithful inside ⟨⟨2, ["b", "c", "m"]⟩, false, loc⟩ (by decide)
  obtain ⟨-, -, longest, -⟩ :=
    reached.walk_faithful inside ⟨⟨2, ["b", "c", "m", "x"]⟩, false, loc⟩ (by decide)
  obtain ⟨-, -, -, -, fails, -⟩ :=
    reached.walk_faithful inside ⟨⟨0, ["src"]⟩, false, loc⟩ (by decide)
  obtain ⟨complete, last⟩ := arrives 2 rfl
  exact ⟨⟨reached, inside⟩, ⟨rfl, linked, complete, last⟩, ⟨rfl, longest⟩, rfl,
    (fails _ rfl).mpr ⟨0, _, rfl, rfl, rfl, rfl⟩⟩

end ScopeTree

end ByteTape
