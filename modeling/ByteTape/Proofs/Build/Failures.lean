import ByteTape.Proofs.Build.SourceMap
import ByteTape.Proofs.Scope.Failures

/-! # Failures of a build

A program is made, or the report says what is wrong with a text and where. The
position is one of the text, and the message ends with it. The other errors that the
single steps know of have no text that causes them.
-/

namespace ByteTape

/-- A failure of the language, with a position that is also said at the end of the
message. -/
structure Report.PointsAt (r : Report) (loc : Location) : Prop where
  kind : r.kind = .lex ∨ r.kind = .scope ∨ r.kind = .expansion
  place : r.place = some (.source loc)
  message : ∃ text, r.message = text ++ loc.render

section
variable {loc : Location}

theorem Report.pointsAt_located {kind : Report.Kind} (message : String)
    (language : kind = .lex ∨ kind = .scope ∨ kind = .expansion) :
    (Report.located kind message loc).PointsAt loc :=
  ⟨language, rfl, _, rfl⟩

theorem TokenError.pointsAt (e : TokenError) : e.report.PointsAt e.loc :=
  Report.pointsAt_located e.message (.inl rfl)

theorem ItemError.Blames.pointsAt {kind : Token → Prop} {e : ItemError} (h : e.Blames kind) :
    ∃ value loc, kind ⟨value, loc⟩ ∧ e.report.PointsAt loc := by
  cases e with
  | declarationInGroup loc | useOfNothing loc | useOfParent loc | useRepeated loc | bodyMissing loc
  | bodyNameless loc | bodyEndLoose loc =>
      obtain ⟨value, known⟩ := h
      exact ⟨value, loc, known, Report.pointsAt_located _ (.inl rfl)⟩
  | bodyOpen name loc | unknownToken type loc =>
      exact ⟨_, loc, h, Report.pointsAt_located _ (.inl rfl)⟩
  | groupEndLoose loc | groupOpen loc =>
      exact ⟨_, loc, h, Report.pointsAt_located _ (.inr (.inr rfl))⟩
  | nothingToCount => cases h

theorem ScopeError.Blames.message_ends {e : ScopeError} (h : e.Blames loc) :
    ∃ text, e.message = text ++ loc.render := by
  induction e with
  | alreadyDefined | alreadyBound | aboveRoot | throughAlias | unknownMacro | notMacro =>
      cases h
      exact ⟨_, rfl⟩
  | badImport cause place ih =>
      obtain ⟨rfl, blamed⟩ := h
      obtain ⟨text, ends⟩ := ih blamed
      refine ⟨"Cannot resolve import: " ++ text, ?_⟩
      show "Cannot resolve import: " ++ cause.message = _
      rw [ends, String.append_assoc]
  | unknownRoot | rootDeclared | noScope | noChild | noHolder => cases h

theorem ScopeError.Blames.pointsAt {e : ScopeError} (h : e.Blames loc) : e.report.PointsAt loc := by
  have ends := h.message_ends
  cases e with
  | alreadyDefined | alreadyBound | aboveRoot | throughAlias | unknownMacro | notMacro =>
      cases h
      exact ⟨.inr (.inl rfl), rfl, ends⟩
  | badImport =>
      obtain ⟨rfl, -⟩ := h
      exact ⟨.inr (.inl rfl), rfl, ends⟩
  | unknownRoot | rootDeclared | noScope | noChild | noHolder => cases h

/-- The error is one about a reference that stands at `loc`. -/
def ExpansionError.Blames (loc : Location) : ExpansionError → Prop
  | scope e => e.Blames loc
  | cyclic _ place => place = loc
  | definition .. | use .. | count _ => False

theorem ExpansionError.Blames.pointsAt {e : ExpansionError} (h : e.Blames loc) :
    e.report.PointsAt loc := by
  cases e with
  | scope e => exact ScopeError.Blames.pointsAt h
  | cyclic chain place =>
      cases h
      exact Report.pointsAt_located _ (.inr (.inr rfl))
  | definition | use | count => cases h

end

/-- A count without an item, or a token of an unknown type. -/
def ItemError.Internal : ItemError → Prop
  | nothingToCount | unknownToken .. => True
  | _ => False

/-- A scope that is not there, or an import without its macro. -/
def ScopeError.Internal : ScopeError → Prop
  | noScope | noChild _ | noHolder => True
  | badImport cause _ => cause.Internal
  | _ => False

/-- A definition or an import that no scope has taken up, or a count without a value. -/
def ExpansionError.Internal : ExpansionError → Prop
  | scope e => e.Internal
  | cyclic .. => False
  | definition .. | use .. | count _ => True

/-- An error that is no fault of a text. -/
def BuildError.Internal : BuildError → Prop
  | read (.token _) => False
  | read (.item e) => e.Internal
  | scope e => e.Internal
  | expansion e => e.Internal
  | brackets e => e = .originMissing

theorem ScopeError.Blames.not_internal {e : ScopeError} {loc : Location} (h : e.Blames loc) :
    ¬ e.Internal := by
  induction e with
  | badImport cause place ih => exact ih h.2
  | noScope | noChild | noHolder => cases h
  | _ => exact id

theorem ExpansionError.Blames.not_internal {e : ExpansionError} {loc : Location} (h : e.Blames loc) :
    ¬ e.Internal := by
  cases e with
  | scope e => exact ScopeError.Blames.not_internal h
  | cyclic => exact id
  | definition | use | count => cases h

namespace Expansion

theorem bodyCode_error {kind : Token → Prop} {t : ScopeTree} {chain : List Nat} {n : Nat}
    {e : ExpansionError} (h : t.Arena) (fit : t.Every Scope.Expandable)
    (made : t.Every (Scope.Stores (Item.Made kind))) (inside : n < t.size)
    (under : ∀ m ∈ chain, m < t.size) (failed : bodyCode t chain n = .error e) :
    ∃ value loc, kind ⟨value, loc⟩ ∧ e.Blames loc := by
  induction chain, n using chain_induction (t := t) with
  | step chain n ih =>
      rw [bodyCode_eq] at failed
      obtain ⟨ref, there, failed⟩ := Item.look_error_of_codes (fit.stores_itemsOf n) failed
      obtain ⟨item, member, deep⟩ := Item.mem_refsOf_iff.mp there
      have known := (made.stores_itemsOf n item member).ref_known ref deep
      unfold refCode at failed
      split at failed
      · next unfound =>
          cases failed
          exact ⟨_, ref.loc, known, h.find_error inside unfound⟩
      · next m found =>
          have below := ScopeTree.find_lt found
          split at failed
          · rw [cycle_eq under below] at failed
            cases failed
            exact ⟨_, ref.loc, known, rfl⟩
          · next fresh =>
              refine ih m ⟨ref, there, found⟩ fresh below (fun k on => ?_) failed
              obtain on | same := List.mem_append.mp on
              · exact under k on
              · exact List.mem_singleton.mp same ▸ below

end Expansion

namespace ScopeTree

variable {t : ScopeTree} {dialect : Dialect} {root : String} {s : Source}

theorem Arena.load (h : t.Arena) : (t.load dialect root s).1.Arena := by
  cases parsed : Item.parse dialect s.file s.text with
  | error e =>
      rw [load_of_parse_error parsed]
      exact h
  | ok items =>
      rw [load_of_parse parsed]
      exact h.of_build root items

theorem Grown.load (up : t.Upright) : Grown t (t.load dialect root s).1 (some root) := by
  cases parsed : Item.parse dialect s.file s.text with
  | error e =>
      rw [load_of_parse_error parsed]
      exact .refl up
  | ok items =>
      rw [load_of_parse parsed]
      exact .of_build up root items

theorem rootIndex?_of_load (up : t.Upright) (done : (t.load dialect root s).2 = .ok ()) :
    (t.load dialect root s).1.rootIndex? root = some t.size := by
  cases parsed : Item.parse dialect s.file s.text with
  | error e =>
      rw [load_of_parse_error parsed] at done
      cases done
  | ok items =>
      rw [load_of_parse parsed] at done ⊢
      cases built : (t.build root items).2 with
      | error e =>
          rw [built] at done
          cases done
      | ok => exact rootIndex?_of_build up built

end ScopeTree

namespace Build

variable {r : Recipe} {t : ScopeTree}

theorem arena_libraryTree (made : libraryTree r = .ok t) : t.Arena :=
  libraryTree_induction .empty (fun _ _ _ _ old => old.load) made

/-- A library does not take the root of the text, if that is called otherwise. -/
theorem rootIndex?_libraryTree (distinct : r.root ≠ r.libraryRoot) (made : libraryTree r = .ok t) :
    t.rootIndex? r.root = none := by
  obtain ⟨-, rfl⟩ | ⟨s, -, loaded⟩ := libraryTree_eq_ok_iff.mp made
  · rfl
  · have grown : ScopeTree.Grown .empty (ScopeTree.empty.load r.dialect r.libraryRoot s).1
        (some r.libraryRoot) := .load .empty
    rw [loaded] at grown
    exact grown.roots fun same => distinct (Option.some.inj same).symm

theorem arena_treeOf (made : treeOf r = .ok t) : t.Arena :=
  treeOf_induction .empty (fun _ _ _ _ old => old.load) made

theorem loaded_treeOf (made : treeOf r = .ok t) : t.Loaded :=
  treeOf_induction .empty (fun _ _ _ _ old => old.load _ _ _) made

theorem rootIndex?_treeOf (made : treeOf r = .ok t) : ∃ n, t.rootIndex? r.root = some n := by
  obtain ⟨t₀, library, loaded⟩ := treeOf_eq_ok_iff.mp made
  have found := ScopeTree.rootIndex?_of_load (arena_libraryTree library).upright
    (congrArg Prod.snd loaded)
  rw [loaded] at found
  exact ⟨_, found⟩

end Build

/-- The position is one of the texts. -/
def Recipe.Covers (r : Recipe) (loc : Location) : Prop := ∃ s ∈ r.sources, s.Covers loc

theorem Recipe.Holds.covers {r : Recipe} {token : Token} (h : r.Holds token) : r.Covers token.loc := by
  obtain ⟨s, there, held⟩ := h
  exact ⟨s, there, Source.covers_of_placed held.placed⟩

namespace BuildError

variable {r : Recipe}

/-- The report points into one of the texts, and a text can be at fault. -/
def Sound (r : Recipe) (e : BuildError) : Prop :=
  (∃ loc, e.report.PointsAt loc ∧ r.Covers loc) ∧ ¬ e.Internal

theorem sound_read {s : Source} (there : s ∈ r.sources) {e : ReadError}
    (failed : Item.parse r.dialect s.file s.text = .error e) : Sound r (.read e) := by
  cases e with
  | token e =>
      have located := Token.located_tokens r.dialect s.file s.text
      rw [Item.tokens_of_parse failed] at located
      exact ⟨⟨e.loc, e.pointsAt, s, there, Source.covers_of_reaches located⟩, id⟩
  | item e =>
      have blamed : e.Blames r.Holds := Item.blames_of_parse failed
        fun tokens scanned token inside => ⟨s, there, tokens, scanned, inside⟩
      obtain ⟨value, loc, held, points⟩ := blamed.pointsAt
      refine ⟨⟨loc, points, held.covers⟩, fun internal => ?_⟩
      cases e with
      | nothingToCount => cases blamed
      | unknownToken type loc =>
          obtain ⟨s', -, held⟩ := blamed
          obtain ⟨_, -, opens⟩ := Source.charAt?_of_placed held.placed
          cases opens
      | _ => cases internal

theorem sound_scope {e : ScopeError} (blamed : ∃ value loc, r.Holds ⟨value, loc⟩ ∧ e.Blames loc) :
    Sound r (.scope e) := by
  obtain ⟨value, loc, held, blames⟩ := blamed
  exact ⟨⟨loc, blames.pointsAt, held.covers⟩, blames.not_internal⟩

theorem sound_expansion {e : ExpansionError}
    (blamed : ∃ value loc, r.Holds ⟨value, loc⟩ ∧ e.Blames loc) : Sound r (.expansion e) := by
  obtain ⟨value, loc, held, blames⟩ := blamed
  exact ⟨⟨loc, blames.pointsAt, held.covers⟩, blames.not_internal⟩

theorem sound_brackets {code : Code} {e : BracketError} (known : Code.From r.Holds code)
    (failed : code.link = .error e) : Sound r (.brackets e) := by
  obtain ⟨loc, ⟨rfl, held⟩ | ⟨rfl, held⟩⟩ := known.link_error failed
  · exact ⟨⟨loc, ⟨.inr (.inr rfl), rfl, _, rfl⟩, held.covers⟩, BracketError.noConfusion⟩
  · exact ⟨⟨loc, ⟨.inr (.inr rfl), rfl, _, rfl⟩, held.covers⟩, BracketError.noConfusion⟩

end BuildError

namespace Build

variable {r : Recipe} {t : ScopeTree} {e : BuildError}

theorem sound_load {root : String} {s : Source} (h : t.Arena) (fresh : t.rootIndex? root = none)
    (there : s ∈ r.sources) (failed : (t.load r.dialect root s).2 = .error e) : e.Sound r := by
  obtain ⟨e', rfl, unread⟩ | ⟨items, e', rfl, parsed, unbuilt⟩ := ScopeTree.load_error failed
  · exact BuildError.sound_read there unread
  · refine BuildError.sound_scope (h.build_error fresh (fun item member => ?_) unbuilt)
    exact (Item.made_of_parse parsed
      (fun tokens scanned token inside => ⟨s, there, tokens, scanned, inside⟩) item member).2

theorem sound_treeOf (distinct : r.root ≠ r.libraryRoot) (failed : treeOf r = .error e) :
    e.Sound r := by
  obtain failed | ⟨t₀, library, failed⟩ := treeOf_eq_error_iff.mp failed
  · obtain ⟨s, given, failed⟩ := libraryTree_eq_error_iff.mp failed
    exact sound_load .empty rfl (Recipe.library_mem given) failed
  · exact sound_load (arena_libraryTree library) (rootIndex?_libraryTree distinct library) r.source_mem
      failed

/-- Where no program is made, the report is one of the language, with a position of one
of the texts, and no step has met with what only a fault of its own could have caused. -/
theorem failure_points_into_text (r : Recipe) (distinct : r.root ≠ r.libraryRoot) {e : BuildError}
    (failed : ofRecipe r = .error e) :
    (∃ loc, e.report.PointsAt loc ∧ ∃ s ∈ r.sources, s.Covers loc) ∧ ¬ e.Internal := by
  have stage := stage r
  rw [failed] at stage
  cases stage with
  | tree unmade => exact sound_treeOf distinct unmade
  | root made missing =>
      obtain ⟨n, known⟩ := rootIndex?_treeOf made
      simp only [ScopeTree.root, known, reduceCtorEq] at missing
  | code made found unexpanded =>
      have arena := arena_treeOf made
      have inside := (arena.root.mp (ScopeTree.root_eq_ok_iff.mp found)).lt_size
      rw [Expansion.scopeCode_eq] at unexpanded
      exact BuildError.sound_expansion (Expansion.bodyCode_error arena (loaded_treeOf made).expandable
        (made_treeOf made) inside (fun _ none => by cases none) unexpanded)
  | link made _ expanded unlinked =>
      exact BuildError.sound_brackets (from_scopeCode made expanded) unlinked

/-- A text that imports, on its second line, what its library does not define. -/
def missing : Recipe :=
  ⟨⟨"m", "+\nuse #lib/z"⟩, "main", some ⟨"l", ":a\x7b\x7d"⟩, "lib", .extended⟩

theorem failure_points_into_text_missing :
    missing.root ≠ missing.libraryRoot ∧
      ∃ e, ofRecipe missing = .error e ∧
        e.report = ⟨.scope, "Cannot resolve import: Unknown macro 'z' in scope 'lib' " ++
          "(path 'use #lib/z') at m:2:1", some (.source ⟨"m", 2, 1⟩)⟩ ∧
        (∃ loc, e.report.PointsAt loc ∧ ∃ s ∈ missing.sources, s.Covers loc) ∧ ¬ e.Internal := by
  have distinct : missing.root ≠ missing.libraryRoot := by decide
  have failed : ofRecipe missing = .error (.scope
      (.badImport (.unknownMacro "z" "lib" "use #lib/z" ⟨"m", 2, 1⟩) ⟨"m", 2, 1⟩)) := by
    decide +kernel
  exact ⟨distinct, _, failed, by decide +kernel, failure_points_into_text missing distinct failed⟩

end Build

end ByteTape
