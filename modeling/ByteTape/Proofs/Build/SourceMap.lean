import ByteTape.Proofs.Expansion.Origins
import ByteTape.Proofs.Fallible
import ByteTape.Proofs.Token.Places

/-! # The source map

Every instruction of a program that is made from texts knows the position in one of
these texts that it comes from. There stands the character of its operation, or the
quote that opens a string it is part of. A bracket that is reported to have no partner
is that bracket where the report points.
-/

namespace ByteTape

/-- The token is one of this text. -/
def Source.Holds (s : Source) (dialect : Dialect) (token : Token) : Prop :=
  ∃ tokens, Item.tokens dialect s.file s.text = .ok tokens ∧ token ∈ tokens

theorem Source.Holds.placed {s : Source} {dialect : Dialect} {token : Token}
    (h : s.Holds dialect token) : token.Placed (.start s.file) s.text.toList := by
  obtain ⟨tokens, scanned, there⟩ := h
  have located := Token.located_tokens dialect s.file s.text
  rw [scanned] at located
  exact located token there

namespace Recipe

/-- The texts that a program is made from. -/
def sources (r : Recipe) : List Source := r.library.toList ++ [r.source]

/-- The token is one of the texts. -/
def Holds (r : Recipe) (token : Token) : Prop := ∃ s ∈ r.sources, s.Holds r.dialect token

theorem source_mem (r : Recipe) : r.source ∈ r.sources := by simp [sources]

theorem library_mem {r : Recipe} {s : Source} (given : r.library = some s) : s ∈ r.sources := by
  simp [sources, given]

end Recipe

namespace ScopeTree

variable {t : ScopeTree} {dialect : Dialect} {root : String} {s : Source}

theorem load_of_parse_error {e : ReadError} (failed : Item.parse dialect s.file s.text = .error e) :
    t.load dialect root s = (t, .error (.read e)) := by
  rw [load, failed]

theorem load_of_parse {items : List Item} (parsed : Item.parse dialect s.file s.text = .ok items) :
    t.load dialect root s = ((t.build root items).1, (t.build root items).2.mapError .scope) := by
  rcases built : t.build root items with ⟨t', e | ⟨⟩⟩ <;> simp only [load, parsed, built] <;> rfl

theorem load_eq_ok_iff {t' : ScopeTree} :
    t.load dialect root s = (t', .ok ()) ↔ ∃ items, Item.parse dialect s.file s.text = .ok items ∧
      t.build root items = (t', .ok ()) := by
  cases parsed : Item.parse dialect s.file s.text with
  | error e => simp [load, parsed]
  | ok items => rcases built : t.build root items with ⟨t₁, e | ⟨⟩⟩ <;> simp [load, parsed, built]

theorem load_error {e : BuildError} (failed : (t.load dialect root s).2 = .error e) :
    (∃ e', e = .read e' ∧ Item.parse dialect s.file s.text = .error e') ∨
      ∃ items e', e = .scope e' ∧ Item.parse dialect s.file s.text = .ok items ∧
        (t.build root items).2 = .error e' := by
  cases parsed : Item.parse dialect s.file s.text with
  | error e' =>
      rw [load_of_parse_error parsed] at failed
      cases failed
      exact .inl ⟨e', rfl, rfl⟩
  | ok items =>
      rw [load_of_parse parsed] at failed
      cases built : (t.build root items).2 with
      | error e' =>
          rw [built] at failed
          cases failed
          exact .inr ⟨items, e', rfl, rfl, built⟩
      | ok =>
          rw [built] at failed
          cases failed

theorem made_load {kind : Token → Prop} (made : t.Every (Scope.Stores (Item.Made kind)))
    (known : ∀ token, s.Holds dialect token → kind token) :
    (t.load dialect root s).1.Every (Scope.Stores (Item.Made kind)) := by
  cases parsed : Item.parse dialect s.file s.text with
  | error e =>
      rw [load_of_parse_error parsed]
      exact made
  | ok items =>
      rw [load_of_parse parsed]
      refine stores_build (Item.Made.sorts kind) made root fun item there => ?_
      exact (Item.made_of_parse parsed
        (fun tokens scanned token there => known token ⟨tokens, scanned, there⟩) item there).2

end ScopeTree

namespace Build

variable {r : Recipe} {t : ScopeTree}

/-- How far the making of a program gets. -/
inductive Stage (r : Recipe) : Except BuildError Build → Prop where
  | tree {e : BuildError} (failed : treeOf r = .error e) : Stage r (.error e)
  | root {t : ScopeTree} {e : ScopeError} (made : treeOf r = .ok t)
    (failed : t.root r.root = .error e) : Stage r (.error (.scope e))
  | code {t : ScopeTree} {n : Nat} {e : ExpansionError} (made : treeOf r = .ok t)
    (found : t.root r.root = .ok n) (failed : Expansion.scopeCode t n = .error e) :
    Stage r (.error (.expansion e))
  | link {t : ScopeTree} {n : Nat} {code : Code} {e : BracketError} (made : treeOf r = .ok t)
    (found : t.root r.root = .ok n) (expanded : Expansion.scopeCode t n = .ok code)
    (failed : Code.link code = .error e) : Stage r (.error (.brackets e))
  | done {t : ScopeTree} {n : Nat} {code : Code} {p : Program} (made : treeOf r = .ok t)
    (found : t.root r.root = .ok n) (expanded : Expansion.scopeCode t n = .ok code)
    (linked : Code.link code = .ok p) : Stage r (.ok ⟨t, p⟩)

theorem stage (r : Recipe) : Stage r (ofRecipe r) := by
  cases made : treeOf r with
  | error e =>
      simp only [ofRecipe, made]
      exact .tree made
  | ok t =>
      cases found : t.root r.root with
      | error e =>
          simp only [ofRecipe, made, ScopeTree.program, found]
          exact .root made found
      | ok n =>
          cases expanded : Expansion.scopeCode t n with
          | error e =>
              simp only [ofRecipe, made, ScopeTree.program, found, expanded]
              exact .code made found expanded
          | ok code =>
              cases linked : Code.link code with
              | error e =>
                  simp only [ofRecipe, made, ScopeTree.program, found, expanded, linked]
                  exact .link made found expanded linked
              | ok p =>
                  simp only [ofRecipe, made, ScopeTree.program, found, expanded, linked]
                  exact .done made found expanded linked

theorem ofRecipe_eq_ok_iff {b : Build} :
    ofRecipe r = .ok b ↔ treeOf r = .ok b.tree ∧ b.tree.program r.root = .ok b.program := by
  obtain ⟨tree, p⟩ := b
  unfold ofRecipe
  cases treeOf r with
  | error e => simp
  | ok t =>
      cases made : t.program r.root with
      | error e =>
          simp only [made, reduceCtorEq, Except.ok.injEq, false_iff, not_and]
          rintro rfl same
          cases made.symm.trans same
      | ok p' =>
          simp only [made, Except.ok.injEq, Build.mk.injEq]
          refine and_congr_right fun same => ?_
          rw [← same, made, Except.ok.injEq]

theorem treeOf_eq_ok_iff :
    treeOf r = .ok t ↔ ∃ t₀, libraryTree r = .ok t₀ ∧ t₀.load r.dialect r.root r.source = (t, .ok ()) := by
  unfold treeOf
  cases libraryTree r with
  | error e => simp
  | ok t₀ => rcases loaded : t₀.load r.dialect r.root r.source with ⟨t', e | ⟨⟩⟩ <;> simp [loaded]

theorem treeOf_eq_error_iff {e : BuildError} :
    treeOf r = .error e ↔ libraryTree r = .error e ∨
      ∃ t₀, libraryTree r = .ok t₀ ∧ (t₀.load r.dialect r.root r.source).2 = .error e := by
  unfold treeOf
  cases libraryTree r with
  | error e => simp
  | ok t₀ => rcases loaded : t₀.load r.dialect r.root r.source with ⟨t', e | ⟨⟩⟩ <;> simp [loaded]

theorem libraryTree_eq_ok_iff :
    libraryTree r = .ok t ↔ (r.library = none ∧ t = .empty) ∨
      ∃ s, r.library = some s ∧ ScopeTree.empty.load r.dialect r.libraryRoot s = (t, .ok ()) := by
  unfold libraryTree
  cases r.library with
  | none => simp [eq_comm]
  | some s =>
      rcases loaded : ScopeTree.empty.load r.dialect r.libraryRoot s with ⟨t', e | ⟨⟩⟩ <;> simp [loaded]

theorem libraryTree_eq_error_iff {e : BuildError} :
    libraryTree r = .error e ↔ ∃ s, r.library = some s ∧
      (ScopeTree.empty.load r.dialect r.libraryRoot s).2 = .error e := by
  unfold libraryTree
  cases r.library with
  | none => simp
  | some s =>
      rcases loaded : ScopeTree.empty.load r.dialect r.libraryRoot s with ⟨t', e | ⟨⟩⟩ <;> simp [loaded]

section
variable {kind : ScopeTree → Prop} (start : kind .empty)
  (step : ∀ (t : ScopeTree) (root : String), ∀ s ∈ r.sources, kind t →
    kind (t.load r.dialect root s).1)

include start step

/-- What loading keeps holds for the scopes of the library, and for those of the recipe. -/
theorem libraryTree_induction (made : libraryTree r = .ok t) : kind t := by
  obtain ⟨-, rfl⟩ | ⟨s, given, loaded⟩ := libraryTree_eq_ok_iff.mp made
  · exact start
  · have all := step _ r.libraryRoot s (Recipe.library_mem given) start
    rwa [loaded] at all

theorem treeOf_induction (made : treeOf r = .ok t) : kind t := by
  obtain ⟨t₀, library, loaded⟩ := treeOf_eq_ok_iff.mp made
  have all := step t₀ r.root r.source r.source_mem (libraryTree_induction start step library)
  rwa [loaded] at all

end

theorem made_treeOf (made : treeOf r = .ok t) : t.Every (Scope.Stores (Item.Made r.Holds)) := by
  refine treeOf_induction .empty (fun t root s there old => ?_) made
  exact ScopeTree.made_load old fun token held => ⟨s, there, held⟩

theorem from_scopeCode {n : Nat} {code : Code} (made : treeOf r = .ok t)
    (expanded : Expansion.scopeCode t n = .ok code) : Code.From r.Holds code := by
  rw [Expansion.scopeCode_eq] at expanded
  exact Expansion.bodyCode_from (made_treeOf made) expanded

theorem parse_of_treeOf {e : BuildError} (failed : treeOf r = .error e) :
    (∃ e', e = .read e' ∧ ∃ s ∈ r.sources, Item.parse r.dialect s.file s.text = .error e') ∨
      ∃ e', e = .scope e' := by
  have of_load {t : ScopeTree} {root : String} {s : Source} (there : s ∈ r.sources)
      (failed : (t.load r.dialect root s).2 = .error e) :
      (∃ e', e = .read e' ∧ ∃ s ∈ r.sources, Item.parse r.dialect s.file s.text = .error e') ∨
        ∃ e', e = .scope e' := by
    obtain ⟨e', same, failed⟩ | ⟨items, e', same, -⟩ := ScopeTree.load_error failed
    · exact .inl ⟨e', same, s, there, failed⟩
    · exact .inr ⟨e', same⟩
  obtain failed | ⟨t₀, -, failed⟩ := treeOf_eq_error_iff.mp failed
  · obtain ⟨s, given, failed⟩ := libraryTree_eq_error_iff.mp failed
    exact of_load (Recipe.library_mem given) failed
  · exact of_load r.source_mem failed

end Build

/-- The instruction at index `i` is one of those that a string at `loc` becomes, all
of which are there. -/
def Program.Spells (p : Program) (bytes : List UInt8) (loc : Location) (i : Nat) : Prop :=
  ∃ start, start ≤ i ∧ i < start + (textOps bytes).length ∧
    ∀ k o, (textOps bytes)[k]? = some o →
      p.ops[start + k]? = some o ∧ p.origin (start + k : Nat) = .source loc

theorem Code.Within.spells {code : Code} {bytes : List UInt8} {loc : Location} {i : Nat} {p : Program}
    (within : Within code bytes loc i) (linked : link code = .ok p) : p.Spells bytes loc i := by
  obtain ⟨front, back, rfl, lower, upper⟩ := within
  refine ⟨front.length, lower, upper, fun k o there => ?_⟩
  have inside : k < (textOps bytes).length := (List.getElem?_eq_some_iff.mp there).1
  have here : (front ++ ((textOps bytes).map (·, loc) ++ back))[front.length + k]? = some (o, loc) := by
    rw [List.getElem?_append_right (Nat.le_add_right _ _), Nat.add_sub_cancel_left,
      List.getElem?_append_left (by simpa using inside), List.getElem?_map, there]
    rfl
  refine ⟨?_, origin_of_link linked here⟩
  rw [ops_of_link linked, List.getElem?_map, here]
  rfl

/-- The bracket that is reported to have no partner, and where. -/
def BuildError.unmatched? : BuildError → Option (Char × Place)
  | .brackets (.closing place) => some (']', place)
  | .brackets (.opening place) => some ('[', place)
  | .read (.item (.groupEndLoose loc)) => some (')', .source loc)
  | .read (.item (.groupOpen loc)) => some ('(', .source loc)
  | _ => none

theorem BuildError.report_of_unmatched? {e : BuildError} {c : Char} {place : Place}
    (h : e.unmatched? = some (c, place)) :
    e.report = ⟨.expansion, s!"Unmatched '{c}' at {place.render}", some place⟩ := by
  unfold unmatched? at h
  split at h <;> cases h <;> rfl

theorem BuildError.unmatched?_ne_quote (e : BuildError) (place : Place) :
    e.unmatched? ≠ some ('\x22', place) := by
  unfold unmatched?
  split <;> simp

namespace Build

variable {r : Recipe}

/-- A bracket without a partner is that of a token. -/
theorem token_of_unmatched? {e : BuildError} {c : Char} {place : Place}
    (failed : ofRecipe r = .error e) (unmatched : e.unmatched? = some (c, place)) :
    ∃ value loc, place = .source loc ∧ r.Holds ⟨value, loc⟩ ∧ ∀ c', value.Opens c' → c' = c := by
  have stage := stage r
  rw [failed] at stage
  cases stage with
  | tree unmade =>
      obtain ⟨_ | e', rfl, s, there, unread⟩ | ⟨e', rfl⟩ := parse_of_treeOf unmade
      · cases unmatched
      · have blamed : e'.Blames r.Holds := Item.blames_of_parse unread
          fun tokens scanned token inside => ⟨s, there, tokens, scanned, inside⟩
        cases e' <;> cases unmatched <;> exact ⟨_, _, rfl, blamed, fun _ => id⟩
      · cases unmatched
  | root | code => cases unmatched
  | link made _ expanded unlinked =>
      obtain ⟨loc, ⟨rfl, token⟩ | ⟨rfl, token⟩⟩ := (from_scopeCode made expanded).link_error unlinked <;>
        cases unmatched <;> exact ⟨_, loc, rfl, token, fun _ => Eq.symm⟩

/-- Every instruction comes from a position of one of the texts, at which its character
stands, or the quote of a string that it is part of. A bracket that is reported to have
no partner is a character of one of the texts, and not where a string begins. -/
theorem source_map_exact (r : Recipe) :
    (∀ b, ofRecipe r = .ok b → ∀ (i : Nat) instr, b.program.instrs[i]? = some instr →
      ∃ s ∈ r.sources, ∃ loc, b.program.origin i = .source loc ∧
        (s.charAt? loc = some instr.op.symbol ∨
          s.charAt? loc = some '\x22' ∧
            ∃ bytes, s.Holds r.dialect ⟨.text bytes, loc⟩ ∧ b.program.Spells bytes loc i)) ∧
    (∀ e, ofRecipe r = .error e → ∀ c place, e.unmatched? = some (c, place) →
      e.report = ⟨.expansion, s!"Unmatched '{c}' at {place.render}", some place⟩ ∧
        ∃ s ∈ r.sources, ∃ loc, place = .source loc ∧ s.charAt? loc = some c ∧
          ∀ bytes, ¬ s.Holds r.dialect ⟨.text bytes, loc⟩) := by
  constructor
  · intro b done i instr here
    have stage := stage r
    rw [done] at stage
    cases stage with
    | @done t n code p made found expanded linked =>
        have op : (code.map Prod.fst)[i]? = some instr.op := by
          rw [← Code.ops_of_link linked, Program.ops, List.getElem?_map, Array.getElem?_toList, here]
          rfl
        rw [List.getElem?_map] at op
        obtain ⟨⟨_, loc⟩, place, rfl⟩ := Option.map_eq_some_iff.mp op
        have origin := Code.origin_of_link linked place
        obtain ⟨s, there, held⟩ | ⟨marker, s, there, held⟩ | ⟨bytes, ⟨s, there, held⟩, within⟩ :=
          (from_scopeCode made expanded).origin place
        · obtain ⟨c, char, opens⟩ := Source.charAt?_of_placed held.placed
          exact ⟨s, there, loc, origin, .inl (opens ▸ char)⟩
        · obtain ⟨c, char, opens⟩ := Source.charAt?_of_placed held.placed
          cases opens
          exact ⟨s, there, loc, origin, .inl (by rw [marker]; exact char)⟩
        · obtain ⟨c, char, opens⟩ := Source.charAt?_of_placed held.placed
          cases opens
          exact ⟨s, there, loc, origin, .inr ⟨char, bytes, held, within.spells linked⟩⟩
  · intro e failed c place unmatched
    refine ⟨BuildError.report_of_unmatched? unmatched, ?_⟩
    obtain ⟨value, loc, rfl, ⟨s, there, held⟩, opens⟩ := token_of_unmatched? failed unmatched
    obtain ⟨c', char, opened⟩ := Source.charAt?_of_placed held.placed
    obtain rfl := opens c' opened
    refine ⟨s, there, loc, rfl, char, fun bytes literal => ?_⟩
    obtain ⟨quote, char', opened⟩ := Source.charAt?_of_placed literal.placed
    cases char'.symm.trans char
    cases opened
    exact BuildError.unmatched?_ne_quote _ _ unmatched

/-- A library with a macro that is a string, which a text includes twice. -/
def zeroing : Recipe :=
  ⟨⟨"m", "#lib/z2?"⟩, "main", some ⟨"l", ":z\x7b\x22\\0\x22\x7d"⟩, "lib", .extended⟩

/-- A text with a string and a loop that is not closed. -/
def unclosed : Recipe := ⟨⟨"m", "\x22\\0\x22["⟩, "main", none, "lib", .extended⟩

theorem source_map_exact_zeroing :
    (∃ b, ofRecipe zeroing = .ok b ∧ b.program.render true = "[-]>[-]>?" ∧
      ∃ s ∈ zeroing.sources, ∃ loc, b.program.origin (5 : Nat) = .source loc ∧
        (s.charAt? loc = some '-' ∨ s.charAt? loc = some '\x22' ∧
          ∃ bytes, s.Holds .extended ⟨.text bytes, loc⟩ ∧ b.program.Spells bytes loc 5)) ∧
    ofRecipe unclosed = .error (.brackets (.opening (.source ⟨"m", 1, 5⟩))) ∧
      ∃ s ∈ unclosed.sources, s.charAt? ⟨"m", 1, 5⟩ = some '[' ∧
        ∀ bytes, ¬ s.Holds .extended ⟨.text bytes, ⟨"m", 1, 5⟩⟩ := by
  have made : (ofRecipe zeroing).map (fun b => (b.program.render true, b.program.instrs[5]?)) =
      .ok ("[-]>[-]>?", some ⟨.decrement, none⟩) := by
    decide +kernel
  have failed : ofRecipe unclosed = .error (.brackets (.opening (.source ⟨"m", 1, 5⟩))) := by
    decide +kernel
  refine ⟨?_, failed, ?_⟩
  · obtain ⟨b, done, shown⟩ := map_eq_ok made
    obtain ⟨spelled, here⟩ := Prod.mk.inj shown
    exact ⟨b, done, spelled, (source_map_exact zeroing).1 b done 5 _ here⟩
  · obtain ⟨-, s, there, loc, same, char, apart⟩ := (source_map_exact unclosed).2 _ failed _ _ rfl
    cases same
    exact ⟨s, there, char, apart⟩

end Build

end ByteTape
