import ByteTape.Proofs.Bracket.Blame
import ByteTape.Proofs.Build.Rendering

/-! # The plain language inside the extended one

In the plain language a text is a program with remarks: the eight operations count, and
everything else is passed over, also what would be a macro, a count or a string. Without its
remarks the text is one of the extended language, and there it makes the same program. Where a
bracket has no partner, both report that bracket, each at its own place.
-/

namespace ByteTape

namespace Op

/-- One of the eight characters that count in every language. -/
def isPrimitive (c : Char) : Bool := (ofPrimitive? c).isSome

theorem value_of_ofPrimitive? {c : Char} {o : Op} (h : ofPrimitive? c = some o) : o.value = .op o := by
  cases o with
  | debug =>
      obtain rfl := Token.symbol_of_ofPrimitive? h
      cases h
  | _ => rfl

theorem filter_isPrimitive (text : List Char) :
    text.filter isPrimitive = (text.filterMap ofPrimitive?).map symbol := by
  induction text with
  | nil => rfl
  | cons c text ih =>
      cases found : ofPrimitive? c with
      | none => simp [isPrimitive, found, ih]
      | some o => simp [isPrimitive, found, ih, Token.symbol_of_ofPrimitive? found]

theorem after_symbols (loc : Location) (ops : List Op) :
    loc.after (ops.map symbol) = ⟨loc.file, loc.line, loc.column + ops.length⟩ := by
  induction ops generalizing loc with
  | nil => simp
  | cons o ops ih =>
      have place : loc.column + 1 + (ops.length : Int) = loc.column + ((o :: ops).length : Int) := by
        rw [List.length_cons, Int.natCast_succ]
        omega
      rw [List.map_cons, Location.after_cons, next_symbol, ih, place]

end Op

namespace Code

/-- The operations of a text that begins at `loc`, each at its place. -/
def picked (loc : Location) : List Char → Code
  | [] => []
  | c :: text =>
    match Op.ofPrimitive? c with
    | some o => (o, loc) :: picked (loc.next c) text
    | none => picked (loc.next c) text

theorem map_fst_picked (loc : Location) (text : List Char) :
    (picked loc text).map Prod.fst = text.filterMap Op.ofPrimitive? := by
  fun_induction picked loc text with
  | case1 => rfl
  | case2 loc c text o found ih => rw [List.map_cons, ih, List.filterMap_cons_some found]
  | case3 loc c text other ih => rw [ih, List.filterMap_cons_none other]

/-- An operation stands behind as many others as there are in the text before it. -/
theorem exists_of_getElem?_picked {loc place : Location} {text : List Char} {i : Nat} {o : Op}
    (here : (picked loc text)[i]? = some (o, place)) :
    ∃ front back, text = front ++ o.symbol :: back ∧
      (front.filterMap Op.ofPrimitive?).length = i ∧ place = loc.after front := by
  fun_induction picked loc text generalizing i with
  | case1 => cases here
  | case2 loc c text o' found ih =>
      cases i with
      | zero =>
          cases here
          rw [← Token.symbol_of_ofPrimitive? found]
          exact ⟨[], text, rfl, rfl, rfl⟩
      | succ i =>
          obtain ⟨front, back, rfl, count, rfl⟩ := ih here
          refine ⟨c :: front, back, rfl, ?_, rfl⟩
          rw [List.filterMap_cons_some found, List.length_cons, count]
  | case3 loc c text other ih =>
      obtain ⟨front, back, rfl, count, rfl⟩ := ih here
      refine ⟨c :: front, back, rfl, ?_, rfl⟩
      rw [List.filterMap_cons_none other, count]

example : picked (.start "m") ['x', '[', '\n', '2', ']'] =
    [(.loopOpen, ⟨"m", 1, 2⟩), (.loopClose, ⟨"m", 2, 2⟩)] := by
  decide

end Code

theorem Token.scanOpsFrom_eq (loc : Location) (text : List Char) :
    scanOpsFrom loc text = (Code.picked loc text).tokens := by
  fun_induction Code.picked loc text with
  | case1 => rfl
  | case2 loc c text o found ih =>
      simp only [scanOpsFrom, found, ih]
      rw [← Op.value_of_ofPrimitive? found]
      rfl
  | case3 loc c text other ih => rw [scanOpsFrom, other, ih]

theorem Item.parse_plain (file text : String) :
    parse .plain file text = .ok (Code.picked (.start file) text.toList).items := by
  simp only [parse, tokens, Token.scanOps, Token.scanOpsFrom_eq, ofTokens, readFrom_tokens,
    List.reverse_nil, List.nil_append]

theorem Unmatched.Stands.getElem? {u : Unmatched} {ops : List Op} (h : u.Stands ops) :
    ops[u.index]? = some u.op := by
  cases h with
  | closing b back => simp [index, op, Block.length]
  | opening outer c b => simp [index, op, Block.nest]

theorem Code.link_of_paired {code : Code} {ops : List Op} {pairs : List (Nat × Nat)}
    (spelled : code.map Prod.fst = ops) (paired : pairBrackets 0 [] [] ops = .ok pairs) :
    ∃ origins, link code =
      .ok ⟨(ops.zipWith Instr.mk (partners ops.length pairs).toList).toArray, origins⟩ := by
  rw [link, Program.ofOps, spelled, paired]
  exact ⟨_, rfl⟩

/-- A text alone, to be made in the plain language. -/
def Recipe.plain (file root text : String) : Recipe := ⟨⟨file, text⟩, root, none, "std", .plain⟩

namespace Build

/-- Every text can be read in the plain language. It makes the program that its operations alone
make in the extended language, with the same instructions. Or else one bracket is blamed, and it
is blamed in both: where it stands in the text, and where it stands among the operations. -/
theorem plain_agrees_extended (file root text : String) :
    (∃ items, Item.parse .plain file text = .ok items) ∧
    ((∃ b b', ofRecipe (.plain file root text) = .ok b ∧
        ofRecipe (.ofText file root (String.ofList (text.toList.filter Op.isPrimitive))) = .ok b' ∧
        b.program.instrs = b'.program.instrs ∧
        b.program.ops = text.toList.filterMap Op.ofPrimitive?) ∨
      ∃ (u : Unmatched) (front back : List Char), text.toList = front ++ u.op.symbol :: back ∧
        u.Blamed (text.toList.filterMap Op.ofPrimitive?) ∧
        u.index = (front.filterMap Op.ofPrimitive?).length ∧
        ofRecipe (.plain file root text) =
          .error (.brackets (u.error (.source ((Location.start file).after front)))) ∧
        ofRecipe (.ofText file root (String.ofList (text.toList.filter Op.isPrimitive))) =
          .error (.brackets (u.error
            (.source ((Location.start file).after (front.filter Op.isPrimitive)))))) := by
  let ops := text.toList.filterMap Op.ofPrimitive?
  let code := Code.picked (.start file) text.toList
  let code' := Code.written (.start file) ops
  have same : code.map Prod.fst = ops := Code.map_fst_picked _ _
  have same' : code'.map Prod.fst = ops := Code.map_fst_written _ _
  have parsed := Item.parse_plain file text
  have made := ofRecipe_of_items (r := .plain file root text) rfl parsed
  have made' := ofRecipe_of_items (r := .ofText file root _) rfl (Item.parse_symbols file ops)
  rw [← Op.filter_isPrimitive] at made'
  refine ⟨⟨_, parsed⟩, ?_⟩
  cases paired : pairBrackets 0 [] [] ops with
  | ok pairs =>
      left
      obtain ⟨origins, linked⟩ := Code.link_of_paired same paired
      obtain ⟨origins', linked'⟩ := Code.link_of_paired same' paired
      rw [linked] at made
      rw [linked'] at made'
      exact ⟨_, _, made, made', rfl, (Code.ops_of_link linked).trans same⟩
  | error u =>
      right
      have stands : u.Stands ops := stands_of_pairBrackets [] .done [] ops paired
      obtain ⟨⟨o, loc⟩, here, rfl⟩ : ∃ c, code[u.index]? = some c ∧ c.1 = u.op := by
        rw [← Option.map_eq_some_iff, ← List.getElem?_map, same]
        exact stands.getElem?
      obtain ⟨front, back, split, index, rfl⟩ := Code.exists_of_getElem?_picked here
      have here' : code'[u.index]? =
          some (u.op, (Location.start file).after (front.filter Op.isPrimitive)) := by
        rw [Op.filter_isPrimitive, Op.after_symbols, index]
        exact (Code.getElem?_written ..).trans (by rw [stands.getElem?]; rfl)
      rw [Code.link_of_unmatched same paired here] at made
      rw [Code.link_of_unmatched same' paired here'] at made'
      exact ⟨u, front, back, split, stands.blamed, index.symm, made, made'⟩

end Build

end ByteTape
