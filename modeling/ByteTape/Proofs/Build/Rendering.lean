import ByteTape.Proofs.Build.Copies
import ByteTape.Proofs.Build.SourceMap
import ByteTape.Proofs.Machine.Markers
import ByteTape.Proofs.Token.Spelling

/-! # Programs as texts

A program is printed as a single line, one character for each of its operations. The line
is a source text again, and it makes the program that was printed. Without its debug
markers the line makes another program, which does the same.
-/

namespace ByteTape

namespace Op

/-- The operation as a token says it. -/
def value : Op → Token.Value
  | .debug => .debug
  | o => .op o

def item (loc : Location) : Op → Item
  | .debug => .debug loc
  | o => .op o loc

theorem next_symbol (o : Op) (loc : Location) :
    loc.next o.symbol = ⟨loc.file, loc.line, loc.column + 1⟩ := by
  cases o <;> rfl

end Op

namespace Code

/-- The code of operations that are written one behind the other from `loc` on. -/
def written (loc : Location) : List Op → Code
  | [] => []
  | o :: ops => (o, loc) :: written (loc.next o.symbol) ops

def tokens (code : Code) : List Token := code.map fun c => ⟨c.1.value, c.2⟩

def items (code : Code) : List Item := code.map fun c => c.1.item c.2

theorem map_fst_written (loc : Location) (ops : List Op) : (written loc ops).map Prod.fst = ops := by
  induction ops generalizing loc with
  | nil => rfl
  | cons o ops ih => rw [written, List.map_cons, ih]

theorem getElem?_written (file : String) (line column : Int) (ops : List Op) (i : Nat) :
    (written ⟨file, line, column⟩ ops)[i]? = ops[i]?.map (·, ⟨file, line, column + i⟩) := by
  induction ops generalizing column i with
  | nil => rfl
  | cons o ops ih =>
      cases i with
      | zero => simp [written]
      | succ i =>
          have place : column + 1 + (i : Int) = column + ((i + 1 : Nat) : Int) := by omega
          rw [written, Op.next_symbol, List.getElem?_cons_succ, ih, List.getElem?_cons_succ, place]

end Code

namespace Token

theorem cut_symbol (loc : Location) (tight : Bool) (o : Op) (text : List Char) :
    cut loc tight o.symbol text = .ok ⟨o.value, [o.symbol], text⟩ := by
  cases o <;> cases tight <;> rfl

theorem scanFrom_symbols (ops : List Op) (loc : Location) (tight : Bool) :
    scanFrom loc tight (ops.map Op.symbol) = .ok (Code.written loc ops).tokens := by
  induction ops generalizing loc tight with
  | nil => exact scanFrom_nil loc tight
  | cons o ops ih =>
      have visible : ¬ Text.isBlank o.symbol := by cases o <;> decide
      have plain : o.symbol ≠ '%' := by cases o <;> decide
      rw [List.map_cons, scanFrom_cut visible plain (cut_symbol loc tight o _)]
      dsimp only
      rw [ih]
      rfl

end Token

namespace Item

theorem readFrom_tokens (code : Code) (before : List Item) :
    readFrom [] before code.tokens = .ok (before.reverse ++ code.items) := by
  induction code generalizing before with
  | nil =>
      rw [Code.items, List.map_nil, List.append_nil]
      rfl
  | cons c code ih =>
      obtain ⟨o, loc⟩ := c
      have step : readFrom [] before (Code.tokens ((o, loc) :: code)) =
          readFrom [] (o.item loc :: before) (Code.tokens code) := by
        cases o <;> rfl
      rw [step, ih, List.reverse_cons, List.append_assoc]
      rfl

theorem parse_symbols (file : String) (ops : List Op) :
    parse .extended file (String.ofList (ops.map Op.symbol)) =
      .ok (Code.written (.start file) ops).items := by
  have scanned : tokens .extended file (String.ofList (ops.map Op.symbol)) =
      .ok (Code.written (.start file) ops).tokens := by
    rw [tokens, Token.scan, String.toList_ofList, Token.scanFrom_symbols]
  simp only [parse, scanned, ofTokens, readFrom_tokens, List.reverse_nil, List.nil_append]

theorem codes_items (look : Reference → Except ExpansionError Code) (code : Code) :
    codes look code.items = .ok code := by
  induction code with
  | nil => rw [Code.items, List.map_nil, codes]
  | cons c code ih =>
      obtain ⟨o, loc⟩ := c
      have first : (o.item loc).code look = .ok [(o, loc)] := by
        cases o <;> simp [Op.item, Item.code]
      rw [Code.items] at ih ⊢
      simp only [List.map_cons, codes, first, ih, List.singleton_append]

end Item

namespace ScopeTree

theorem collects_items (t : ScopeTree) (n : Nat) (code : Code) :
    Collects t n code.items t code.items := by
  induction code with
  | nil => exact .nil t n
  | cons c code ih =>
      obtain ⟨o, loc⟩ := c
      have kind : (o.item loc).declares = false := by cases o <;> rfl
      exact .plain kind ih

theorem scopeCode_rooted (root : String) (code : Code) :
    Expansion.scopeCode ((rooted root).store 0 code.items) 0 = .ok code := by
  have stored : ((rooted root).store 0 code.items).itemsOf 0 = code.items := rfl
  rw [Expansion.scopeCode_eq, Expansion.bodyCode_eq, stored]
  exact Item.codes_items _ code

theorem program_rooted (root : String) (code : Code) :
    ((rooted root).store 0 code.items).program root = (Code.link code).mapError .brackets := by
  have known : ((rooted root).store 0 code.items).root root = .ok 0 := by
    simp [ScopeTree.root, rooted, rootIndex?, store, modify]
  rw [program, known]
  simp only [scopeCode_rooted]
  cases Code.link code <;> rfl

end ScopeTree

namespace Block

theorem render_program (b : Block) (origins : Option (Array (Option Place))) :
    Program.render ⟨(b.instrs 0).toArray, origins⟩ true = String.ofList (b.ops.map Op.symbol) := by
  simp [Program.render, Program.ops, b.map_op_instrs 0]

theorem render_program_unmarked (b : Block) (origins : Option (Array (Option Place))) :
    Program.render ⟨(b.instrs 0).toArray, origins⟩ false =
      String.ofList (b.unmarked.ops.map Op.symbol) := by
  simp [Program.render, Program.ops, b.map_op_instrs 0, b.ops_unmarked]

end Block

/-- A text alone, to be made in the extended language. -/
def Recipe.ofText (file root text : String) : Recipe := ⟨⟨file, text⟩, root, none, "std", .extended⟩

namespace Build

/-- Items that are operations and nothing else are already expanded. -/
theorem ofRecipe_of_items {r : Recipe} {code : Code} (alone : r.library = none)
    (parsed : Item.parse r.dialect r.source.file r.source.text = .ok code.items) :
    ofRecipe r = ((Code.link code).mapError .brackets).map
      (Build.mk ((ScopeTree.rooted r.root).store 0 code.items)) := by
  have made : treeOf r = .ok ((ScopeTree.rooted r.root).store 0 code.items) := by
    have built := ScopeTree.build_empty_eq_ok_iff.mpr
      ⟨_, _, ScopeTree.collects_items (.rooted r.root) 0 code, rfl⟩
    refine treeOf_eq_ok_iff.mpr ⟨.empty, libraryTree_eq_ok_iff.mpr (.inl ⟨alone, rfl⟩), ?_⟩
    exact ScopeTree.load_eq_ok_iff.mpr ⟨code.items, parsed, built⟩
  rw [ofRecipe, made]
  simp only [ScopeTree.program_rooted]
  cases Code.link code <;> rfl

theorem ofRecipe_symbols {file root : String} {ops : List Op} {p : Program}
    (linked : Code.link (.written (.start file) ops) = .ok p) :
    ∃ t, ofRecipe (.ofText file root (String.ofList (ops.map Op.symbol))) = .ok ⟨t, p⟩ := by
  have made := ofRecipe_of_items (r := .ofText file root _) rfl (Item.parse_symbols file ops)
  rw [linked] at made
  exact ⟨_, made⟩

/-- The line of a block makes the program of the block. -/
theorem exists_of_block (b : Block) (file root : String) :
    ∃ made, ofRecipe (.ofText file root (String.ofList (b.ops.map Op.symbol))) = .ok made ∧
      made.program.instrs = (b.instrs 0).toArray ∧
      ∀ i : Nat, i < b.length → made.program.origin i = .source ⟨file, 1, i + 1⟩ := by
  obtain ⟨p, linked, same⟩ : ∃ p, Code.link (.written (.start file) b.ops) = .ok p ∧
      p.instrs = (b.instrs 0).toArray := by
    rw [Code.link, Code.map_fst_written, b.ofOps_ops]
    exact ⟨_, rfl, rfl⟩
  obtain ⟨t, made⟩ := ofRecipe_symbols linked
  refine ⟨⟨t, p⟩, made, same, ?_⟩
  intro i inside
  have here : (Code.written (.start file) b.ops)[i]? =
      some (b.ops.get ⟨i, inside⟩, ⟨file, 1, 1 + i⟩) := by
    rw [Location.start, Code.getElem?_written, List.getElem?_eq_getElem inside]
    rfl
  have origin := Code.origin_of_link linked here
  rwa [Int.add_comm] at origin

/-- A printed program makes itself, with each instruction at its column of the line. So
nothing changes when what a recipe makes is printed and made again. -/
theorem render_fixed (file root : String) :
    (∀ ops origins p, Program.ofOps ops origins = .ok p →
      ∃ b, ofRecipe (.ofText file root (p.render true)) = .ok b ∧ b.program.instrs = p.instrs ∧
        ∀ i : Nat, i < p.size → b.program.origin i = .source ⟨file, 1, i + 1⟩) ∧
    ∀ r b, ofRecipe r = .ok b →
      ∃ b', ofRecipe (.ofText file root (b.program.render true)) = .ok b' ∧
        b'.program.instrs = b.program.instrs := by
  have again : ∀ ops origins p, Program.ofOps ops origins = .ok p →
      ∃ b, ofRecipe (.ofText file root (p.render true)) = .ok b ∧ b.program.instrs = p.instrs ∧
        ∀ i : Nat, i < p.size → b.program.origin i = .source ⟨file, 1, i + 1⟩ := by
    intro ops origins p linked
    obtain ⟨block, -, rfl⟩ := Block.exists_of_ofOps linked
    have size : Program.size ⟨(block.instrs 0).toArray, origins⟩ = block.length := by
      simp [Program.size]
    rw [block.render_program, size]
    exact exists_of_block block file root
  refine ⟨again, ?_⟩
  intro r b made
  obtain ⟨-, program⟩ := ofRecipe_eq_ok_iff.mp made
  obtain ⟨n, code, -, -, linked⟩ := ScopeTree.program_eq_ok_iff.mp program
  obtain ⟨b', made', same, -⟩ := again _ _ _ linked
  exact ⟨b', made', same⟩

/-- Echo the input up to a zero, and show the cells after each byte. -/
def markedEcho : List Op := [.input, .debug, .loopOpen, .output, .input, .debug, .loopClose]

def markedEchoProgram : Program :=
  ⟨#[⟨.input, none⟩, ⟨.debug, none⟩, ⟨.loopOpen, some 6⟩, ⟨.output, none⟩, ⟨.input, none⟩,
    ⟨.debug, none⟩, ⟨.loopClose, some 2⟩], none⟩

/-- A text that uses a macro of its library twice. -/
def doubling : Recipe := ⟨⟨"m", "#std/a2?"⟩, "src", some ⟨"l", ":a\x7b+\x7d"⟩, "std", .extended⟩

theorem render_fixed_doubling :
    (∃ b, ofRecipe (.ofText "x" "src" ",?[.,?]") = .ok b ∧
      b.program.instrs = markedEchoProgram.instrs ∧ b.program.origin (5 : Nat) = .source ⟨"x", 1, 6⟩) ∧
    ∃ b b', ofRecipe doubling = .ok b ∧ b.program.render true = "++?" ∧
      ofRecipe (.ofText "x" "src" "++?") = .ok b' ∧ b'.program.instrs = b.program.instrs := by
  obtain ⟨again, fixed⟩ := render_fixed "x" "src"
  constructor
  · have linked : Program.ofOps markedEcho none = .ok markedEchoProgram := rfl
    have printed : markedEchoProgram.render true = ",?[.,?]" := by decide +kernel
    obtain ⟨b, made, same, places⟩ := again _ _ _ linked
    rw [printed] at made
    exact ⟨b, made, same, places 5 (by decide)⟩
  · have printed : (ofRecipe doubling).map (fun b => b.program.render true) = .ok "++?" := by
      decide +kernel
    obtain ⟨b, made, line⟩ := map_eq_ok printed
    obtain ⟨b', made', same⟩ := fixed doubling b made
    rw [line] at made'
    exact ⟨b, b', made, line, made', same⟩

/-- A program that is printed without its markers does what it did with them. It halts on
the inputs on which the program halts, with the same memory, and it saves the steps of the
markers. It runs out of input where the program does. -/
theorem markers_unobserved {ops : List Op} {origins : Option (Array (Option Place))} {p : Program}
    (linked : Program.ofOps ops origins = .ok p) (file root : String) :
    ∃ b, ofRecipe (.ofText file root (p.render false)) = .ok b ∧
      ∀ (input : List UInt8) (s : Settings), s.budget = none →
        ((∃ fuel m, (Machine.start input).run p s fuel = (m, .halted)) ↔
          ∃ fuel m, (Machine.start input).run b.program s fuel = (m, .halted)) ∧
        (∀ fuel m fuel' m', (Machine.start input).run p s fuel = (m, .halted) →
          (Machine.start input).run b.program s fuel' = (m', .halted) →
          m.memory = m'.memory ∧
            m.steps = m'.steps + ((Machine.start input).carried p s fuel).count .debug) ∧
        ((∃ fuel m i place, (Machine.start input).run p s fuel = (m, .fault (.noInput i place))) ↔
          ∃ fuel m i place,
            (Machine.start input).run b.program s fuel = (m, .fault (.noInput i place))) ∧
        ∀ fuel m i place fuel' m' i' place',
          (Machine.start input).run p s fuel = (m, .fault (.noInput i place)) →
          (Machine.start input).run b.program s fuel' = (m', .fault (.noInput i' place')) →
          m.memory = m'.memory := by
  have paired := Program.paired_of_ofOps linked
  obtain ⟨block, -, rfl⟩ := Block.exists_of_ofOps linked
  obtain ⟨⟨t, instrs, origins'⟩, made, rfl, -⟩ := exists_of_block block.unmarked file root
  have unmarks := block.unmarks_program origins origins'
  have paired' := Program.paired_of_ofOps (block.unmarked.ofOps_ops origins')
  refine ⟨_, by rw [block.render_program_unmarked]; exact made, ?_⟩
  intro input s free
  refine ⟨unmarks.halts_iff paired paired' free input, ?_,
    unmarks.starves_iff paired paired' free input, ?_⟩
  · intro fuel m fuel' m' ends ends'
    exact (unmarks.agrees paired paired' free ends nofun ends' nofun).2
  · intro fuel m i place fuel' m' i' place' ends ends'
    exact (unmarks.agrees paired paired' free ends nofun ends' nofun).2.1

theorem markers_unobserved_echo :
    Program.ofOps markedEcho none = .ok markedEchoProgram ∧
      ∃ b, ofRecipe (.ofText "x" "src" ",[.,]") = .ok b ∧
        (∃ fuel m, (Machine.start [5]).run b.program ⟨.zero, false, none⟩ fuel = (m, .halted) ∧
          m.output = #[5] ∧ m.steps = 5) ∧
        ∃ fuel m i place, (Machine.start [5]).run b.program ⟨.fault, false, none⟩ fuel =
          (m, .fault (.noInput i place)) ∧ m.output = #[5] := by
  have linked : Program.ofOps markedEcho none = .ok markedEchoProgram := rfl
  have printed : markedEchoProgram.render false = ",[.,]" := by decide +kernel
  obtain ⟨b, made, does⟩ := markers_unobserved linked "x" "src"
  rw [printed] at made
  refine ⟨linked, b, made, ?_, ?_⟩
  · obtain ⟨halts, saves, -⟩ := does [5] ⟨.zero, false, none⟩ rfl
    have ends : (Machine.start [5]).run markedEchoProgram ⟨.zero, false, none⟩ 9 =
        (((Machine.start [5]).run markedEchoProgram ⟨.zero, false, none⟩ 9).1, .halted) :=
      Prod.ext rfl rfl
    obtain ⟨fuel, m, ends'⟩ := halts.mp ⟨_, _, ends⟩
    obtain ⟨memory, steps⟩ := saves _ _ _ _ ends ends'
    have counted : 7 = m.steps + 2 := steps
    have output : #[5] = m.output := congrArg Memory.output memory
    exact ⟨fuel, m, ends', output.symm, by omega⟩
  · obtain ⟨-, -, starves, keeps⟩ := does [5] ⟨.fault, false, none⟩ rfl
    have ends : (Machine.start [5]).run markedEchoProgram ⟨.fault, false, none⟩ 9 =
        (((Machine.start [5]).run markedEchoProgram ⟨.fault, false, none⟩ 9).1,
          .fault (.noInput 4 (.instruction 4))) :=
      Prod.ext rfl rfl
    obtain ⟨fuel, m, i, place, ends'⟩ := starves.mp ⟨_, _, _, _, ends⟩
    have memory := keeps _ _ _ _ _ _ _ _ ends ends'
    have output : #[5] = m.output := congrArg Memory.output memory
    exact ⟨fuel, m, i, place, ends', output.symm⟩

end Build

end ByteTape
