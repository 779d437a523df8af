import ByteTape.Op
import ByteTape.Report

/-! # Programs

A program is a sequence of operations whose brackets are matched: every loop
bracket knows the index of its partner. Jump targets are never given by hand,
they are found by `Program.ofOps`.
-/

namespace ByteTape

/-- One instruction; only a loop bracket has a target, the index of its partner. -/
structure Instr where
  op : Op
  target : Option Nat
deriving DecidableEq

namespace Instr

/-- The name of the operation, with the target if there is one. -/
def render (i : Instr) : String :=
  match i.target with
  | none => i.op.name
  | some target => s!"{i.op.name}->{target}"

end Instr

/-- A bracket without a partner. -/
inductive Unmatched where
  /-- A close at this index that no open precedes. -/
  | closing (index : Nat)
  /-- An open at this index that no close follows. -/
  | opening (index : Nat)
deriving DecidableEq

/-- Pair the brackets of `ops`, the first of which has index `i`. The stack holds
the opens that wait for a close, innermost first; `done` the pairs found so far. -/
def pairBrackets (i : Nat) (stack : List Nat) (done : List (Nat × Nat)) :
    List Op → Except Unmatched (List (Nat × Nat))
  | [] =>
    match stack with
    | [] => .ok done
    | j :: _ => .error (.opening j)
  | op :: ops =>
    match op with
    | .loopOpen => pairBrackets (i + 1) (i :: stack) done ops
    | .loopClose =>
      match stack with
      | [] => .error (.closing i)
      | j :: stack => pairBrackets (i + 1) stack ((j, i) :: done) ops
    | _ => pairBrackets (i + 1) stack done ops

/-- For each of `size` indices the partner it has in `pairs`, if any. -/
def partners (size : Nat) (pairs : List (Nat × Nat)) : Array (Option Nat) :=
  pairs.foldl
    (fun table pair => (table.setIfInBounds pair.1 (some pair.2)).setIfInBounds pair.2 (some pair.1))
    (Array.replicate size none)

/-- A linked sequence of instructions. `origins` says where each came from; a
program made without that knowledge has none. -/
structure Program where
  instrs : Array Instr
  origins : Option (Array (Option Place))
deriving DecidableEq

/-- Why a sequence of operations is no program. -/
inductive BracketError where
  | closing (place : Place)
  | opening (place : Place)
  /-- The bracket lies past the end of the origins that were given. -/
  | originMissing
deriving DecidableEq

/-- The report of a bracket error, of the kind that its reader announces. -/
def BracketError.report (kind : Report.Kind) : BracketError → Report
  | closing place => ⟨kind, s!"Unmatched ']' at {place.render}", some place⟩
  | opening place => ⟨kind, s!"Unmatched '[' at {place.render}", some place⟩
  | originMissing => .bare .range "list index out of range"

namespace Program

/-- The place blamed for the bracket at an index. -/
def blame (origins : Option (Array (Option Place))) (index : Nat) (cause : Place → BracketError) :
    BracketError :=
  match origins with
  | none => cause (.instruction index)
  | some known =>
    match known[index]? with
    | none => .originMissing
    | some none => cause (.instruction index)
    | some (some place) => cause place

/-- Match the brackets of a sequence of operations. The first close without an
open is blamed; without one, the innermost open that is never closed. -/
def ofOps (ops : List Op) (origins : Option (Array (Option Place))) : Except BracketError Program :=
  match pairBrackets 0 [] [] ops with
  | .error (.closing i) => .error (blame origins i .closing)
  | .error (.opening i) => .error (blame origins i .opening)
  | .ok pairs =>
    let table := partners ops.length pairs
    .ok ⟨(ops.zipWith Instr.mk table.toList).toArray, origins⟩

def size (p : Program) : Nat := p.instrs.size

def ops (p : Program) : List Op := p.instrs.toList.map Instr.op

/-- Where an instruction came from. -/
def origin (p : Program) (index : Int) : Place :=
  if index < 0 then .instruction index
  else
    match p.origins with
    | none => .instruction index
    | some known => (known[index.toNat]?.getD none).getD (.instruction index)

/-- The indices that have a target, each with it, in order. -/
def targets (p : Program) : List (Nat × Nat) :=
  p.instrs.toList.zipIdx.filterMap fun (i, index) => i.target.map (index, ·)

/-- The instruction at an index; a negative index counts from the end. -/
def at? (p : Program) (index : Int) : Option Instr :=
  if 0 ≤ index then p.instrs[index.toNat]?
  else if -(p.size : Int) ≤ index then p.instrs[(p.size + index).toNat]?
  else none

/-- The instruction at an index, or the report that there is none. -/
def instr (p : Program) (index : Int) : Except Report Instr :=
  match p.at? index with
  | some i => .ok i
  | none => .error (.bare .range "tuple index out of range")

/-- Match the brackets of operations given by their numbers. -/
def ofNumbers (kind : Report.Kind) (numbers : List Int) (origins : Option (Array (Option Place))) :
    Except Report Program :=
  match numbers.mapM Op.ofNumber with
  | .error n => .error (.bare .value s!"{n} is not a valid Op")
  | .ok ops =>
    match ofOps ops origins with
    | .error e => .error (e.report kind)
    | .ok p => .ok p

/-- The characters of the program, with or without its debug markers. -/
def render (p : Program) (withDebug : Bool) : String :=
  String.ofList ((p.ops.filter fun op => withDebug || op != .debug).map Op.symbol)

/-- Programs are the same when their instructions are, wherever those came from. -/
def same (p q : Program) : Bool := p.instrs == q.instrs

/-- A short description. -/
def summary (p : Program) : String := s!"<CompiledProgram {p.size} instrs>"

end Program

end ByteTape
