import ByteTape.Patch.Segment

/-! # Patches

Segments are gathered in hunks: stretches with changes, with up to three shared
operations before and behind them. A patch shows each hunk with its ranges.
-/

namespace ByteTape.Patch

/-- A stretch with changes, and where it begins in both sequences. -/
structure Hunk where
  i : Nat
  j : Nat
  segments : List Segment

namespace Hunk

def before (h : Hunk) : List Op := h.segments.flatMap Segment.before

def after (h : Hunk) : List Op := h.segments.flatMap Segment.after

end Hunk

/-- The number of shared operations shown around a change. -/
def context : Nat := 3

/-- The last operations of a shared segment at the front. -/
def trimFront : List Segment → List Segment
  | .keep ops :: rest => .keep (ops.drop (ops.length - context)) :: rest
  | list => list

/-- The first operations of a shared segment at the end. -/
def trimBack : List Segment → List Segment
  | [] => []
  | [.keep ops] => [.keep (ops.take context)]
  | segment :: rest => segment :: trimBack rest

/-- Nothing, or nothing but a shared segment. -/
def unchanged : List Segment → Bool
  | [] | [.keep _] => true
  | _ => false

/-- Gather segments in hunks. `i` and `j` are the places reached; the hunk that
is being gathered begins at `start`, and `done` are its segments, last first. A
long shared segment ends one hunk and begins the next. -/
def gather (i j : Nat) (start : Nat × Nat) (done : List Segment) : List Segment → List Hunk
  | [] => if unchanged done then [] else [⟨start.1, start.2, done.reverse⟩]
  | .keep ops :: rest =>
    let n := ops.length
    if 2 * context < n then
      ⟨start.1, start.2, (.keep (ops.take context) :: done).reverse⟩ ::
        gather (i + n) (j + n) (i + n - context, j + n - context)
          [.keep (ops.drop (n - context))] rest
    else gather (i + n) (j + n) start (.keep ops :: done) rest
  | .change removed added :: rest =>
    gather (i + removed.length) (j + added.length) start (.change removed added :: done) rest

/-- The number of operations that trimming takes from the front. -/
def skipped : List Segment → Nat
  | .keep ops :: _ => ops.length - context
  | _ => 0

/-- The hunks of a list of segments. -/
def hunks (list : List Segment) : List Hunk :=
  let n := skipped list
  gather n n (n, n) [] (trimBack (trimFront list))

/-- The text of a range that begins at `start` and holds `size` operations. -/
def range (start size : Nat) : String :=
  if size = 1 then s!"{start + 1}"
  else if size = 0 then s!"{start},{size}"
  else s!"{start + 1},{size}"

def Segment.lines : Segment → List String
  | keep ops => ops.map fun op => " " ++ op.name
  | change removed added =>
    removed.map (fun op => "-" ++ op.name) ++ added.map fun op => "+" ++ op.name

def Hunk.lines (h : Hunk) : List String :=
  let old := range h.i h.before.length
  let new := range h.j h.after.length
  s!"@@ -{old} +{new} @@" :: h.segments.flatMap Segment.lines

/-- The patch from one sequence of operations to another, one line an operation. -/
def lines (a b : List Op) (labelA labelB : String) : List String :=
  match hunks (segments a b) with
  | [] => []
  | list => s!"--- {labelA}" :: s!"+++ {labelB}" :: list.flatMap Hunk.lines

end ByteTape.Patch
