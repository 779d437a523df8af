import ByteTape.Patch.Block

/-! # Comparing sequences of operations

Two sequences are cut into segments that both share and segments that one has
in place of the other's. The longest shared block is looked for first, then
blocks on both sides of it.
-/

namespace ByteTape.Patch

/-- A stretch of two sequences that are compared. -/
inductive Segment where
  /-- Both have these operations. -/
  | keep (ops : List Op)
  /-- The first has `removed` where the second has `added`. -/
  | change (removed added : List Op)
deriving DecidableEq

namespace Segment

/-- What the first sequence has here. -/
def before : Segment → List Op
  | keep ops => ops
  | change removed _ => removed

/-- What the second sequence has here. -/
def after : Segment → List Op
  | keep ops => ops
  | change _ added => added

end Segment

/-- Cut two sequences at their longest block and go on on both sides of it. -/
def cut (popular : List Op) (a b : List Op) : List Segment :=
  if a.isEmpty && b.isEmpty then []
  else
    let block := longest popular a b
    if _some : 0 < block.size then
      cut popular (a.take block.i) (b.take block.j) ++
        .keep ((a.drop block.i).take block.size) ::
          cut popular (a.drop (block.i + block.size)) (b.drop (block.j + block.size))
    else [.change a b]
termination_by a.length + b.length
decreasing_by
  all_goals
    have inside := (longest_shared popular a b).le_length
    have filled : 0 < (longest popular a b).size := _some
    simp only [List.length_take, List.length_drop]
    omega

/-- Put neighbouring shared segments together. -/
def join : List Segment → List Segment
  | .keep xs :: rest =>
    match join rest with
    | .keep ys :: rest => .keep (xs ++ ys) :: rest
    | rest => .keep xs :: rest
  | segment :: rest => segment :: join rest
  | [] => []

/-- The operations that occur too often in a long sequence to begin a block. -/
def popular (ops : List Op) : List Op :=
  let n := ops.length
  if n < 200 then [] else Op.all.filter fun op => n / 100 + 1 < ops.count op

/-- The segments of two sequences. -/
def segments (a b : List Op) : List Segment := join (cut (popular b) a b)

end ByteTape.Patch
