import Mathlib.Data.List.Basic
import ByteTape.Proofs.Patch.Hunks

/-! # Reading a patch

A patch is read from its lines alone. A range states the number of its first line
and how many lines it holds; an empty one states the line before it, and one line
needs no size. What is read can be applied: the new lines of each hunk take the
place of its old range. Applied to the names of the first sequence, a patch gives
the names of the second.
-/

namespace ByteTape.Patch

/-! ## The notation of patches -/

/-- The number that digits stand for. -/
def number? (digits : List Char) : Option Nat :=
  if digits.isEmpty then none
  else if digits.all Char.isDigit then some (Nat.ofDigitChars 10 digits 0)
  else none

/-- Where a stretch of lines begins, and how many lines it holds. -/
structure Range where
  start : Nat
  size : Nat

namespace Range

def stop (r : Range) : Nat := r.start + r.size

/-- The range lies within `all` and holds these lines of it. -/
def Holds (r : Range) (all lines : List String) : Prop :=
  r.stop ≤ all.length ∧ (all.drop r.start).take r.size = lines

def read? (text : List Char) : Option Range :=
  match (text.splitOn ',').map number? with
  | [some (first + 1)] => some ⟨first, 1⟩
  | [some before, some 0] => some ⟨before, 0⟩
  | [some (first + 1), some size] => some ⟨first, size⟩
  | _ => none

end Range

/-- What a line of a hunk says of its text. -/
inductive Mark where
  | shared
  | removed
  | added
deriving DecidableEq

namespace Mark

def symbol : Mark → Char
  | shared => ' '
  | removed => '-'
  | added => '+'

def ofSymbol? (c : Char) : Option Mark := [shared, removed, added].find? (·.symbol = c)

/-- A marked line as it is printed. -/
def line (marked : Mark × String) : String := String.singleton marked.1.symbol ++ marked.2

end Mark

/-- A line behind the headings. -/
inductive Line where
  /-- The first line of a hunk, with its ranges. -/
  | header (old new : Range)
  | marked (mark : Mark) (name : String)

namespace Line

def header? (text : List Char) : Option Line :=
  match text.splitOn ' ' with
  | [['@', '@'], '-' :: old, '+' :: new, ['@', '@']] =>
    match Range.read? old, Range.read? new with
    | some old, some new => some (.header old new)
    | _, _ => none
  | _ => none

def read? (text : String) : Option Line :=
  match text.toList with
  | [] => none
  | c :: rest =>
    match Mark.ofSymbol? c with
    | some mark => some (.marked mark (String.ofList rest))
    | none => header? (c :: rest)

end Line

/-- A hunk as a patch states it. -/
structure Stated where
  old : Range
  new : Range
  body : List (Mark × String)

namespace Stated

def oldLines (h : Stated) : List String := (h.body.filter (·.1 ≠ .added)).map Prod.snd

def newLines (h : Stated) : List String := (h.body.filter (·.1 ≠ .removed)).map Prod.snd

end Stated

/-- Read lines from the last one on: the marked lines before the first header,
and the hunks. -/
def readFrom : List String → Option (List (Mark × String) × List Stated)
  | [] => some ([], [])
  | text :: rest => do
    let (body, list) ← readFrom rest
    match ← Line.read? text with
    | .header old new => return ([], ⟨old, new, body⟩ :: list)
    | .marked mark name => return ((mark, name) :: body, list)

/-- Read the hunks of a patch. No line may stand before the first of them. -/
def read? (text : List String) : Option (List Stated) :=
  match readFrom text with
  | some ([], list) => some list
  | _ => none

/-- Put the new lines of hunks in the place of their old ranges. The lines given
begin at place `i`. -/
def applyFrom (i : Nat) : List Stated → List String → List String
  | [], left => left
  | h :: rest, left =>
    left.take (h.old.start - i) ++ h.newLines ++
      applyFrom h.old.stop rest (left.drop (h.old.stop - i))

/-- The lines before, between and behind ranges. The lines given begin at place `i`. -/
def gapsFrom (i : Nat) : List Range → List String → List (List String)
  | [], left => [left]
  | r :: rest, left =>
    left.take (r.start - i) :: gapsFrom r.stop rest (left.drop (r.stop - i))

/-- Hunks that lead from one list of lines to another. -/
structure Patches (list : List Stated) (a b : List String) : Prop where
  ordered : list.Pairwise fun h next => h.old.stop < next.old.start ∧ h.new.stop < next.new.start
  old : ∀ h ∈ list, h.old.Holds a h.oldLines
  new : ∀ h ∈ list, h.new.Holds b h.newLines
  between : gapsFrom 0 (list.map Stated.old) a = gapsFrom 0 (list.map Stated.new) b
  applied : applyFrom 0 list a = b

/-! ## Reading what is printed -/

theorem not_mem_toDigits {c : Char} (other : c.isDigit = false) (n : Nat) :
    c ∉ Nat.toDigits 10 n := by
  intro found
  simp [Nat.isDigit_of_mem_toDigits (by decide) (by decide) found] at other

theorem number?_toDigits (n : Nat) : number? (Nat.toDigits 10 n) = some n := by
  have nonempty : Nat.toDigits 10 n ≠ [] := Nat.toDigits_ne_nil
  have digits : (Nat.toDigits 10 n).all Char.isDigit = true :=
    List.all_eq_true.2 fun _ found => Nat.isDigit_of_mem_toDigits (by decide) (by decide) found
  simp [number?, nonempty, digits]

theorem toList_range (start size : Nat) :
    (range start size).toList =
      if size = 1 then Nat.toDigits 10 (start + 1)
      else Nat.toDigits 10 (if size = 0 then start else start + 1) ++ ',' :: Nat.toDigits 10 size := by
  unfold range
  split_ifs <;> simp <;> rfl

theorem not_mem_range {c : Char} (other : c.isDigit = false) (apart : c ≠ ',') (start size : Nat) :
    c ∉ (range start size).toList := by
  rw [toList_range]
  split <;> simp [not_mem_toDigits other, apart]

theorem read?_range (start size : Nat) :
    Range.read? (range start size).toList = some ⟨start, size⟩ := by
  have none : ∀ n, ',' ∉ Nat.toDigits 10 n := not_mem_toDigits (by decide)
  rw [toList_range, Range.read?]
  split_ifs with one empty
  · subst one
    rw [List.splitOn_eq_singleton (none _), List.map_singleton, number?_toDigits]
  all_goals
    rw [List.splitOn_append_cons_self_of_not_mem (none _), List.splitOn_eq_singleton (none _),
      List.map_cons, List.map_singleton, number?_toDigits, number?_toDigits]
  · rw [empty]
    cases start <;> rfl
  · simp

theorem toList_header (old new : String) :
    s!"@@ -{old} +{new} @@".toList =
      '@' :: '@' :: ' ' :: '-' :: (old.toList ++ ' ' :: '+' :: (new.toList ++ [' ', '@', '@'])) := by
  simp [toString]

theorem splitOn_header {old new : List Char} (noneOld : ' ' ∉ old) (noneNew : ' ' ∉ new) :
    ('@' :: '@' :: ' ' :: '-' :: (old ++ ' ' :: '+' :: (new ++ [' ', '@', '@']))).splitOn ' ' =
      [['@', '@'], '-' :: old, '+' :: new, ['@', '@']] := by
  calc ('@' :: '@' :: ' ' :: '-' :: (old ++ ' ' :: '+' :: (new ++ [' ', '@', '@']))).splitOn ' '
      = ['@', '@'] :: (('-' :: old) ++ ' ' :: '+' :: (new ++ [' ', '@', '@'])).splitOn ' ' :=
        List.splitOn_append_cons_self_of_not_mem (by decide : ' ' ∉ ['@', '@']) _
    _ = ['@', '@'] :: ('-' :: old) :: (('+' :: new) ++ ' ' :: ['@', '@']).splitOn ' ' := by
        rw [List.splitOn_append_cons_self_of_not_mem (by simp [noneOld])]
        rfl
    _ = [['@', '@'], '-' :: old, '+' :: new, ['@', '@']] := by
        rw [List.splitOn_append_cons_self_of_not_mem (by simp [noneNew]),
          List.splitOn_eq_singleton (by decide)]

theorem read?_header (i j m n : Nat) :
    Line.read? s!"@@ -{range i m} +{range j n} @@" = some (.header ⟨i, m⟩ ⟨j, n⟩) := by
  have none (start size : Nat) : ' ' ∉ (range start size).toList :=
    not_mem_range (by decide) (by decide) start size
  have unmarked : Mark.ofSymbol? '@' = Option.none := by decide
  rw [Line.read?, toList_header]
  simp only [unmarked]
  rw [Line.header?, splitOn_header (none i m) (none j n)]
  simp only [read?_range]

theorem read?_line (marked : Mark × String) :
    Line.read? (Mark.line marked) = some (.marked marked.1 marked.2) := by
  have known : Mark.ofSymbol? marked.1.symbol = some marked.1 := by
    cases marked.1 <;> decide
  simp [Line.read?, Mark.line, known]

/-! ## Hunks as their lines state them -/

namespace Segment

def marked : Segment → List (Mark × String)
  | keep ops => ops.map fun op => (.shared, op.name)
  | change removed added =>
    removed.map (fun op => (.removed, op.name)) ++ added.map fun op => (.added, op.name)

theorem lines_eq (segment : Segment) : segment.lines = segment.marked.map Mark.line := by
  cases segment with
  | keep ops =>
    rw [marked, List.map_map]
    rfl
  | change removed added =>
    rw [marked, List.map_append, List.map_map, List.map_map]
    rfl

theorem old_marked (segment : Segment) :
    (segment.marked.filter (·.1 ≠ .added)).map Prod.snd = segment.before.map Op.name := by
  cases segment <;> simp [marked, List.filter_map, Function.comp_def]

theorem new_marked (segment : Segment) :
    (segment.marked.filter (·.1 ≠ .removed)).map Prod.snd = segment.after.map Op.name := by
  cases segment <;> simp [marked, List.filter_map, Function.comp_def]

end Segment

namespace Hunk

def stated (h : Hunk) : Stated where
  old := ⟨h.i, h.before.length⟩
  new := ⟨h.j, h.after.length⟩
  body := h.segments.flatMap Segment.marked

theorem oldLines_stated (h : Hunk) : h.stated.oldLines = h.before.map Op.name := by
  simp only [Stated.oldLines, stated, before, List.filter_flatMap, List.map_flatMap,
    Segment.old_marked]

theorem newLines_stated (h : Hunk) : h.stated.newLines = h.after.map Op.name := by
  simp only [Stated.newLines, stated, after, List.filter_flatMap, List.map_flatMap,
    Segment.new_marked]

theorem lines_eq (h : Hunk) :
    h.lines = s!"@@ -{range h.i h.before.length} +{range h.j h.after.length} @@" ::
      h.stated.body.map Mark.line := by
  simp only [lines, stated, List.map_flatMap, funext Segment.lines_eq]

end Hunk

theorem readFrom_marked (marked : List (Mark × String)) {rest : List String}
    {body : List (Mark × String)} {list : List Stated} (known : readFrom rest = some (body, list)) :
    readFrom (marked.map Mark.line ++ rest) = some (marked ++ body, list) := by
  induction marked with
  | nil => exact known
  | cons first marked ih => simp [readFrom, ih, read?_line]

theorem readFrom_hunks (list : List Hunk) :
    readFrom (list.flatMap Hunk.lines) = some ([], list.map Hunk.stated) := by
  induction list with
  | nil => rfl
  | cons h rest ih =>
    have body := readFrom_marked h.stated.body ih
    rw [List.append_nil] at body
    rw [List.flatMap_cons, Hunk.lines_eq, List.cons_append, readFrom, body]
    simp only [Option.bind_eq_bind, Option.bind_some, read?_header]
    rfl

theorem read?_hunks (list : List Hunk) :
    read? (list.flatMap Hunk.lines) = some (list.map Hunk.stated) := by
  rw [read?, readFrom_hunks]

/-! ## What the hunks lead to -/

namespace Range

variable {r : Range} {i : Nat} {front middle back : List Op}

theorem holds_middle (start : r.start = front.length) (size : r.size = middle.length) :
    r.Holds ((front ++ middle ++ back).map Op.name) (middle.map Op.name) := by
  constructor
  · simp [stop, start, size]
  · simp [start, size]

theorem take_front (start : r.start = i + front.length) :
    ((front ++ middle ++ back).map Op.name).take (r.start - i) = front.map Op.name := by
  simp [start]

theorem drop_middle (start : r.start = i + front.length) (size : r.size = middle.length) :
    ((front ++ middle ++ back).map Op.name).drop (r.stop - i) = back.map Op.name := by
  have reach : r.stop - i = (front ++ middle).length := by
    rw [stop, start, size, List.length_append]
    omega
  rw [reach, ← List.map_drop, List.drop_left]

end Range

namespace Covers

variable {i j : Nat} {a b : List Op} {list : List Hunk}

theorem applied (c : Covers i j a b list) :
    applyFrom i (list.map Hunk.stated) (a.map Op.name) = b.map Op.name := by
  induction c with
  | same => rfl
  | @hunk i j a b h rest gap old new behind ih =>
    rw [List.map_cons, applyFrom, Range.take_front (r := h.stated.old) old,
      Range.drop_middle (r := h.stated.old) old rfl, Hunk.newLines_stated, List.map_append,
      List.map_append]
    exact congrArg (gap.map Op.name ++ h.after.map Op.name ++ ·) ih

theorem gaps (c : Covers i j a b list) :
    gapsFrom i ((list.map Hunk.stated).map Stated.old) (a.map Op.name) =
      gapsFrom j ((list.map Hunk.stated).map Stated.new) (b.map Op.name) := by
  induction c with
  | same => rfl
  | @hunk i j a b h rest gap old new behind ih =>
    simp only [List.map_cons, gapsFrom, Range.take_front (r := h.stated.old) old,
      Range.drop_middle (r := h.stated.old) old rfl, Range.take_front (r := h.stated.new) new,
      Range.drop_middle (r := h.stated.new) new rfl]
    exact congrArg (gap.map Op.name :: ·) ih

theorem holds (c : Covers i j a b list) (left right : List Op) (old : left.length = i)
    (new : right.length = j) :
    ∀ h ∈ list, h.stated.old.Holds ((left ++ a).map Op.name) h.stated.oldLines ∧
      h.stated.new.Holds ((right ++ b).map Op.name) h.stated.newLines := by
  induction c generalizing left right with
  | same => simp
  | @hunk i j a b h rest gap oldStart newStart behind ih =>
    subst old new
    have later := ih (left ++ (gap ++ h.before)) (right ++ (gap ++ h.after))
      (by simp [Hunk.oldStop, oldStart, Nat.add_assoc])
      (by simp [Hunk.newStop, newStart, Nat.add_assoc])
    rw [← List.length_append] at oldStart newStart
    intro next found
    rcases List.mem_cons.1 found with rfl | found
    · rw [Hunk.oldLines_stated, Hunk.newLines_stated]
      simp only [← List.append_assoc]
      exact ⟨Range.holds_middle oldStart rfl, Range.holds_middle newStart rfl⟩
    · simpa only [List.append_assoc] using later next found

end Covers

theorem patches_stated {a b : List Op} {list : List Hunk} (c : Covers 0 0 a b list)
    (ordered : list.Pairwise Hunk.Precedes) :
    Patches (list.map Hunk.stated) (a.map Op.name) (b.map Op.name) where
  ordered := List.pairwise_map.2 ordered
  old := List.forall_mem_map.2 fun h found => (c.holds [] [] rfl rfl h found).1
  new := List.forall_mem_map.2 fun h found => (c.holds [] [] rfl rfl h found).2
  between := c.gaps
  applied := c.applied

theorem lines_of_ne_nil {a b : List Op} (some : hunks (segments a b) ≠ []) (labelA labelB : String) :
    lines a b labelA labelB =
      ("--- " ++ labelA) :: ("+++ " ++ labelB) :: (hunks (segments a b)).flatMap Hunk.lines := by
  unfold lines
  split
  case h_1 none => exact absurd none some
  case h_2 => rfl

theorem lines_eq_nil_iff (a b : List Op) (labelA labelB : String) :
    lines a b labelA labelB = [] ↔ a = b := by
  rw [← hunks_segments_eq_nil_iff]
  constructor
  · intro none
    by_contra some
    rw [lines_of_ne_nil some] at none
    cases none
  · intro none
    rw [lines, none]

/-- A patch is empty exactly between equal sequences. Any other has two headings
and then hunks that can be read back; their ranges are in order and apart, their
lines are those of both sequences there, everything else is the same in both, and
putting the new lines in place of the old ranges turns the first into the second. -/
theorem lines_patch (a b : List Op) (labelA labelB : String) :
    (lines a b labelA labelB = [] ↔ a = b) ∧
      (a ≠ b → ∃ body list,
        lines a b labelA labelB = ("--- " ++ labelA) :: ("+++ " ++ labelB) :: body ∧
          read? body = some list ∧ list ≠ [] ∧
          Patches list (a.map Op.name) (b.map Op.name)) := by
  refine ⟨lines_eq_nil_iff a b labelA labelB, ?_⟩
  intro differ
  have some : hunks (segments a b) ≠ [] := mt (hunks_segments_eq_nil_iff a b).1 differ
  refine ⟨_, _, lines_of_ne_nil some labelA labelB, read?_hunks _, ?_, ?_⟩
  · simpa using some
  · exact patches_stated (covers_hunks_segments a b) (precedes_hunks _)

/-- A sequence so long that the operation it repeats is popular. -/
def counting (last : Op) : List Op := List.replicate 250 .increment ++ [last]

theorem lines_patch_counting :
    counting .output ≠ counting .debug ∧
      ∃ body list,
        lines (counting .output) (counting .debug) "a" "b" =
            ("--- " ++ "a") :: ("+++ " ++ "b") :: body ∧
          read? body = some list ∧ list ≠ [] ∧
          Patches list ((counting .output).map Op.name) ((counting .debug).map Op.name) :=
  have differ : counting .output ≠ counting .debug := by
    rw [counting, counting, Ne, List.append_cancel_left_eq]
    decide
  ⟨differ, (lines_patch _ _ "a" "b").2 differ⟩

example : (read? (lines [.increment] [.increment, .output] "a" "b").tail.tail).map
    (fun list => list.map Stated.newLines) = some [["INCREMENT", "OUTPUT"]] := by decide +kernel

end ByteTape.Patch
