import ByteTape.Item.Read
import ByteTape.Proofs.Token.Spelling

/-! # Printing items

Every item has a text: items stand one behind the other with single spaces between
them, and a count stands directly behind its item. Items that a text can have at all
are read back from their text, with everything but the positions.
-/

namespace ByteTape.Item

mutual

def print : Item → List Char
  | .op o _ => [o.symbol]
  | .debug _ => ['?']
  | .text bytes _ => '\x22' :: (bytes.flatMap Text.escaped ++ ['\x22'])
  | .ref path _ => '#' :: path.render.toList
  | .use path _ => ['u', 's', 'e', ' ', '#'] ++ path.render.toList
  | .define name body _ => ':' :: name.toList ++ [' ', '\x7b'] ++ printTail body ++ [' ', '\x7d']
  | .group members _ => '(' :: printTail members ++ [' ', ')']
  | .times count target _ => print target ++ count.spelling

/-- The items with a space before each. -/
def printTail : List Item → List Char
  | [] => []
  | first :: rest => ' ' :: print first ++ printTail rest

end

/-- The items with a space between each two. -/
def printAll (items : List Item) : String := String.ofList ([' '].intercalate (items.map print))

mutual

/-- The item without its positions. -/
def unplaced : Item → Item
  | .op o _ => .op o (.start "")
  | .debug _ => .debug (.start "")
  | .text bytes _ => .text bytes (.start "")
  | .ref path _ => .ref path (.start "")
  | .use path _ => .use path (.start "")
  | .define name body _ => .define name (unplacedAll body) (.start "")
  | .group members _ => .group (unplacedAll members) (.start "")
  | .times count target _ => .times count (unplaced target) (.start "")

def unplacedAll : List Item → List Item
  | [] => []
  | first :: rest => unplaced first :: unplacedAll rest

end

/-- The count can be written directly behind the item: behind a path it must not begin
with a letter, and there is no second count. -/
def Takes (count : Count) : Item → Prop
  | .op .. | .debug .. | .text .. | .group .. => True
  | .ref .. => count.Decimal
  | .use .. | .define .. | .times .. => False

/-- The item can be written inside a group. -/
inductive Nestable : Item → Prop where
  | op {o : Op} (loc : Location) (primitive : o ≠ .debug) : Nestable (.op o loc)
  | debug (loc : Location) : Nestable (.debug loc)
  | text (bytes : List UInt8) (loc : Location) : Nestable (.text bytes loc)
  | ref {path : Path} (loc : Location) (writable : path.Writable) : Nestable (.ref path loc)
  | group {members : List Item} (loc : Location) (inside : ∀ item ∈ members, Nestable item) :
    Nestable (.group members loc)
  | times {count : Count} {target : Item} (loc : Location) (inside : Nestable target)
    (takes : target.Takes count) (writable : count.Writable) : Nestable (.times count target loc)

/-- The item can be written. Definitions and imports stand in bodies only. -/
inductive WellFormed : Item → Prop where
  | nestable {item : Item} (fit : Nestable item) : WellFormed item
  | use {path : Path} (loc : Location) (writable : path.Writable) (down : path.steps ≠ []) :
    WellFormed (.use path loc)
  | define {name : String} {body : List Item} (loc : Location) (named : IsName name)
    (inside : ∀ item ∈ body, WellFormed item) : WellFormed (.define name body loc)

mutual

/-- What the tokens of an item say. -/
def values : Item → List Token.Value
  | .op o _ => [.op o]
  | .debug _ => [.debug]
  | .text bytes _ => [.text bytes]
  | .ref path _ => [.ref path]
  | .use path _ => [.use, .ref path]
  | .define name body _ => .define name :: .openBody :: (valuesOf body ++ [.closeBody])
  | .group members _ => .openGroup :: (valuesOf members ++ [.closeGroup])
  | .times count target _ => values target ++ [.count count]

def valuesOf : List Item → List Token.Value
  | [] => []
  | first :: rest => values first ++ valuesOf rest

end

section
open Token

mutual

theorem spelled_values (item : Item) : spelled item.values = ' ' :: item.print := by
  cases item with
  | op | debug | text | ref | use =>
      simp [values, print, spelled, Value.written, Value.isCount, Value.spelling]
  | define name body loc =>
      have inner := spelled_valuesOf body
      rw [spelled] at inner
      simp [values, print, spelled, Value.written, Value.isCount, Value.spelling, inner]
  | group members loc =>
      have inner := spelled_valuesOf members
      rw [spelled] at inner
      simp [values, print, spelled, Value.written, Value.isCount, Value.spelling, inner]
  | times count target loc =>
      rw [values, spelled_append, spelled_values target]
      simp [print, spelled, Value.written, Value.isCount, Value.spelling]
termination_by sizeOf item

theorem spelled_valuesOf (items : List Item) : spelled (valuesOf items) = printTail items := by
  cases items with
  | nil => rfl
  | cons first rest =>
      rw [valuesOf, spelled_append, spelled_values first, spelled_valuesOf rest, printTail]
termination_by sizeOf items

end

theorem values_eq_cons (item : Item) : ∃ value rest, item.values = value :: rest ∧ value.isCount = false := by
  cases item with
  | times count target loc =>
      obtain ⟨value, rest, same, apart⟩ := values_eq_cons target
      exact ⟨value, rest ++ [.count count], by rw [values, same, List.cons_append], apart⟩
  | _ => exact ⟨_, _, rfl, rfl⟩
termination_by sizeOf item

theorem head_valuesOf_append {items : List Item} {back : List Value} {count : Count}
    (ahead : (valuesOf items ++ back).head? = some (.count count)) : back.head? = some (.count count) := by
  cases items with
  | nil => exact ahead
  | cons first rest =>
      obtain ⟨value, more, same, apart⟩ := values_eq_cons first
      rw [valuesOf, same] at ahead
      cases ahead
      cases apart

theorem fits_valuesOf_append {items : List Item} {back : List Value}
    (each : ∀ item ∈ items, Fits item.values) (behind : Fits back)
    (apart : ∀ count, back.head? ≠ some (.count count)) : Fits (valuesOf items ++ back) := by
  induction items with
  | nil => exact behind
  | cons first rest ih =>
      obtain ⟨here, later⟩ := List.forall_mem_cons.mp each
      rw [valuesOf, List.append_assoc]
      refine here.append (ih later) ?_
      intro count ahead
      exact absurd (head_valuesOf_append ahead) (apart count)

theorem Takes.last {count : Count} {item : Item} (h : item.Takes count) :
    ∃ value, item.values.getLast? = some value ∧ value.Takes count := by
  cases item with
  | op | debug | text => exact ⟨_, rfl, rfl⟩
  | ref => exact ⟨_, rfl, h⟩
  | group members loc =>
      refine ⟨.closeGroup, ?_, rfl⟩
      simp [values, List.getLast?_cons]
  | use | define | times => cases h

theorem Nestable.fits {item : Item} (h : item.Nestable) : Fits item.values := by
  induction h with
  | op loc primitive => exact ⟨primitive, by simp, trivial⟩
  | debug | text => exact ⟨trivial, by simp, trivial⟩
  | ref loc writable => exact ⟨writable, by simp, trivial⟩
  | group loc inside ih =>
      refine ⟨trivial, ?_, fits_valuesOf_append ih ⟨trivial, by simp, trivial⟩ (by simp)⟩
      intro count ahead
      cases head_valuesOf_append ahead
  | times loc inside takes writable ih =>
      refine ih.append ⟨writable, by simp, trivial⟩ ?_
      intro count ahead
      cases ahead
      exact takes.last

theorem WellFormed.fits {item : Item} (h : item.WellFormed) : Fits item.values := by
  induction h with
  | nestable fit => exact fit.fits
  | use loc writable down => exact ⟨trivial, by simp, writable, by simp, trivial⟩
  | define loc named inside ih =>
      refine ⟨named, by simp, trivial, ?_, fits_valuesOf_append ih ⟨trivial, by simp, trivial⟩ (by simp)⟩
      intro count ahead
      cases head_valuesOf_append ahead

theorem tokens_eq_cons {tokens : List Token} {value : Value} {rest : List Value}
    (h : tokens.map Token.value = value :: rest) :
    ∃ loc more, tokens = ⟨value, loc⟩ :: more ∧ more.map Token.value = rest := by
  obtain ⟨⟨_, loc⟩, more, rfl, rfl, same⟩ := List.map_eq_cons_iff.mp h
  exact ⟨loc, more, rfl, same⟩

/-- Tokens that say what the item says are read as the item, whatever is before them. -/
def ReadsIn (frames : List Frame) (item : Item) : Prop :=
  ∀ before tokens rest, tokens.map Token.value = item.values → countAhead rest = false →
    ∃ read, read.unplaced = item.unplaced ∧
      readFrom frames before (tokens ++ rest) = readFrom frames (read :: before) rest

theorem countAhead_append {items : List Item} {tokens rest : List Token}
    (h : tokens.map Token.value = valuesOf items) (apart : countAhead rest = false) :
    countAhead (tokens ++ rest) = false := by
  cases items with
  | nil =>
      obtain rfl := List.map_eq_nil_iff.mp h
      exact apart
  | cons first more =>
      obtain ⟨value, others, same, uncounted⟩ := values_eq_cons first
      rw [valuesOf, same] at h
      obtain ⟨loc, tokens, rfl, -⟩ := tokens_eq_cons h
      cases value <;> first | rfl | cases uncounted

theorem reads_all {frames : List Frame} {items : List Item} (each : ∀ item ∈ items, ReadsIn frames item)
    (before : List Item) {tokens rest : List Token} (h : tokens.map Token.value = valuesOf items)
    (apart : countAhead rest = false) :
    ∃ read, unplacedAll read = unplacedAll items ∧
      readFrom frames before (tokens ++ rest) = readFrom frames (read.reverse ++ before) rest := by
  induction items generalizing before tokens with
  | nil =>
      obtain rfl := List.map_eq_nil_iff.mp h
      exact ⟨[], rfl, rfl⟩
  | cons first more ih =>
      obtain ⟨here, later⟩ := List.forall_mem_cons.mp each
      obtain ⟨front, back, rfl, said, said'⟩ := List.map_eq_append_iff.mp h
      obtain ⟨read, same, step⟩ := here before front (back ++ rest) said (countAhead_append said' apart)
      obtain ⟨reads, sames, steps⟩ := ih later (read :: before) said'
      refine ⟨read :: reads, by rw [unplacedAll, unplacedAll, same, sames], ?_⟩
      rw [List.append_assoc, step, steps, List.reverse_cons, List.append_assoc]
      rfl

/-- An item that may stand in a group is read anywhere, and also if a count follows. -/
theorem Nestable.reads {item : Item} (h : item.Nestable) (frames : List Frame) (before : List Item)
    {tokens : List Token} (rest : List Token) (said : tokens.map Token.value = item.values) :
    ∃ read, read.unplaced = item.unplaced ∧
      readFrom frames before (tokens ++ rest) = readFrom frames (read :: before) rest := by
  induction h generalizing frames before tokens rest with
  | op | debug | text | ref =>
      obtain ⟨place, more, rfl, none⟩ := tokens_eq_cons said
      obtain rfl := List.map_eq_nil_iff.mp none
      refine ⟨_, ?_, by rw [List.cons_append, readFrom, List.nil_append]⟩
      simp only [unplaced]
  | @group members loc inside ih =>
      obtain ⟨place, more, rfl, more_said⟩ := tokens_eq_cons said
      obtain ⟨inner, last, rfl, inner_said, last_said⟩ := List.map_eq_append_iff.mp more_said
      obtain ⟨finish, more, rfl, none⟩ := tokens_eq_cons last_said
      obtain rfl := List.map_eq_nil_iff.mp none
      have each : ∀ item ∈ members, ReadsIn (.group place before :: frames) item :=
        fun item there before' tokens rest said _ => ih item there _ before' rest said
      have apart : countAhead (⟨.closeGroup, finish⟩ :: rest) = false := rfl
      obtain ⟨reads, same, steps⟩ := reads_all each [] inner_said apart
      refine ⟨.group reads place, by rw [unplaced, unplaced, same], ?_⟩
      rw [List.cons_append, readFrom, List.append_assoc, List.singleton_append, steps, readFrom,
        List.append_nil, List.reverse_reverse]
  | @times count target loc inside takes writable ih =>
      obtain ⟨front, last, rfl, front_said, last_said⟩ := List.map_eq_append_iff.mp said
      obtain ⟨place, more, rfl, none⟩ := tokens_eq_cons last_said
      obtain rfl := List.map_eq_nil_iff.mp none
      obtain ⟨read, same, step⟩ := ih frames before (⟨.count count, place⟩ :: rest) front_said
      refine ⟨.times count read read.loc, by rw [unplaced, unplaced, same], ?_⟩
      rw [List.append_assoc, List.singleton_append, step, readFrom]

theorem WellFormed.reads {item : Item} (h : item.WellFormed) {frames : List Frame}
    (place : inGroup frames = false) : ReadsIn frames item := by
  induction h generalizing frames with
  | nestable fit => exact fun before tokens rest said _ => fit.reads frames before rest said
  | @use path loc writable down =>
      intro before tokens rest said apart
      obtain ⟨start, more, rfl, more_said⟩ := tokens_eq_cons said
      obtain ⟨_, more, rfl, none⟩ := tokens_eq_cons more_said
      obtain rfl := List.map_eq_nil_iff.mp none
      refine ⟨.use path start, by rw [unplaced, unplaced], ?_⟩
      simp [readFrom, place, down, apart]
  | @define name body loc named inside ih =>
      intro before tokens rest said _
      obtain ⟨start, more, rfl, more_said⟩ := tokens_eq_cons said
      obtain ⟨opening, more, rfl, rest_said⟩ := tokens_eq_cons more_said
      obtain ⟨inner, last, rfl, inner_said, last_said⟩ := List.map_eq_append_iff.mp rest_said
      obtain ⟨finish, more, rfl, none⟩ := tokens_eq_cons last_said
      obtain rfl := List.map_eq_nil_iff.mp none
      have each : ∀ item ∈ body, ReadsIn (.body name start before :: frames) item :=
        fun item there => ih item there rfl
      have apart : countAhead (⟨.closeBody, finish⟩ :: rest) = false := rfl
      obtain ⟨reads, same, steps⟩ := reads_all each [] inner_said apart
      refine ⟨.define name reads start, by rw [unplaced, unplaced, same], ?_⟩
      simp only [List.cons_append, readFrom, place, List.append_assoc, List.nil_append, steps,
        List.append_nil, List.reverse_reverse, Bool.false_eq_true, if_false]

theorem unplacedAll_eq_map (items : List Item) : unplacedAll items = items.map unplaced := by
  induction items with
  | nil => rfl
  | cons first rest ih => rw [unplacedAll, ih, List.map_cons]

theorem printTail_cons (first : Item) (rest : List Item) :
    printTail (first :: rest) = ' ' :: [' '].intercalate ((first :: rest).map print) := by
  induction rest generalizing first with
  | nil => simp [printTail]
  | cons next rest ih =>
      have tail := ih next
      rw [List.map_cons] at tail
      rw [printTail, tail, List.map_cons, List.map_cons, List.intercalate_cons_cons]
      simp

theorem scan_printAll {items : List Item} (fit : ∀ item ∈ items, item.WellFormed) (file : String) :
    ∃ tokens, Token.scan file (printAll items) = .ok tokens ∧
      tokens.map Token.value = valuesOf items := by
  have fits : Fits (valuesOf items) := by
    have all := fits_valuesOf_append (fun item there => (fit item there).fits)
      (show Fits [] from trivial) (by simp)
    rwa [List.append_nil] at all
  obtain ⟨tokens, scanned, said⟩ := scanFrom_spelled fits ⟨file, 1, 0⟩ true fun _ _ => rfl
  refine ⟨tokens, ?_, said⟩
  rw [← scanned, spelled_valuesOf, Token.scan, printAll, String.toList_ofList]
  cases items with
  | nil => rw [printTail, List.map_nil, List.intercalate_nil, scanFrom_nil, scanFrom_nil]
  | cons first rest =>
      rw [printTail_cons, scanFrom_blank rfl]
      rfl

end

/-- Items that can be written are read back from their text, up to positions. -/
theorem parse_printAll (items : List Item) (fit : ∀ item ∈ items, item.WellFormed) (file : String) :
    ∃ read, parse .extended file (printAll items) = .ok read ∧
      read.map unplaced = items.map unplaced := by
  obtain ⟨tokens, scanned, said⟩ := scan_printAll fit file
  have each : ∀ item ∈ items, ReadsIn [] item := fun item there => (fit item there).reads rfl
  obtain ⟨read, same, steps⟩ := reads_all each [] said (show countAhead [] = false from rfl)
  refine ⟨read, ?_, by rw [← unplacedAll_eq_map, same, unplacedAll_eq_map]⟩
  rw [List.append_nil] at steps
  simp [parse, Item.tokens, scanned, ofTokens, steps, readFrom]

/-- A definition with an import and a repeated group in it, and a reference that is
repeated ten times. The bytes are a quote, a line feed and a backslash. -/
def sample (loc : Location) : List Item :=
  [.define "a" [.use ⟨0, ["lib", "z"]⟩ loc,
    .times (.char "%") (.group [.text [34, 10, 92] loc, .ref ⟨2, []⟩ loc] loc) loc] loc,
    .times (.hex "0a") (.ref ⟨1, ["b", "use"]⟩ loc) loc, .debug loc]

theorem parse_printAll_sample :
    printAll (sample (.start "m")) =
        ":a \x7b use #lib/z ( \x22\\\x22\n\\\\\x22 #^^ )'% \x7d #^b/use0a ?" ∧
      ∃ read, parse .extended "m" (printAll (sample (.start "m"))) = .ok read ∧
        read.map unplaced = (sample (.start "m")).map unplaced := by
  have fit : ∀ item ∈ sample (.start "m"), item.WellFormed := by
    intro item there
    simp only [sample, List.mem_cons, List.not_mem_nil, or_false] at there
    obtain rfl | rfl | rfl := there
    · refine .define _ (by simp [IsName, Token.isNameChar]) ?_
      intro item there
      simp only [List.mem_cons, List.not_mem_nil, or_false] at there
      obtain rfl | rfl := there
      · exact .use _ ⟨by simp [IsName, Token.isNameChar], by decide⟩ (by decide)
      · refine .nestable (.times _ (.group _ ?_) trivial ⟨'%', rfl, by decide, by decide⟩)
        intro item there
        simp only [List.mem_cons, List.not_mem_nil, or_false] at there
        obtain rfl | rfl := there
        · exact .text _ _
        · exact .ref _ ⟨by simp, by decide⟩
    · exact .nestable (.times _ (.ref _ ⟨by simp [IsName, Token.isNameChar], by decide⟩)
        (by simp [Takes, Count.Decimal]) ⟨by decide, by simp [Text.isHexDigit]⟩)
    · exact .nestable (.debug _)
  exact ⟨by decide +kernel, parse_printAll _ fit "m"⟩

end ByteTape.Item
