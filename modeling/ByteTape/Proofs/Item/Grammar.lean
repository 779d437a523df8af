import ByteTape.Proofs.Item.Declarations
import ByteTape.Proofs.Item.Joining
import ByteTape.Proofs.Token.Runs
import ByteTape.Proofs.Token.Spacing

/-! # The grammar of items

Which items can come of a text is said by a grammar over tokens. The reader keeps to it: what it
has seen is always the beginning of something grammatical, with some brackets open. That a count
stands behind what can be counted is not for the reader to see, but for the scanner, which lets
a count stand nowhere else.
-/

namespace ByteTape.Item

/-- What can be counted: all but declarations and what is counted already. -/
def countable : Item → Bool
  | op .. | debug .. | text .. | ref .. | group .. => true
  | use .. | define .. | times .. => false

/-- The tokens make up these items. In a group nothing is declared. -/
inductive Reads : Bool → List Token → List Item → Prop where
  | nil (grouped : Bool) : Reads grouped [] []
  | op {grouped : Bool} {o : Op} {loc : Location} {tokens : List Token} {items : List Item}
    (rest : Reads grouped tokens items) : Reads grouped (⟨.op o, loc⟩ :: tokens) (.op o loc :: items)
  | debug {grouped : Bool} {loc : Location} {tokens : List Token} {items : List Item}
    (rest : Reads grouped tokens items) : Reads grouped (⟨.debug, loc⟩ :: tokens) (.debug loc :: items)
  | text {grouped : Bool} {bytes : List UInt8} {loc : Location} {tokens : List Token}
    {items : List Item} (rest : Reads grouped tokens items) :
    Reads grouped (⟨.text bytes, loc⟩ :: tokens) (.text bytes loc :: items)
  | ref {grouped : Bool} {path : Path} {loc : Location} {tokens : List Token} {items : List Item}
    (rest : Reads grouped tokens items) :
    Reads grouped (⟨.ref path, loc⟩ :: tokens) (.ref path loc :: items)
  | use {path : Path} {loc place : Location} {tokens : List Token} {items : List Item}
    (named : path.steps ≠ []) (rest : Reads false tokens items) :
    Reads false (⟨.use, loc⟩ :: ⟨.ref path, place⟩ :: tokens) (.use path loc :: items)
  | define {name : String} {loc start stop : Location} {inner tokens : List Token}
    {body items : List Item} (inside : Reads false inner body) (rest : Reads false tokens items) :
    Reads false (⟨.define name, loc⟩ :: ⟨.openBody, start⟩ :: (inner ++ ⟨.closeBody, stop⟩ :: tokens))
      (.define name body loc :: items)
  | group {grouped : Bool} {loc stop : Location} {inner tokens : List Token}
    {members items : List Item} (inside : Reads true inner members)
    (rest : Reads grouped tokens items) :
    Reads grouped (⟨.openGroup, loc⟩ :: (inner ++ ⟨.closeGroup, stop⟩ :: tokens))
      (.group members loc :: items)
  | times {grouped : Bool} {count : Count} {target : Item} {place : Location}
    {inner tokens : List Token} {items : List Item} (fit : target.countable)
    (inside : Reads grouped inner [target]) (rest : Reads grouped tokens items) :
    Reads grouped (inner ++ ⟨.count count, place⟩ :: tokens) (.times count target target.loc :: items)

namespace Reads

variable {grouped : Bool} {tokens front back : List Token} {items more : List Item}

theorem append (h : Reads grouped front items) (h' : Reads grouped back more) :
    Reads grouped (front ++ back) (items ++ more) := by
  induction h with
  | nil => exact h'
  | op _ ih => exact .op (ih h')
  | debug _ ih => exact .debug (ih h')
  | text _ ih => exact .text (ih h')
  | ref _ ih => exact .ref (ih h')
  | use named _ ih => exact .use named (ih h')
  | define inside _ _ ih =>
      rw [List.cons_append, List.cons_append, List.append_assoc, List.cons_append, List.cons_append]
      exact .define inside (ih h')
  | group inside _ _ ih =>
      rw [List.cons_append, List.append_assoc, List.cons_append, List.cons_append]
      exact .group inside (ih h')
  | times fit inside _ _ ih =>
      rw [List.append_assoc, List.cons_append, List.cons_append]
      exact .times fit inside (ih h')

theorem uncons {item : Item} (h : Reads grouped tokens (item :: items)) :
    ∃ run back, tokens = run ++ back ∧ Reads grouped run [item] ∧ Reads grouped back items := by
  cases h with
  | op rest => exact ⟨[_], _, rfl, .op (.nil _), rest⟩
  | debug rest => exact ⟨[_], _, rfl, .debug (.nil _), rest⟩
  | text rest => exact ⟨[_], _, rfl, .text (.nil _), rest⟩
  | ref rest => exact ⟨[_], _, rfl, .ref (.nil _), rest⟩
  | use named rest => exact ⟨[_, _], _, rfl, .use named (.nil _), rest⟩
  | @define name loc start stop inner tokens _ _ inside rest =>
      refine ⟨⟨.define name, loc⟩ :: ⟨.openBody, start⟩ :: (inner ++ [⟨.closeBody, stop⟩]), tokens,
        by simp, ?_, rest⟩
      exact .define inside (.nil false)
  | @group _ loc stop inner tokens _ _ inside rest =>
      refine ⟨⟨.openGroup, loc⟩ :: (inner ++ [⟨.closeGroup, stop⟩]), tokens, by simp, ?_, rest⟩
      exact .group inside (.nil grouped)
  | @times _ count _ place inner tokens _ fit inside rest =>
      refine ⟨inner ++ [⟨.count count, place⟩], tokens, by simp, ?_, rest⟩
      exact .times fit inside (.nil grouped)

theorem split (h : Reads grouped tokens (items ++ more)) :
    ∃ front back, tokens = front ++ back ∧ Reads grouped front items ∧ Reads grouped back more := by
  induction items generalizing tokens with
  | nil => exact ⟨[], tokens, rfl, .nil grouped, h⟩
  | cons item items ih =>
      obtain ⟨run, rest, rfl, single, others⟩ := h.uncons
      obtain ⟨front, back, rfl, left, right⟩ := ih others
      exact ⟨run ++ front, back, (List.append_assoc ..).symm, single.append left, right⟩

theorem run_of_mem {item : Item} (h : Reads grouped tokens items) (there : item ∈ items) :
    ∃ run, run <:+: tokens ∧ Reads grouped run [item] := by
  obtain ⟨before, after, rfl⟩ := List.append_of_mem there
  obtain ⟨front, rest, rfl, -, others⟩ := h.split
  obtain ⟨run, back, rfl, single, -⟩ := others.uncons
  exact ⟨run, ⟨front, back, List.append_assoc ..⟩, single⟩

theorem tokens_nil (h : Reads grouped tokens []) : tokens = [] := by
  cases h
  rfl

theorem values_eq (h : Reads grouped tokens items) : tokens.map Token.value = valuesOf items := by
  induction h with
  | nil => rfl
  | op _ ih | debug _ ih | text _ ih | ref _ ih | use _ _ ih =>
      simp only [List.map_cons, ih, valuesOf, values]
      rfl
  | define _ _ inner ih | group _ _ inner ih =>
      simp [valuesOf, values, inner, ih]
  | times _ _ _ inner ih => simpa [valuesOf, values, inner] using ih

/-- The item stands where its first token stands, which is not a count. -/
theorem first (h : Reads grouped tokens items) :
    ∀ item ∈ items.head?,
      ∃ token ∈ tokens.head?, token.loc = item.loc ∧ token.value.isCount = false := by
  induction h with
  | nil => simp
  | op | debug | text | ref | use | define | group =>
      rintro item ⟨⟩
      exact ⟨_, rfl, rfl, rfl⟩
  | times _ _ _ inner =>
      rintro item ⟨⟩
      obtain ⟨token, head, place, other⟩ := inner _ rfl
      refine ⟨token, ?_, place, other⟩
      rw [List.head?_append, head]
      rfl

theorem locs_sublist (h : Reads grouped tokens items) :
    (items.map loc).Sublist (tokens.map Token.loc) := by
  induction h with
  | nil => exact .slnil
  | op _ ih | debug _ ih | text _ ih | ref _ ih => exact .cons_cons _ ih
  | use _ _ ih => exact .cons_cons _ (.cons _ ih)
  | define _ _ _ ih =>
      apply List.Sublist.cons_cons
      apply List.Sublist.cons
      rw [List.map_append]
      exact (ih.cons _).trans (List.sublist_append_right _ _)
  | group _ _ _ ih =>
      apply List.Sublist.cons_cons
      rw [List.map_append]
      exact (ih.cons _).trans (List.sublist_append_right _ _)
  | times _ _ _ inner ih =>
      rw [List.map_append]
      exact inner.append (ih.cons _)

theorem not_declares (h : Reads true tokens items) : ∀ item ∈ items, item.declares = false := by
  intro item there
  obtain ⟨run, -, single⟩ := h.run_of_mem there
  cases single <;> rfl

end Reads

/-- The tokens of the brackets that are open, each with the tokens of what stands before it. -/
inductive Around : List Token → List Frame → Prop where
  | nil : Around [] []
  | body {outer front : List Token} {frames : List Frame} {before : List Item} {name : String}
    {loc start : Location} (around : Around outer frames) (place : inGroup frames = false)
    (earlier : Reads false front before.reverse) :
    Around (outer ++ front ++ [⟨.define name, loc⟩, ⟨.openBody, start⟩])
      (.body name loc before :: frames)
  | group {outer front : List Token} {frames : List Frame} {before : List Item} {loc : Location}
    (around : Around outer frames) (earlier : Reads (inGroup frames) front before.reverse) :
    Around (outer ++ front ++ [⟨.openGroup, loc⟩]) (.group loc before :: frames)

theorem Reads.push {grouped : Bool} {inner run : List Token} {items : List Item} {item : Item}
    (reads : Reads grouped inner items.reverse) (single : Reads grouped run [item]) :
    Reads grouped (inner ++ run) (item :: items).reverse := by
  rw [List.reverse_cons]
  exact reads.append single

theorem Reads.counted {grouped : Bool} {inner : List Token} {items : List Item} {item : Item}
    (reads : Reads grouped inner (item :: items).reverse) (fit : item.countable) (count : Count)
    (place : Location) :
    Reads grouped (inner ++ [⟨.count count, place⟩]) (.times count item item.loc :: items).reverse := by
  rw [List.reverse_cons] at reads
  obtain ⟨front, run, rfl, earlier, single⟩ := reads.split
  rw [List.append_assoc]
  exact earlier.push (.times fit single (.nil grouped))

/-- What was seen inside and around the open brackets and what is still to be read make up the
items that come of it. Each step moves tokens from the latter to the former. -/
theorem reads_of_readFrom {frames : List Frame} {items result : List Item}
    {outer inner tokens : List Token} (read : readFrom frames items tokens = .ok result)
    (around : Around outer frames) (reads : Reads (inGroup frames) inner items.reverse)
    (tight : Token.Tight tokens)
    (counted : countAhead tokens → ∃ item rest, items = item :: rest ∧ item.countable) :
    Reads false (outer ++ inner ++ tokens) result := by
  fun_induction readFrom frames items tokens generalizing outer inner with
  | case1 items =>
      cases read
      cases around
      rw [List.nil_append, List.append_nil]
      exact reads
  | case2 | case7 | case8 | case9 | case11 | case12 | case14 | case15 | case17 | case18 | case21
  | case23 | case24 => cases read
  | case3 frames items loc tokens o ih =>
      have done := ih read around (reads.push (.op (.nil _))) tight.2.2 fun _ => ⟨_, _, rfl, rfl⟩
      simpa using done
  | case4 frames items loc tokens ih =>
      have done := ih read around (reads.push (.debug (.nil _))) tight.2.2 fun _ => ⟨_, _, rfl, rfl⟩
      simpa using done
  | case5 frames items loc tokens bytes ih =>
      have done := ih read around (reads.push (.text (.nil _))) tight.2.2 fun _ => ⟨_, _, rfl, rfl⟩
      simpa using done
  | case6 frames items loc tokens path ih =>
      have done := ih read around (reads.push (.ref (.nil _))) tight.2.2 fun _ => ⟨_, _, rfl, rfl⟩
      simpa using done
  | case10 frames items loc outside path place tokens named uncounted ih =>
      have outside : inGroup frames = false := by simpa using outside
      have named : path.steps ≠ [] := by simpa using named
      have reads' : Reads (inGroup frames) (inner ++ [⟨.use, loc⟩, ⟨.ref path, place⟩])
          (.use path loc :: items).reverse := by
        rw [outside] at reads ⊢
        exact reads.push (.use named (.nil false))
      have done := ih read around reads' tight.2.2.2.2 fun ahead => absurd ahead uncounted
      simpa using done
  | case13 frames items loc name outside start tokens ih =>
      have outside : inGroup frames = false := by simpa using outside
      rw [outside] at reads
      have around' : Around (outer ++ inner ++ [⟨.define name, loc⟩, ⟨.openBody, start⟩])
          (.body name loc items :: frames) := .body around outside reads
      have done := ih read around' (.nil false) tight.2.2.2.2 fun ahead => by
        cases tight.2.2.2.1 ahead
      simpa using done
  | case16 items stop tokens name loc before frames ih =>
      cases around with
      | @body outer front _ _ _ _ start around outside earlier =>
          have reads' : Reads (inGroup frames)
              (front ++ ⟨.define name, loc⟩ :: ⟨.openBody, start⟩ :: (inner ++ [⟨.closeBody, stop⟩]))
              (.define name items.reverse loc :: before).reverse := by
            rw [outside]
            exact earlier.push (.define reads (.nil false))
          have done := ih read around reads' tight.2.2 fun ahead => by cases tight.2.1 ahead
          simpa using done
  | case19 frames items loc tokens ih =>
      have done := ih read (.group around reads) (.nil true) tight.2.2 fun ahead => by
        cases tight.2.1 ahead
      simpa using done
  | case20 items stop tokens loc before frames ih =>
      cases around with
      | @group outer front _ _ _ around earlier =>
          have reads' : Reads (inGroup frames)
              (front ++ ⟨.openGroup, loc⟩ :: (inner ++ [⟨.closeGroup, stop⟩]))
              (.group items.reverse loc :: before).reverse :=
            earlier.push (.group reads (.nil _))
          have done := ih read around reads' tight.2.2 fun _ => ⟨_, _, rfl, rfl⟩
          simpa using done
  | case22 frames loc tokens count item items ih =>
      obtain ⟨target, rest, same, fit⟩ := counted rfl
      obtain ⟨rfl, rfl⟩ := List.cons.inj same
      have done := ih read around (reads.counted fit count loc) tight.2.2 fun ahead => by
        cases tight.2.1 ahead
      simpa using done

section
variable {dialect : Dialect} {file text : String} {tokens : List Token} {items : List Item}

theorem reads_of_tokens (scanned : Item.tokens dialect file text = .ok tokens)
    (read : ofTokens tokens = .ok items) : Reads false tokens items := by
  obtain ⟨tight, uncounted⟩ := Token.tight_of_tokens scanned
  exact reads_of_readFrom read .nil (.nil false) tight fun ahead => absurd ahead uncounted

end

/-- The list is this one, or one that stands in it: the body of a definition, the members of a group,
or just what is counted, at any depth. -/
inductive Nested (list : List Item) : List Item → Prop where
  | here : Nested list list
  | body {name : String} {body items : List Item} {loc : Location}
    (there : .define name body loc ∈ items) (deeper : Nested list body) : Nested list items
  | members {members items : List Item} {loc : Location} (there : .group members loc ∈ items)
    (deeper : Nested list members) : Nested list items
  | target {count : Count} {target : Item} {items : List Item} {loc : Location}
    (there : .times count target loc ∈ items) (deeper : Nested list [target]) : Nested list items

/-- Each list that stands in the items has its own run of tokens, and what stands in a group is read
as in a group. -/
theorem Reads.nested {grouped : Bool} {tokens : List Token} {items list : List Item}
    (h : Reads grouped tokens items) (nested : Nested list items) :
    ∃ grouped' run, run <:+: tokens ∧ Reads grouped' run list ∧ (grouped = true → grouped' = true) := by
  induction nested generalizing grouped tokens with
  | here => exact ⟨grouped, tokens, List.infix_rfl, h, id⟩
  | body there _ ih =>
      obtain ⟨run, within, single⟩ := h.run_of_mem there
      cases single with
      | define inside =>
          obtain ⟨grouped', run', within', reads, -⟩ := ih inside
          have deeper := (List.infix_append' [_, _] _ _).trans within
          exact ⟨grouped', run', within'.trans deeper, reads, fun grouped => by cases grouped⟩
  | members there _ ih =>
      obtain ⟨run, within, single⟩ := h.run_of_mem there
      cases single with
      | group inside =>
          obtain ⟨grouped', run', within', reads, kept⟩ := ih inside
          have deeper := (List.infix_append' [_] _ _).trans within
          exact ⟨grouped', run', within'.trans deeper, reads, fun _ => kept rfl⟩
  | target there _ ih =>
      obtain ⟨run, within, single⟩ := h.run_of_mem there
      cases single with
      | times _ inside =>
          obtain ⟨grouped', run', within', reads, kept⟩ := ih inside
          have deeper := (List.infix_append' [] _ _).trans within
          exact ⟨grouped', run', within'.trans deeper, reads, kept⟩

/-- What the grammar asks of an item. Nothing is declared in a group, however deep in it. -/
def Grammatical : Item → Prop
  | op o _ => o ≠ .debug
  | debug _ | text .. => True
  | ref path _ => path.Writable
  | use path _ => path.Writable ∧ path.steps ≠ []
  | define name _ _ => IsName name
  | group members _ => ∀ list, Nested list members → ∀ item ∈ list, item.declares = false
  | times count target loc =>
    target.countable ∧ loc = target.loc ∧ ∃ n, count.value = .ok n ∧ 0 ≤ n ∧ n ≤ 255

/-- The item is written in the text, and its position is that of its first character. -/
def Stands (file : String) (text : List Char) (item : Item) : Prop :=
  ∃ front c tail back, text = front ++ c :: tail ++ back ∧ item.loc = .behind file front ∧
    Token.Scans false (c :: tail) item.values ∧ ∃ value ∈ item.values.head?, value.Opens c

end ByteTape.Item

namespace ByteTape

theorem Count.Writable.bounded {count : Count} (h : count.Writable) :
    ∃ n, count.value = .ok n ∧ 0 ≤ n ∧ n ≤ 255 := by
  cases count with
  | hex digits =>
      obtain ⟨⟨some, two⟩, each⟩ := h
      have nonempty : digits.toList ≠ [] := by
        rintro none
        simp [String.length, none] at some
      obtain ⟨n, less, known⟩ := Text.integer_of_isHexDigit each nonempty
      rw [String.ofList_toList] at known
      have bound : 16 ^ digits.toList.length ≤ 16 ^ 2 := Nat.pow_le_pow_right (by decide) two
      refine ⟨n, by rw [value, known], by omega, by omega⟩
  | char text =>
      obtain ⟨c, same, byte, -⟩ := h
      exact ⟨c.toNat, by rw [value, same], by omega, by omega⟩
  | other => cases h

namespace Item

section
variable {grouped : Bool} {run : List Token} {item : Item}

theorem Reads.grammatical (single : Reads grouped run [item])
    (writable : ∀ token ∈ run, token.value.Writable) : item.Grammatical := by
  cases single with
  | op rest => exact writable _ List.mem_cons_self
  | debug | text => trivial
  | ref rest => exact writable _ List.mem_cons_self
  | @use path _ place _ _ named rest => exact ⟨writable ⟨.ref path, place⟩ (by simp), named⟩
  | define inside rest => exact writable _ List.mem_cons_self
  | group inside rest =>
      intro list nested
      obtain ⟨grouped', run', -, reads, kept⟩ := inside.nested nested
      obtain rfl := kept rfl
      exact reads.not_declares
  | @times _ count _ place _ _ _ fit inside rest =>
      have counts : count.Writable := writable ⟨.count count, place⟩ (by simp)
      exact ⟨fit, rfl, counts.bounded⟩

theorem Reads.values_single (single : Reads grouped run [item]) :
    run.map Token.value = item.values := by
  rw [single.values_eq, valuesOf, valuesOf, List.append_nil]

theorem Reads.stands {file text : String} {tokens : List Token} (single : Reads grouped run [item])
    (scanned : Token.scan file text = .ok tokens) (within : run <:+: tokens) :
    item.Stands file text.toList := by
  obtain ⟨before, after, rfl⟩ := within
  obtain ⟨token, first, place, other⟩ := single.first item rfl
  obtain ⟨rest, rfl⟩ := List.head?_eq_some_iff.mp first
  have said := single.values_single
  rw [List.append_assoc, List.cons_append] at scanned
  obtain ⟨front, c, tail, tight, whole, here, opens, scanned'⟩ := Token.scanFrom_behind scanned
  have scans := Token.scans_of_scanFrom scanned'
  rw [← List.cons_append, List.map_append] at scans
  obtain ⟨chars, back, split, same, scans⟩ := scans.take (List.cons_ne_nil _ _)
  obtain ⟨tail', rfl⟩ := List.head?_eq_some_iff.mp same
  refine ⟨front, c, tail', back, ?_, ?_, ?_, ?_⟩
  · rw [whole, split, List.append_assoc]
  · rw [← place, here, Location.after_start]
  · rw [← said]
    apply scans.loosen
    rintro value ⟨⟩
    exact other
  · rw [← said]
    exact ⟨token.value, rfl, opens⟩

theorem Reads.op_of_ops (single : Reads grouped run [item])
    (ops : ∀ token ∈ run, ∃ o, token.value = .op o) :
    ∃ o, item = .op o item.loc ∧ run = [⟨.op o, item.loc⟩] := by
  cases single with
  | op rest =>
      obtain rfl := rest.tokens_nil
      exact ⟨_, rfl, rfl⟩
  | debug | text | ref | use | define | group =>
      obtain ⟨o, other⟩ := ops _ List.mem_cons_self
      cases other
  | @times _ count _ place =>
      obtain ⟨o, other⟩ := ops ⟨.count count, place⟩ (by simp)
      cases other

theorem Reads.stands_plain {file text : String} (single : Reads grouped run [item])
    (within : run <:+: Token.scanOps file text) : item.Stands file text.toList := by
  have ops : ∀ token ∈ run, ∃ o, token.value = .op o := by
    intro token there
    exact Token.op_of_mem_scanOpsFrom _ _ token (within.subset there)
  obtain ⟨o, same, rfl⟩ := single.op_of_ops ops
  have there := within.subset List.mem_cons_self
  obtain ⟨front, chars, back, whole, spelled, place⟩ := (Token.strewn_of_scanOpsFrom _ _).shown there
  have scans : Token.Scans false chars [.op o] := .single spelled fun counts => by cases counts
  obtain ⟨-, rfl⟩ := spelled
  rw [Location.after_start] at place
  refine ⟨front, o.symbol, [], back, whole, place, ?_⟩
  rw [same, values]
  exact ⟨scans, .op o, rfl, rfl⟩

end

section
variable {dialect : Dialect} {file text : String}

theorem Reads.stands_of_tokens {grouped : Bool} {run tokens : List Token} {item : Item}
    (single : Reads grouped run [item]) (scanned : Item.tokens dialect file text = .ok tokens)
    (within : run <:+: tokens) : item.Stands file text.toList := by
  cases dialect with
  | extended => exact single.stands scanned within
  | plain =>
      cases scanned
      exact single.stands_plain within

/-- What is read from a text is grammatical at every depth, and it stands where it says. In each
list the positions grow. -/
theorem parse_grammatical {items list : List Item} (read : parse dialect file text = .ok items)
    (nested : Nested list items) :
    (∀ item ∈ list, item.Grammatical ∧ item.Stands file text.toList) ∧
      list.Pairwise fun a b => a.loc.Before b.loc := by
  obtain ⟨tokens, scanned, found⟩ := exists_tokens_of_parse read
  obtain ⟨grouped, run, within, reads, -⟩ := (reads_of_tokens scanned found).nested nested
  have strewn := Token.strewn_of_tokens scanned
  constructor
  · intro item there
    obtain ⟨run', within', single⟩ := reads.run_of_mem there
    have inside := within'.trans within
    refine ⟨?_, single.stands_of_tokens scanned inside⟩
    apply single.grammatical
    intro token there
    exact strewn.writable token (inside.subset there)
  · have ordered := (List.pairwise_map.mpr strewn.ordered.2).sublist (within.sublist.map Token.loc)
    exact List.pairwise_map.mp (ordered.sublist reads.locs_sublist)

end

/-- A group with a count in the body of a definition, behind a comment and an import. -/
def layered : String := "% c\n:m\x7buse #b (+2#^)f\x7d"

def layeredTokens : List Token :=
  [⟨.define "m", ⟨"m", 2, 1⟩⟩, ⟨.openBody, ⟨"m", 2, 3⟩⟩, ⟨.use, ⟨"m", 2, 4⟩⟩,
    ⟨.ref ⟨0, ["b"]⟩, ⟨"m", 2, 8⟩⟩, ⟨.openGroup, ⟨"m", 2, 11⟩⟩, ⟨.op .increment, ⟨"m", 2, 12⟩⟩,
    ⟨.count (.hex "2"), ⟨"m", 2, 13⟩⟩, ⟨.ref ⟨1, []⟩, ⟨"m", 2, 14⟩⟩, ⟨.closeGroup, ⟨"m", 2, 16⟩⟩,
    ⟨.count (.hex "f"), ⟨"m", 2, 17⟩⟩, ⟨.closeBody, ⟨"m", 2, 18⟩⟩]

def layeredMembers : List Item :=
  [.times (.hex "2") (.op .increment ⟨"m", 2, 12⟩) ⟨"m", 2, 12⟩, .ref ⟨1, []⟩ ⟨"m", 2, 14⟩]

def layeredItems : List Item :=
  [.define "m" [.use ⟨0, ["b"]⟩ ⟨"m", 2, 4⟩,
    .times (.hex "f") (.group layeredMembers ⟨"m", 2, 11⟩) ⟨"m", 2, 11⟩] ⟨"m", 2, 1⟩]

theorem parse_grammatical_layered :
    parse .extended "m" layered = .ok layeredItems ∧ Nested layeredMembers layeredItems ∧
      (∀ item ∈ layeredMembers, item.Grammatical ∧ item.Stands "m" layered.toList) ∧
      layeredMembers.Pairwise fun a b => a.loc.Before b.loc := by
  have scanned : Item.tokens .extended "m" layered = .ok layeredTokens := by decide +kernel
  have read : parse .extended "m" layered = .ok layeredItems := parse_of_tokens scanned
  have nested : Nested layeredMembers layeredItems := by
    apply Nested.body List.mem_cons_self
    apply Nested.target (List.mem_cons_of_mem _ List.mem_cons_self)
    apply Nested.members List.mem_cons_self
    exact .here
  exact ⟨read, nested, parse_grammatical read nested⟩

end Item

end ByteTape
