import ByteTape.Proofs.Item.Relocation

/-! # Texts one behind the other

When a text that can be read ends, nothing is open: no bracket, no comment and nothing that a
count could be put to. So another text can follow it after a line feed. What is read is what is
read of the one and then of the other, with the lines of the second text counted on from those
of the first. If the second text has an error, it is found where it is now.
-/

namespace ByteTape

namespace Location

/-- The position so many lines further down. -/
def down (n : Nat) (loc : Location) : Location := { loc with line := loc.line + n }

theorem steady_down (n : Nat) : Steady (down n) := by
  intro loc c
  unfold next
  split
  · simp only [down]
    congr 1
    omega
  · rfl

theorem after_line (file : String) (front : List Char) :
    (start file).after (front ++ ['\n']) = (start file).down (1 + front.count '\n') := by
  rw [after_start]
  simp only [behind, down, start, List.count_append, List.count_singleton_self, List.reverse_append,
    List.reverse_singleton, List.singleton_append]
  congr 1
  omega

end Location

namespace Token

theorem Value.Ends.joined {value : Value} {rest : List Char} (ends : value.Ends rest)
    (back : List Char) : value.Ends (rest ++ '\n' :: back) := by
  cases rest with
  | nil =>
      apply value.ends_of_blank
      intro c first
      cases first
      rfl
  | cons c rest => exact ends.of_head rfl

theorem cut_joined {loc : Location} {tight : Bool} {c : Char} {text : List Char} {piece : Cut}
    (found : cut loc tight c text = .ok piece) (back : List Char) :
    cut loc tight c (text ++ '\n' :: back) =
      .ok ⟨piece.value, piece.spelling, piece.rest ++ '\n' :: back⟩ := by
  obtain ⟨d, tail, spelled, -, -, done⟩ := (cut_spelled found).cut ((cut_ends found).joined back)
  have whole : d :: (tail ++ piece.rest) = c :: text := by
    rw [← (cut_of found).append, spelled, List.cons_append]
  obtain ⟨rfl, rfl⟩ := List.cons.inj whole
  rw [List.append_assoc]
  exact done loc tight (tight_of_cut found)

theorem scanFrom_joined {loc : Location} {tight : Bool} {front : List Char} {tokens : List Token}
    (h : scanFrom loc tight front = .ok tokens) (back : List Char) :
    scanFrom loc tight (front ++ '\n' :: back) =
      (scanFrom (loc.after (front ++ ['\n'])) false back).map (tokens ++ ·) := by
  fun_induction scanFrom loc tight front generalizing tokens with
  | case1 loc tight =>
      cases h
      rw [List.nil_append, scanFrom_blank rfl]
      exact (congrFun Except.map_id _).symm
  | case2 loc tight c text blank ih =>
      rw [List.cons_append, scanFrom_blank blank, ih h]
      rfl
  | case3 loc tight text _ comment =>
      rename_i ih
      have ends : ∀ c ∈ (text.dropWhile (· != '\n') ++ '\n' :: back).head?, c = '\n' := by
        have feed := feed_behind_line text
        cases rest : text.dropWhile (· != '\n') with
        | nil => simp
        | cons d rest' =>
            rw [rest] at feed
            exact feed
      rw [← line_append text, List.append_assoc, List.append_assoc, Location.after_append, ← ih h,
        List.cons_append]
      exact scanFrom_comment (not_mem_line text) ends loc tight
  | case4 | case5 => cases h
  | case6 loc tight c text visible plain piece found tokens scanned ih =>
      cases h
      rw [List.cons_append, scanFrom_cut visible plain (cut_joined found back), ih scanned,
        ← (cut_of found).append, List.append_assoc, Location.after_append loc piece.spelling]
      cases scanFrom _ false back <;> rfl

theorem scanOpsFrom_append (loc : Location) (front back : List Char) :
    scanOpsFrom loc (front ++ back) = scanOpsFrom loc front ++ scanOpsFrom (loc.after front) back := by
  fun_induction scanOpsFrom loc front with
  | case1 => rfl
  | case2 loc c text op found ih =>
      rw [List.cons_append, scanOpsFrom, found]
      simp only [ih]
      rfl
  | case3 loc c text other ih =>
      rw [List.cons_append, scanOpsFrom, other]
      exact ih

end Token

namespace Item

/-- By how many lines a text is lower that begins behind this one. -/
def linesOf (text : String) : Nat := 1 + text.toList.count '\n'

theorem tokens_joined {dialect : Dialect} {file first : String} {tokens : List Token}
    (h : Item.tokens dialect file first = .ok tokens) (second : String) :
    Item.tokens dialect file (first ++ "\n" ++ second) =
      (((Item.tokens dialect file second).mapError (TokenError.relocate (.down (linesOf first)))).map
        (List.map (Token.relocate (.down (linesOf first))))).map (tokens ++ ·) := by
  have chars : (first ++ "\n" ++ second).toList = first.toList ++ '\n' :: second.toList := by
    simp [String.toList_append]
  have steady := Location.steady_down (linesOf first)
  cases dialect with
  | extended =>
      simp only [Item.tokens, Token.scan] at h ⊢
      rw [chars, Token.scanFrom_joined h, Location.after_line, ← linesOf,
        Token.scanFrom_relocate steady]
  | plain =>
      cases h
      simp only [Item.tokens, Token.scanOps]
      have feed : Token.scanOpsFrom ((Location.start file).after first.toList) ['\n'] = [] := rfl
      rw [chars, ← List.singleton_append, ← List.append_assoc, Token.scanOpsFrom_append,
        Token.scanOpsFrom_append, feed, List.append_nil, Location.after_line, ← linesOf,
        Token.scanOpsFrom_relocate steady]
      rfl

/-- The items gathered so far, with others before them that were read earlier. Those are kept in
the outermost bracket if one is open. -/
def under (base : List Item) : List Frame → List Item → List Item
  | [], items => items ++ base
  | _ :: _, items => items

/-- The open brackets, with other items before all of them. -/
def beneath (base : List Item) : List Frame → List Frame
  | [] => []
  | .body name loc before :: frames => .body name loc (under base frames before) :: beneath base frames
  | .group loc before :: frames => .group loc (under base frames before) :: beneath base frames

section
variable (base : List Item)

theorem under_cons (frames : List Frame) (item : Item) (items : List Item) :
    under base frames (item :: items) = item :: under base frames items := by
  cases frames <;> rfl

theorem inGroup_beneath (frames : List Frame) : inGroup (beneath base frames) = inGroup frames := by
  cases frames with
  | nil => rfl
  | cons frame frames => cases frame <;> rfl

/-- Items that were read earlier stay as they are, whatever comes. Only a count with nothing else
before it could reach them. -/
theorem readFrom_beneath {frames : List Frame} {items : List Item} {tokens : List Token}
    (apart : readFrom frames items tokens ≠ .error .nothingToCount) :
    readFrom (beneath base frames) (under base frames items) tokens =
      (readFrom frames items tokens).map (base.reverse ++ ·) := by
  fun_induction readFrom frames items tokens with
  | case1 items =>
      rw [beneath, under, readFrom, List.reverse_append]
      rfl
  | case2 items frame frames => cases frame <;> rfl
  | case3 frames items loc tokens o ih | case4 frames items loc tokens ih
  | case5 frames items loc tokens bytes ih | case6 frames items loc tokens path ih =>
      rw [← ih apart, under_cons, readFrom]
  | case7 frames items loc tokens inside =>
      apply readFrom_use_inGroup
      rwa [inGroup_beneath]
  | case8 frames items loc outside path place tokens parent =>
      simp only [readFrom, inGroup_beneath, outside, parent, if_true]
      rfl
  | case9 frames items loc outside path place tokens down counted =>
      simp only [readFrom, inGroup_beneath, outside, down, counted, if_true]
      rfl
  | case10 frames items loc outside path place tokens down uncounted ih =>
      rw [← ih apart, under_cons]
      simp only [readFrom, inGroup_beneath, outside, down, uncounted]
      rfl
  | case11 frames items loc tokens outside other =>
      apply readFrom_use_other _ other
      rwa [inGroup_beneath]
  | case12 frames items loc tokens name inside =>
      apply readFrom_define_inGroup
      rwa [inGroup_beneath]
  | case13 frames items loc name outside place tokens ih =>
      rw [← ih apart]
      simp only [readFrom, inGroup_beneath, outside]
      rfl
  | case14 frames items loc tokens name outside other =>
      apply readFrom_define_other _ other
      rwa [inGroup_beneath]
  | case16 items loc tokens name opened before frames ih =>
      rw [← ih apart, under_cons]
      rfl
  | case20 items loc tokens opened before frames ih =>
      rw [← ih apart, under_cons]
      rfl
  | case19 frames items loc tokens ih =>
      rw [← ih apart]
      rfl
  | case21 frames items loc tokens other =>
      apply readFrom_closeGroup_other
      intro opened before rest same
      cases frames with
      | nil => cases same
      | cons frame frames =>
          cases frame with
          | body => cases same
          | group opened before => exact other opened before frames rfl
  | case22 frames loc tokens count item items ih => rw [← ih apart, under_cons, under_cons, readFrom]
  | case23 => exact absurd rfl apart
  | case15 | case17 | case18 | case24 => rfl

end

theorem not_countAhead_append {tokens rest : List Token} (uncounted : ¬ countAhead tokens)
    (apart : ¬ countAhead rest) : ¬ countAhead (tokens ++ rest) := by
  cases tokens with
  | nil => exact apart
  | cons token tokens =>
      rw [List.cons_append, Token.countAhead_cons_iff]
      rwa [Token.countAhead_cons_iff] at uncounted

/-- When tokens have been read to their end, nothing is open, and others can be read. -/
theorem readFrom_append {frames : List Frame} {items result : List Item} {tokens rest : List Token}
    (read : readFrom frames items tokens = .ok result) (apart : ¬ countAhead rest) :
    readFrom frames items (tokens ++ rest) = readFrom [] result.reverse rest := by
  fun_induction readFrom frames items tokens with
  | case1 items =>
      cases read
      rw [List.reverse_reverse, List.nil_append]
  | case2 | case7 | case8 | case9 | case11 | case12 | case14 | case15 | case17 | case18 | case21
  | case23 | case24 => cases read
  | case3 frames items loc tokens o ih | case4 frames items loc tokens ih
  | case5 frames items loc tokens bytes ih | case6 frames items loc tokens path ih
  | case16 items loc tokens name opened before frames ih | case19 frames items loc tokens ih
  | case20 items loc tokens opened before frames ih | case22 frames loc tokens count item items ih =>
      rw [← ih read]
      rfl
  | case10 frames items loc outside path place tokens down uncounted ih =>
      rw [← ih read]
      simp only [List.cons_append, readFrom, outside, down, not_countAhead_append uncounted apart]
      rfl
  | case13 frames items loc name outside place tokens ih =>
      rw [← ih read]
      simp only [List.cons_append, readFrom, outside]
      rfl

theorem ofTokens_append {tokens rest : List Token} {items : List Item}
    (read : ofTokens tokens = .ok items) (uncounted : ¬ countAhead rest)
    (apart : ofTokens rest ≠ .error .nothingToCount) :
    ofTokens (tokens ++ rest) = (ofTokens rest).map (items ++ ·) := by
  rw [ofTokens, readFrom_append read uncounted]
  have behind := readFrom_beneath items.reverse apart
  rwa [List.reverse_reverse] at behind

theorem ofTokens_relocate (f : Location → Location) (tokens : List Token) :
    ofTokens (tokens.map (Token.relocate f)) =
      ((ofTokens tokens).mapError (ItemError.relocate f)).map (List.map (relocate f)) :=
  readFrom_relocate f [] [] tokens

section
variable {dialect : Dialect} {file text : String} {tokens : List Token}

theorem parse_of_tokens (scanned : Item.tokens dialect file text = .ok tokens) :
    parse dialect file text = (ofTokens tokens).mapError .item := by
  rw [parse, scanned]
  dsimp only
  cases ofTokens tokens <;> rfl

theorem counted_of_tokens (scanned : Item.tokens dialect file text = .ok tokens) :
    ofTokens tokens ≠ .error .nothingToCount := by
  intro failed
  have outcome : Outcome (fun _ => True) (ofTokens tokens) :=
    outcome_of_tokens scanned fun _ _ => trivial
  rw [failed] at outcome
  exact outcome

end

theorem parse_append {dialect : Dialect} {file first : String} {items : List Item}
    (read : parse dialect file first = .ok items) (second : String) :
    parse dialect file (first ++ "\n" ++ second) =
      ((parse dialect file second).mapError (ReadError.relocate (.down (linesOf first)))).map
        fun more => items ++ more.map (relocate (.down (linesOf first))) := by
  obtain ⟨tokens, scanned, found⟩ := exists_tokens_of_parse read
  have joined := tokens_joined scanned second
  cases scanned' : Item.tokens dialect file second with
  | error e =>
      rw [scanned'] at joined
      rw [parse, parse, scanned', joined]
      rfl
  | ok more =>
      rw [scanned'] at joined
      have uncounted := (Token.tight_of_tokens scanned').2
      have counted := counted_of_tokens scanned'
      have moved := ofTokens_relocate (.down (linesOf first)) more
      rw [parse_of_tokens joined, parse_of_tokens scanned', ofTokens_append found, moved]
      · cases ofTokens more <;> rfl
      · rwa [countAhead_relocate]
      · rw [moved]
        intro failed
        apply counted
        cases found' : ofTokens more with
        | ok =>
            rw [found'] at failed
            cases failed
        | error e =>
            rw [found'] at failed
            cases e <;> cases failed
            rfl

end Item

section
variable (f : Location → Location)

theorem TokenError.report_relocate (e : TokenError) :
    (e.relocate f).report = .located .lex e.message (f e.loc) := by
  cases e <;> rfl

theorem ItemError.report_relocate {e : ItemError} (counted : e ≠ .nothingToCount) :
    ∃ kind message loc, e.report = .located kind message loc ∧
      (e.relocate f).report = .located kind message (f loc) := by
  cases e with
  | nothingToCount => exact absurd rfl counted
  | declarationInGroup loc | useOfNothing loc | useOfParent loc | useRepeated loc | bodyMissing loc
  | bodyNameless loc | bodyEndLoose loc | bodyOpen name loc | groupEndLoose loc | groupOpen loc
  | unknownToken type loc => exact ⟨_, _, loc, rfl, rfl⟩

end

namespace Item

/-- A text can be put on the line behind one that can be read. It is read as if it stood alone, and
its items follow the others. If it cannot be read alone, neither can the two, and the report is of
the same kind and has the same message. Each position of it is lower by the lines of the first text. -/
theorem parse_joined {dialect : Dialect} {file first : String} {items : List Item}
    (read : parse dialect file first = .ok items) (second : String) :
    (∀ all, parse dialect file (first ++ "\n" ++ second) = .ok all ↔
      ∃ more, parse dialect file second = .ok more ∧
        all = items ++ more.map (relocate (.down (1 + first.toList.count '\n')))) ∧
    ∀ e, parse dialect file second = .error e →
      ∃ e' kind message loc, parse dialect file (first ++ "\n" ++ second) = .error e' ∧
        e.report = .located kind message loc ∧
        e'.report = .located kind message (loc.down (1 + first.toList.count '\n')) := by
  have joined := parse_append read second
  rw [joined, ← linesOf]
  constructor
  · intro all
    cases parse dialect file second with
    | error e => simp [Except.map, Except.mapError]
    | ok more => simp [Except.map, Except.mapError, eq_comm]
  · intro e failed
    rw [failed]
    cases e with
    | token e => exact ⟨_, .lex, e.message, e.loc, rfl, rfl, e.report_relocate _⟩
    | item e =>
        have counted : e ≠ .nothingToCount := by
          rintro rfl
          exact blames_of_parse failed fun _ _ _ _ => trivial
        obtain ⟨kind, message, loc, report, moved⟩ := ItemError.report_relocate _ counted
        exact ⟨_, kind, message, loc, rfl, report, moved⟩

/-- The first text ends in what could be counted. One text behind it is read, and another one begins
with a digit, which still counts nothing. -/
theorem parse_joined_group :
    parse .extended "m" "(+\n)" = .ok [.group [.op .increment ⟨"m", 1, 2⟩] ⟨"m", 1, 1⟩] ∧
      parse .extended "m" "(+\n)\n:e\x7b-3\x7d" =
        .ok [.group [.op .increment ⟨"m", 1, 2⟩] ⟨"m", 1, 1⟩,
          .define "e" [.times (.hex "3") (.op .decrement ⟨"m", 3, 4⟩) ⟨"m", 3, 4⟩] ⟨"m", 3, 1⟩] ∧
      ∃ e, parse .extended "m" "(+\n)\n2" = .error e ∧ e.report.kind = .lex ∧
        e.report.place = some (.source ⟨"m", 3, 1⟩) := by
  have scanned : Item.tokens .extended "m" "(+\n)" =
      .ok [⟨.openGroup, ⟨"m", 1, 1⟩⟩, ⟨.op .increment, ⟨"m", 1, 2⟩⟩, ⟨.closeGroup, ⟨"m", 2, 1⟩⟩] := by
    decide +kernel
  have scanned' : Item.tokens .extended "m" ":e\x7b-3\x7d" =
      .ok [⟨.define "e", ⟨"m", 1, 1⟩⟩, ⟨.openBody, ⟨"m", 1, 3⟩⟩, ⟨.op .decrement, ⟨"m", 1, 4⟩⟩,
        ⟨.count (.hex "3"), ⟨"m", 1, 5⟩⟩, ⟨.closeBody, ⟨"m", 1, 6⟩⟩] := by
    decide +kernel
  have read : parse .extended "m" "(+\n)" =
      .ok [.group [.op .increment ⟨"m", 1, 2⟩] ⟨"m", 1, 1⟩] := parse_of_tokens scanned
  have stray : Item.tokens .extended "m" "2" = .error (.stray '2' ⟨"m", 1, 1⟩) := by decide +kernel
  have failed : parse .extended "m" "2" = .error (.token (.stray '2' ⟨"m", 1, 1⟩)) := by
    rw [parse, stray]
  obtain ⟨e, kind, message, loc, joined, report, moved⟩ := (parse_joined read "2").2 _ failed
  refine ⟨read, ?_, e, joined, ?_, ?_⟩
  · apply ((parse_joined read ":e\x7b-3\x7d").1 _).mpr
    refine ⟨_, parse_of_tokens scanned', ?_⟩
    simp [relocate, relocateAll, Location.down, Item.loc]
  · rw [moved]
    exact (congrArg Report.kind report).symm
  · have place : some (Place.source ⟨"m", 1, 1⟩) = some (.source loc) := congrArg Report.place report
    cases place
    rw [moved]
    rfl

end Item

end ByteTape
