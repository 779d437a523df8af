import ByteTape.Proofs.Item.Flattening
import ByteTape.Proofs.Token.Ending

/-! # Texts that stand elsewhere

What is read from a text is independent of where the text begins. If all of its positions are
changed in a way that going over a character does not notice, such as a shift by some lines or
another name of the file, the same is read, and each position in it is changed in this way. An
error stays the same error, too.
-/

namespace ByteTape

/-- Going over a character commutes with the change of positions. -/
def Location.Steady (f : Location → Location) : Prop := ∀ loc c, (f loc).next c = f (loc.next c)

theorem Location.Steady.after {f : Location → Location} (steady : Steady f) (loc : Location)
    (text : List Char) : (f loc).after text = f (loc.after text) := by
  induction text generalizing loc with
  | nil => rfl
  | cons c text ih => rw [after_cons, after_cons, steady, ih]

def TokenError.relocate (f : Location → Location) : TokenError → TokenError
  | looseCount loc => looseCount (f loc)
  | stray c loc => stray c (f loc)
  | nameless loc => nameless (f loc)
  | countEnds loc => countEnds (f loc)
  | wideCount c loc => wideCount c (f loc)
  | longCount c loc => longCount c (f loc)
  | badEscape c loc => badEscape c (f loc)
  | wideText c loc => wideText c (f loc)
  | openText loc => openText (f loc)
  | stepMissing loc => stepMissing (f loc)
  | pathMissing loc => pathMissing (f loc)

def ItemError.relocate (f : Location → Location) : ItemError → ItemError
  | declarationInGroup loc => declarationInGroup (f loc)
  | useOfNothing loc => useOfNothing (f loc)
  | useOfParent loc => useOfParent (f loc)
  | useRepeated loc => useRepeated (f loc)
  | bodyMissing loc => bodyMissing (f loc)
  | bodyNameless loc => bodyNameless (f loc)
  | bodyEndLoose loc => bodyEndLoose (f loc)
  | bodyOpen name loc => bodyOpen name (f loc)
  | groupEndLoose loc => groupEndLoose (f loc)
  | groupOpen loc => groupOpen (f loc)
  | unknownToken type loc => unknownToken type (f loc)
  | nothingToCount => nothingToCount

def ReadError.relocate (f : Location → Location) : ReadError → ReadError
  | token e => token (e.relocate f)
  | item e => item (e.relocate f)

namespace Token

def relocate (f : Location → Location) (token : Token) : Token := ⟨token.value, f token.loc⟩

section
variable {f : Location → Location}

theorem cutHexCount_relocate (steady : Location.Steady f) (loc : Location) (c : Char)
    (text : List Char) :
    cutHexCount (f loc) c text = (cutHexCount loc c text).mapError (TokenError.relocate f) := by
  unfold cutHexCount
  split
  · split
    · split
      · rw [steady.after]
        rfl
      · rfl
    · rfl
  · split <;> rfl
  · rfl

theorem cutCharCount_relocate (loc : Location) (text : List Char) :
    cutCharCount (f loc) text = (cutCharCount loc text).mapError (TokenError.relocate f) := by
  unfold cutCharCount
  split
  · rfl
  · split
    · rfl
    · split <;> rfl

theorem cutText_relocate (steady : Location.Steady f) (start loc : Location) (text : List Char) :
    cutText (f start) (f loc) text = (cutText start loc text).mapError (TokenError.relocate f) := by
  fun_induction cutText start loc text with
  | case1 | case2 | case3 => rfl
  | case4 loc c text unknown =>
      simp only [cutText, unknown, steady loc]
      rfl
  | case5 loc c text byte known e found ih | case6 loc c text byte known _ _ _ found ih =>
      rw [found] at ih
      simp only [cutText, known, steady.after, ih]
      rfl
  | case7 loc c text alone quote escape wide =>
      rw [cutText_ordinary quote (not_escape alone escape), if_pos wide]
      rfl
  | case8 loc c text alone quote escape narrow e found ih
  | case9 loc c text alone quote escape narrow _ _ _ found ih =>
      rw [found] at ih
      rw [cutText_ordinary quote (not_escape alone escape), if_neg narrow, steady, ih]
      rfl

theorem cutSteps_relocate (steady : Location.Steady f) (loc : Location) (text : List Char) :
    cutSteps (f loc) text = (cutSteps loc text).mapError (TokenError.relocate f) := by
  fun_induction cutSteps loc text with
  | case1 loc text name none =>
      rw [cutSteps, if_pos none, steady]
      rfl
  | case2 loc text name rest some e found ih =>
      rw [found] at ih
      rw [cutSteps, if_neg some, steady.after, ih]
      rfl
  | case3 loc text name rest some =>
      rename_i found ih
      rw [found] at ih
      rw [cutSteps, if_neg some, steady.after, ih]
      rfl
  | case4 loc text unmarked =>
      rw [cutSteps]
      · rfl
      · exact unmarked

theorem cutReference_relocate (steady : Location.Steady f) (loc : Location) (text : List Char) :
    cutReference (f loc) text = (cutReference loc text).mapError (TokenError.relocate f) := by
  unfold cutReference
  dsimp only
  split
  · split <;> rfl
  · rw [steady.after, cutSteps_relocate steady]
    cases cutSteps (loc.after _) _ <;> rfl

theorem cutDefine_relocate (loc : Location) (text : List Char) :
    cutDefine (f loc) text = (cutDefine loc text).mapError (TokenError.relocate f) := by
  unfold cutDefine
  dsimp only
  split <;> rfl

theorem cut_relocate (steady : Location.Steady f) (loc : Location) (tight : Bool) (c : Char)
    (text : List Char) :
    cut (f loc) tight c text = (cut loc tight c text).mapError (TokenError.relocate f) := by
  unfold cut
  split
  · exact cutHexCount_relocate steady loc c text
  · split
    · split
      · exact cutCharCount_relocate loc text
      · rfl
    · split
      · rfl
      · split
        · rfl
        · split
          · rw [steady, cutText_relocate steady]
            cases cutText loc (loc.next c) text <;> rfl
          · split
            · exact cutReference_relocate steady loc text
            · split
              · exact cutDefine_relocate loc text
              · split
                · rfl
                · split
                  · split <;> rfl
                  · rfl

theorem scanFrom_error {loc : Location} {tight : Bool} {c : Char} {text : List Char} {e : TokenError}
    (visible : ¬ Text.isBlank c) (plain : c ≠ '%') (failed : cut loc tight c text = .error e) :
    scanFrom loc tight (c :: text) = .error e := by
  rw [scanFrom.eq_def]
  dsimp only
  rw [if_neg visible, if_neg plain]
  split
  · next found =>
      cases found.symm.trans failed
      rfl
  · next found => cases found.symm.trans failed

theorem scanFrom_relocate (steady : Location.Steady f) (loc : Location) (tight : Bool)
    (text : List Char) :
    scanFrom (f loc) tight text =
      ((scanFrom loc tight text).mapError (TokenError.relocate f)).map (List.map (relocate f)) := by
  fun_induction scanFrom loc tight text with
  | case1 loc tight =>
      rw [scanFrom_nil]
      rfl
  | case2 loc tight c text blank ih => rw [scanFrom_blank blank, steady, ih]
  | case3 loc tight text blank comment ih =>
      rw [← line_append text, List.cons_append, scanFrom_comment (not_mem_line text) (feed_behind_line text),
        steady.after, ih]
  | case4 loc tight c text visible plain e failed =>
      apply scanFrom_error visible plain
      rw [cut_relocate steady, failed]
      rfl
  | case5 loc tight c text visible plain piece found e scanned ih
  | case6 loc tight c text visible plain piece found tokens scanned ih =>
      have found' : cut (f loc) tight c text = .ok piece := by
        rw [cut_relocate steady, found]
        rfl
      rw [scanned] at ih
      rw [scanFrom_cut visible plain found', steady.after, ih]
      rfl

theorem scanOpsFrom_relocate (steady : Location.Steady f) (loc : Location) (text : List Char) :
    scanOpsFrom (f loc) text = (scanOpsFrom loc text).map (relocate f) := by
  fun_induction scanOpsFrom loc text with
  | case1 => rfl
  | case2 loc c text op found ih =>
      rw [scanOpsFrom, found]
      simp only [steady loc c, ih, List.map_cons]
      rfl
  | case3 loc c text other ih =>
      rw [scanOpsFrom, other]
      simp only [steady loc c, ih]

end

end Token

namespace Item

mutual

/-- The item with its positions changed, and those of all that stands in it. -/
def relocate (f : Location → Location) : Item → Item
  | .op o loc => .op o (f loc)
  | .debug loc => .debug (f loc)
  | .text bytes loc => .text bytes (f loc)
  | .ref path loc => .ref path (f loc)
  | .use path loc => .use path (f loc)
  | .define name body loc => .define name (relocateAll f body) (f loc)
  | .group members loc => .group (relocateAll f members) (f loc)
  | .times count target loc => .times count (relocate f target) (f loc)

def relocateAll (f : Location → Location) : List Item → List Item
  | [] => []
  | first :: rest => relocate f first :: relocateAll f rest

end

section
variable (f : Location → Location)

theorem relocateAll_eq_map (items : List Item) : relocateAll f items = items.map (relocate f) := by
  induction items with
  | nil => rfl
  | cons first rest ih => rw [relocateAll, ih, List.map_cons]

theorem loc_relocate (item : Item) : (item.relocate f).loc = f item.loc := by
  cases item <;> simp only [relocate, loc]

def Frame.relocate : Frame → Frame
  | .body name loc before => .body name (f loc) (before.map (Item.relocate f))
  | .group loc before => .group (f loc) (before.map (Item.relocate f))

theorem inGroup_relocate (frames : List Frame) :
    inGroup (frames.map (Frame.relocate f)) = inGroup frames := by
  cases frames with
  | nil => rfl
  | cons frame frames => cases frame <;> rfl

theorem countAhead_relocate (tokens : List Token) :
    countAhead (tokens.map (Token.relocate f)) = countAhead tokens := by
  cases tokens with
  | nil => rfl
  | cons token tokens =>
      obtain ⟨value, loc⟩ := token
      cases value <;> rfl

end

section
variable {frames : List Frame} {items : List Item} {loc : Location} {tokens : List Token}

theorem readFrom_use_inGroup (inside : inGroup frames) :
    readFrom frames items (⟨.use, loc⟩ :: tokens) = .error (.declarationInGroup loc) := by
  rw [readFrom.eq_def]
  exact if_pos inside

theorem readFrom_define_inGroup {name : String} (inside : inGroup frames) :
    readFrom frames items (⟨.define name, loc⟩ :: tokens) = .error (.declarationInGroup loc) := by
  rw [readFrom.eq_def]
  exact if_pos inside

theorem readFrom_use_other (outside : ¬ inGroup frames)
    (other : ∀ path place rest, tokens = ⟨.ref path, place⟩ :: rest → False) :
    readFrom frames items (⟨.use, loc⟩ :: tokens) = .error (.useOfNothing loc) := by
  rw [readFrom.eq_def]
  dsimp only
  rw [if_neg outside]
  split
  · next path place rest => exact (other path place rest rfl).elim
  · rfl

theorem readFrom_define_other {name : String} (outside : ¬ inGroup frames)
    (other : ∀ place rest, tokens = ⟨.openBody, place⟩ :: rest → False) :
    readFrom frames items (⟨.define name, loc⟩ :: tokens) = .error (.bodyMissing loc) := by
  rw [readFrom.eq_def]
  dsimp only
  rw [if_neg outside]
  split
  · next place rest => exact (other place rest rfl).elim
  · rfl

theorem readFrom_closeGroup_other
    (other : ∀ opened before rest, frames = .group opened before :: rest → False) :
    readFrom frames items (⟨.closeGroup, loc⟩ :: tokens) = .error (.groupEndLoose loc) := by
  rw [readFrom.eq_def]
  dsimp only
  split
  · next opened before rest => exact (other opened before rest rfl).elim
  · rfl

end

theorem readFrom_relocate (f : Location → Location) (frames : List Frame) (items : List Item)
    (tokens : List Token) :
    readFrom (frames.map (Frame.relocate f)) (items.map (relocate f)) (tokens.map (Token.relocate f)) =
      ((readFrom frames items tokens).mapError (ItemError.relocate f)).map (List.map (relocate f)) := by
  fun_induction readFrom frames items tokens with
  | case1 items =>
      rw [List.map_nil, List.map_nil, readFrom, ← List.map_reverse]
      rfl
  | case2 items frame frames => cases frame <;> rfl
  | case3 frames items loc tokens o ih | case4 frames items loc tokens ih
  | case5 frames items loc tokens bytes ih | case6 frames items loc tokens path ih =>
      rw [← ih]
      simp only [List.map_cons, Token.relocate, readFrom, relocate]
  | case7 frames items loc tokens inside =>
      apply readFrom_use_inGroup
      rwa [inGroup_relocate]
  | case8 frames items loc outside path place tokens parent =>
      simp only [List.map_cons, Token.relocate, readFrom, inGroup_relocate, outside, parent, if_true]
      rfl
  | case9 frames items loc outside path place tokens down counted =>
      simp only [List.map_cons, Token.relocate, readFrom, inGroup_relocate, outside, down,
        countAhead_relocate, counted, if_true]
      rfl
  | case10 frames items loc outside path place tokens down uncounted ih =>
      rw [← ih]
      simp only [List.map_cons, Token.relocate, readFrom, inGroup_relocate, outside, down,
        countAhead_relocate, uncounted, relocate]
      rfl
  | case11 frames items loc tokens outside other =>
      apply readFrom_use_other
      · rwa [inGroup_relocate]
      · intro path place rest same
        obtain ⟨⟨value, loc⟩, behind, rfl, first, -⟩ := List.map_eq_cons_iff.mp same
        cases first
        exact other path loc behind rfl
  | case12 frames items loc tokens name inside =>
      apply readFrom_define_inGroup
      rwa [inGroup_relocate]
  | case13 frames items loc name outside place tokens ih =>
      rw [← ih]
      simp only [List.map_cons, Token.relocate, readFrom, inGroup_relocate, outside]
      rfl
  | case14 frames items loc tokens name outside other =>
      apply readFrom_define_other
      · rwa [inGroup_relocate]
      · intro place rest same
        obtain ⟨⟨value, loc⟩, behind, rfl, first, -⟩ := List.map_eq_cons_iff.mp same
        cases first
        exact other loc behind rfl
  | case15 => rfl
  | case16 items loc tokens name opened before frames ih =>
      rw [← ih]
      simp only [List.map_cons, Token.relocate, readFrom, Frame.relocate, relocate, relocateAll_eq_map,
        List.map_reverse]
  | case17 => rfl
  | case18 => rfl
  | case19 frames items loc tokens ih =>
      rw [← ih]
      simp only [List.map_cons, Token.relocate, readFrom, Frame.relocate]
      rfl
  | case20 items loc tokens opened before frames ih =>
      rw [← ih]
      simp only [List.map_cons, Token.relocate, readFrom, Frame.relocate, relocate, relocateAll_eq_map,
        List.map_reverse]
  | case21 frames items loc tokens other =>
      apply readFrom_closeGroup_other
      intro opened before rest same
      obtain ⟨frame, behind, rfl, first, -⟩ := List.map_eq_cons_iff.mp same
      cases frame with
      | body => cases first
      | group opened before => exact other opened before behind rfl
  | case22 frames loc tokens count item items ih =>
      rw [← ih]
      simp only [List.map_cons, Token.relocate, readFrom, relocate, loc_relocate]
  | case23 => rfl
  | case24 => rfl

end Item

end ByteTape
