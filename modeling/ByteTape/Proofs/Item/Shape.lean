import ByteTape.Item.Read
import ByteTape.Proofs.Text.Numeral

/-! # The shape of items that are read

Items that come from a text are less free than items as such. A count has a value
and stands behind something that can be counted; definitions and imports stand
directly in a body, never in a group and never under a count. Every item is made of
a token and stands where that token stands, and what is wrong with tokens is wrong
with one of them.
-/

namespace ByteTape

/-- The count stands for some number. -/
def Count.Valued (count : Count) : Prop := ∃ n, count.value = .ok n

namespace Token

/-- Every count is valued and follows what can be counted. -/
def Tight : List Token → Prop
  | [] => True
  | token :: rest =>
    (∀ count, token.value = .count count → count.Valued) ∧
      (Item.countAhead rest → token.value.isCountable) ∧ Tight rest

theorem countAhead_cons_iff {token : Token} {rest : List Token} :
    Item.countAhead (token :: rest) ↔ ∃ count, token.value = .count count := by
  obtain ⟨value, loc⟩ := token
  cases value <;> simp [Item.countAhead]

theorem valued_of_hex {text : List Char} (digits : ∀ c ∈ text, Text.isHexDigit c)
    (nonempty : text ≠ []) : (Count.hex (String.ofList text)).Valued := by
  obtain ⟨n, -, known⟩ := Text.integer_of_isHexDigit digits nonempty
  exact ⟨n, by rw [Count.value, known]⟩

theorem cutHexCount_digits {loc : Location} {c : Char} {text : List Char} {piece : Cut}
    (h : cutHexCount loc c text = .ok piece) :
    ∃ digits, (digits = [c] ∨ ∃ d, digits = [c, d] ∧ Text.isHexDigit d) ∧
      piece.value = .count (.hex (String.ofList digits)) ∧ piece.spelling = digits := by
  unfold cutHexCount at h
  split at h
  · split at h
    · next digit =>
        split at h
        · cases h
        · cases h
          exact ⟨_, .inr ⟨_, rfl, digit⟩, rfl, rfl⟩
    · cases h
      exact ⟨_, .inl rfl, rfl, rfl⟩
  · split at h
    · next digit =>
        cases h
        exact ⟨_, .inr ⟨_, rfl, digit⟩, rfl, rfl⟩
    · cases h
      exact ⟨_, .inl rfl, rfl, rfl⟩
  · cases h
    exact ⟨_, .inl rfl, rfl, rfl⟩

theorem cutHexCount_valued {loc : Location} {c : Char} {text : List Char} {piece : Cut}
    (digit : Text.isHexDigit c) (h : cutHexCount loc c text = .ok piece) :
    ∃ count : Count, piece.value = .count count ∧ count.Valued := by
  obtain ⟨digits, rfl | ⟨d, rfl, digit'⟩, same, -⟩ := cutHexCount_digits h
  · exact ⟨_, same, valued_of_hex (by simpa) (by simp)⟩
  · exact ⟨_, same, valued_of_hex (by simp [digit, digit']) (by simp)⟩

theorem cutCharCount_char {loc : Location} {text : List Char} {piece : Cut}
    (h : cutCharCount loc text = .ok piece) :
    ∃ c : Char, c ≠ '\n' ∧ c.toNat ≤ 0xff ∧ piece.value = .count (.char (String.ofList [c])) ∧
      piece.spelling = ['\x27', c] := by
  unfold cutCharCount at h
  split at h
  · cases h
  · next c rest =>
      split at h
      · cases h
      · next line =>
          split at h
          · cases h
          · next wide =>
              cases h
              exact ⟨c, line, by omega, rfl, rfl⟩

theorem cutCharCount_valued {loc : Location} {text : List Char} {piece : Cut}
    (h : cutCharCount loc text = .ok piece) :
    ∃ count : Count, piece.value = .count count ∧ count.Valued := by
  obtain ⟨c, -, -, same, -⟩ := cutCharCount_char h
  exact ⟨_, same, c.toNat, by simp [Count.value]⟩

theorem cutReference_value {loc : Location} {text : List Char} {piece : Cut}
    (h : cutReference loc text = .ok piece) : ∃ path, piece.value = .ref path := by
  unfold cutReference at h
  dsimp only at h
  split at h
  · split at h
    · cases h
    · cases h
      exact ⟨_, rfl⟩
  · split at h
    · cases h
    · cases h
      exact ⟨_, rfl⟩

theorem cutDefine_value {loc : Location} {text : List Char} {piece : Cut}
    (h : cutDefine loc text = .ok piece) : ∃ name, piece.value = .define name := by
  unfold cutDefine at h
  dsimp only at h
  split at h
  · cases h
  · cases h
    exact ⟨_, rfl⟩

theorem bracket_value {c : Char} {value : Value} (h : bracket? c = some value) (count : Count) :
    value ≠ .count count := by
  unfold bracket? at h
  split at h <;> cases h <;> exact Value.noConfusion

/-- A count is cut only where one can stand, and has a value. -/
theorem valued_of_cut {loc : Location} {tight : Bool} {c : Char} {text : List Char} {piece : Cut}
    {count : Count} (h : cut loc tight c text = .ok piece) (counts : piece.value = .count count) :
    tight = true ∧ count.Valued := by
  have branch := cut_branch loc tight c text
  generalize cut loc tight c text = result at branch h
  cases branch with
  | hexCount place digit =>
      obtain ⟨count', same, valued⟩ := cutHexCount_valued digit h
      cases same.symm.trans counts
      exact ⟨place, valued⟩
  | charCount place mark =>
      obtain ⟨count', same, valued⟩ := cutCharCount_valued h
      cases same.symm.trans counts
      exact ⟨place, valued⟩
  | loose | badText | stray => cases h
  | op | debug | text | use =>
      cases h
      cases counts
  | reference mark =>
      obtain ⟨path, same⟩ := cutReference_value h
      cases same.symm.trans counts
  | define mark =>
      obtain ⟨name, same⟩ := cutDefine_value h
      cases same.symm.trans counts
  | bracket known =>
      cases h
      exact absurd counts (bracket_value known count)

theorem tight_of_scanFrom {loc : Location} {tight : Bool} {text : List Char} {tokens : List Token}
    (h : scanFrom loc tight text = .ok tokens) :
    Tight tokens ∧ (Item.countAhead tokens → tight = true) := by
  fun_induction scanFrom loc tight text generalizing tokens with
  | case1 =>
      cases h
      exact ⟨trivial, fun ahead => by cases ahead⟩
  | case2 loc tight c text blank ih =>
      obtain ⟨rest, apart⟩ := ih h
      exact ⟨rest, fun ahead => by cases apart ahead⟩
  | case3 =>
      rename_i ih
      obtain ⟨rest, apart⟩ := ih h
      exact ⟨rest, fun ahead => by cases apart ahead⟩
  | case4 => cases h
  | case5 => cases h
  | case6 loc tight c text blank mark piece found tokens scanned ih =>
      cases h
      obtain ⟨rest, tied⟩ := ih scanned
      refine ⟨⟨fun count counts => (valued_of_cut found counts).2, tied, rest⟩, fun ahead => ?_⟩
      obtain ⟨count, counts⟩ := countAhead_cons_iff.mp ahead
      exact (valued_of_cut found counts).1

theorem tight_of_scanOpsFrom (loc : Location) (text : List Char) : Tight (scanOpsFrom loc text) := by
  fun_induction scanOpsFrom loc text with
  | case1 => trivial
  | case2 loc c text op found ih => exact ⟨fun count counts => (by cases counts), fun _ => rfl, ih⟩
  | case3 loc c text _ ih => exact ih

theorem not_countAhead_scanOpsFrom (loc : Location) (text : List Char) :
    ¬ Item.countAhead (scanOpsFrom loc text) := by
  fun_induction scanOpsFrom loc text with
  | case1 => simp [Item.countAhead]
  | case2 => simp [Item.countAhead]
  | case3 _ _ _ _ ih => exact ih

theorem tight_of_tokens {dialect : Dialect} {file text : String} {tokens : List Token}
    (h : Item.tokens dialect file text = .ok tokens) :
    Tight tokens ∧ ¬ Item.countAhead tokens := by
  cases dialect with
  | extended =>
      obtain ⟨tight, apart⟩ := tight_of_scanFrom h
      exact ⟨tight, fun ahead => by cases apart ahead⟩
  | plain =>
      cases h
      exact ⟨tight_of_scanOpsFrom _ _, not_countAhead_scanOpsFrom _ _⟩

end Token

namespace Item

/-- Nothing is declared in the item and its counts are valued, so that it has code
if its references have. -/
inductive Expandable : Item → Prop where
  | op (o : Op) (loc : Location) : Expandable (.op o loc)
  | debug (loc : Location) : Expandable (.debug loc)
  | text (bytes : List UInt8) (loc : Location) : Expandable (.text bytes loc)
  | ref (path : Path) (loc : Location) : Expandable (.ref path loc)
  | group {members : List Item} (loc : Location) (inside : ∀ item ∈ members, Expandable item) :
    Expandable (.group members loc)
  | times {count : Count} {target : Item} (loc : Location) (valued : count.Valued)
    (inside : Expandable target) : Expandable (.times count target loc)

/-- What is declared in the item is declared directly in a body. -/
inductive Orderly : Item → Prop where
  | plain {item : Item} (fit : Expandable item) : Orderly item
  | use (path : Path) (loc : Location) : Orderly (.use path loc)
  | define {body : List Item} (name : String) (loc : Location)
    (inside : ∀ item ∈ body, Orderly item) : Orderly (.define name body loc)

/-- The item is made of tokens of this kind, and stands where its first token stands. -/
inductive Made (kind : Token → Prop) : Item → Prop where
  | op {o : Op} {loc : Location} (known : kind ⟨.op o, loc⟩) : Made kind (.op o loc)
  | debug {loc : Location} (known : kind ⟨.debug, loc⟩) : Made kind (.debug loc)
  | text {bytes : List UInt8} {loc : Location} (known : kind ⟨.text bytes, loc⟩) :
    Made kind (.text bytes loc)
  | ref {path : Path} {loc : Location} (known : kind ⟨.ref path, loc⟩) : Made kind (.ref path loc)
  | use {loc : Location} (path : Path) (known : kind ⟨.use, loc⟩) : Made kind (.use path loc)
  | define {name : String} {body : List Item} {loc : Location} (known : kind ⟨.define name, loc⟩)
    (inside : ∀ item ∈ body, Made kind item) : Made kind (.define name body loc)
  | group {members : List Item} {loc : Location} (known : kind ⟨.openGroup, loc⟩)
    (inside : ∀ item ∈ members, Made kind item) : Made kind (.group members loc)
  | times {target : Item} (count : Count) (inside : Made kind target) :
    Made kind (.times count target target.loc)

end Item

/-- What is wrong is wrong with a token of this kind. -/
def ItemError.Blames (kind : Token → Prop) : ItemError → Prop
  | declarationInGroup loc | useOfNothing loc | useOfParent loc | useRepeated loc | bodyMissing loc
  | bodyNameless loc | bodyEndLoose loc => ∃ value, kind ⟨value, loc⟩
  | bodyOpen name loc => kind ⟨.define name, loc⟩
  | groupEndLoose loc => kind ⟨.closeGroup, loc⟩
  | groupOpen loc => kind ⟨.openGroup, loc⟩
  | unknownToken type loc => kind ⟨.other type, loc⟩
  | nothingToCount => False

namespace Item

variable {kind : Token → Prop}

/-- The item may stand in the innermost open bracket. -/
structure Allowed (kind : Token → Prop) (frames : List Frame) (item : Item) : Prop where
  made : item.Made kind
  shape : if inGroup frames then item.Expandable else item.Orderly

theorem Allowed.orderly {frames : List Frame} {item : Item} (h : Allowed kind frames item) :
    item.Orderly := by
  have shape := h.shape
  split at shape
  · exact .plain shape
  · exact shape

theorem Expandable.allowed {frames : List Frame} {item : Item} (h : item.Expandable)
    (made : item.Made kind) : Allowed kind frames item := by
  refine ⟨made, ?_⟩
  split
  · exact h
  · exact .plain h

/-- The items before each open bracket may stand there, and a body may. -/
def Stacked (kind : Token → Prop) : List Frame → Prop
  | [] => True
  | .body name loc before :: frames =>
    kind ⟨.define name, loc⟩ ∧ inGroup frames = false ∧
      (∀ item ∈ before, Allowed kind frames item) ∧ Stacked kind frames
  | .group loc before :: frames =>
    kind ⟨.openGroup, loc⟩ ∧ (∀ item ∈ before, Allowed kind frames item) ∧ Stacked kind frames

/-- What holds while tokens are read. -/
structure Reading (kind : Token → Prop) (frames : List Frame) (items : List Item)
    (tokens : List Token) : Prop where
  stacked : Stacked kind frames
  allowed : ∀ item ∈ items, Allowed kind frames item
  tight : Token.Tight tokens
  known : ∀ token ∈ tokens, kind token
  counted : countAhead tokens → ∃ item rest, items = item :: rest ∧ item.Expandable

/-- Items of this kind, or an error about a token of this kind. -/
def Outcome (kind : Token → Prop) : Except ItemError (List Item) → Prop
  | .ok items => ∀ item ∈ items, item.Orderly ∧ item.Made kind
  | .error e => e.Blames kind

namespace Reading

variable {frames : List Frame} {items result : List Item} {item : Item} {token : Token}
  {tokens : List Token}

theorem push (stacked : Stacked kind frames) (allowed : ∀ item ∈ items, Allowed kind frames item)
    (tight : Token.Tight tokens) (known : ∀ token ∈ tokens, kind token) (fit : item.Expandable)
    (made : item.Made kind) : Reading kind frames (item :: items) tokens :=
  ⟨stacked, List.forall_mem_cons.mpr ⟨fit.allowed made, allowed⟩, tight, known,
    fun _ => ⟨item, items, rfl, fit⟩⟩

theorem declare (stacked : Stacked kind frames) (allowed : ∀ item ∈ items, Allowed kind frames item)
    (tight : Token.Tight tokens) (known : ∀ token ∈ tokens, kind token)
    (place : inGroup frames = false) (fit : item.Orderly) (made : item.Made kind)
    (uncounted : ¬ countAhead tokens) : Reading kind frames (item :: items) tokens := by
  have new : Allowed kind frames item := ⟨made, by simpa [place] using fit⟩
  exact ⟨stacked, List.forall_mem_cons.mpr ⟨new, allowed⟩, tight, known,
    fun ahead => absurd ahead uncounted⟩

theorem opened (stacked : Stacked kind frames) (tight : Token.Tight tokens)
    (known : ∀ token ∈ tokens, kind token) (uncounted : ¬ countAhead tokens) :
    Reading kind frames [] tokens :=
  ⟨stacked, fun _ none => (by cases none), tight, known, fun ahead => absurd ahead uncounted⟩

theorem first (h : Reading kind frames items (token :: tokens)) : kind token :=
  h.known token List.mem_cons_self

theorem rest (h : Reading kind frames items (token :: tokens)) : ∀ token ∈ tokens, kind token :=
  (List.forall_mem_cons.mp h.known).2

theorem leaf (h : Reading kind frames items (token :: tokens)) (fit : item.Expandable)
    (made : item.Made kind) : Reading kind frames (item :: items) tokens :=
  push h.stacked h.allowed h.tight.2.2 h.rest fit made

theorem uncounted (h : Reading kind frames items (token :: tokens))
    (uncountable : token.value.isCountable = false) : ¬ countAhead tokens := by
  intro ahead
  have countable := h.tight.2.1 ahead
  simp [uncountable] at countable

theorem outcome (h : Reading kind frames items tokens) :
    Outcome kind (readFrom frames items tokens) := by
  fun_induction readFrom frames items tokens with
  | case1 items =>
      intro item there
      have allowed := h.allowed item (List.mem_reverse.mp there)
      exact ⟨allowed.orderly, allowed.made⟩
  | case2 items frame frames =>
      cases frame with
      | body name loc before => exact h.stacked.1
      | group loc before => exact h.stacked.1
  | case7 | case8 | case9 | case11 | case12 | case14 | case15 | case18 =>
      exact ⟨_, h.first⟩
  | case17 => exact h.stacked.1
  | case21 | case24 => exact h.first
  | case3 frames items loc tokens o ih => exact ih (h.leaf (.op o loc) (.op h.first))
  | case4 frames items loc tokens ih => exact ih (h.leaf (.debug loc) (.debug h.first))
  | case5 frames items loc tokens bytes ih => exact ih (h.leaf (.text bytes loc) (.text h.first))
  | case6 frames items loc tokens path ih => exact ih (h.leaf (.ref path loc) (.ref h.first))
  | case10 frames items loc place path _ tokens _ uncounted ih =>
      have place : inGroup frames = false := by simpa using place
      have known := (List.forall_mem_cons.mp h.rest).2
      exact ih (declare h.stacked h.allowed h.tight.2.2.2.2 known place (.use path loc)
        (.use path h.first) uncounted)
  | case13 frames items loc name place start tokens ih =>
      have place : inGroup frames = false := by simpa using place
      have known := (List.forall_mem_cons.mp h.rest).2
      have uncounted : ¬ countAhead tokens := fun ahead => by cases h.tight.2.2.2.1 ahead
      exact ih (opened ⟨h.first, place, h.allowed, h.stacked⟩ h.tight.2.2.2.2 known uncounted)
  | case16 items loc tokens name start before frames ih =>
      obtain ⟨name_known, place, allowed, stacked⟩ := h.stacked
      have inside : ∀ item ∈ items.reverse, item.Orderly ∧ item.Made kind := by
        intro item there
        have allowed := h.allowed item (List.mem_reverse.mp there)
        exact ⟨allowed.orderly, allowed.made⟩
      exact ih (declare stacked allowed h.tight.2.2 h.rest place
        (.define name start fun item there => (inside item there).1)
        (.define name_known fun item there => (inside item there).2) (h.uncounted rfl))
  | case19 frames items loc tokens ih =>
      exact ih (opened ⟨h.first, h.allowed, h.stacked⟩ h.tight.2.2 h.rest (h.uncounted rfl))
  | case20 items loc tokens start before frames ih =>
      obtain ⟨start_known, allowed, stacked⟩ := h.stacked
      have inside : ∀ item ∈ items.reverse, item.Expandable ∧ item.Made kind := by
        intro item there
        have allowed := h.allowed item (List.mem_reverse.mp there)
        exact ⟨allowed.shape, allowed.made⟩
      exact ih (push stacked allowed h.tight.2.2 h.rest
        (.group start fun item there => (inside item there).1)
        (.group start_known fun item there => (inside item there).2))
  | case22 frames loc tokens count item items ih =>
      obtain ⟨target, rest, same, fit⟩ := h.counted rfl
      obtain ⟨rfl, rfl⟩ := List.cons.inj same
      obtain ⟨target_allowed, allowed⟩ := List.forall_mem_cons.mp h.allowed
      have valued := h.tight.1 count rfl
      exact ih (push h.stacked allowed h.tight.2.2 h.rest (.times item.loc valued fit)
        (.times count target_allowed.made))
  | case23 frames loc tokens count =>
      obtain ⟨_, _, none, -⟩ := h.counted rfl
      cases none

end Reading

/-- Items that are read from tokens of a kind, or the error that is found. -/
theorem outcome_of_tokens {dialect : Dialect} {file text : String} {tokens : List Token}
    (scanned : Item.tokens dialect file text = .ok tokens) (known : ∀ token ∈ tokens, kind token) :
    Outcome kind (ofTokens tokens) := by
  obtain ⟨tight, uncounted⟩ := Token.tight_of_tokens scanned
  have start : Reading kind [] [] tokens := .opened trivial tight known uncounted
  exact start.outcome

section
variable {dialect : Dialect} {file text : String}

theorem blames_of_parse {e : ItemError} (h : parse dialect file text = .error (.item e))
    (known : ∀ tokens, Item.tokens dialect file text = .ok tokens → ∀ token ∈ tokens, kind token) :
    e.Blames kind := by
  unfold parse at h
  split at h
  · cases h
  · next tokens scanned =>
      have outcome := outcome_of_tokens scanned (known tokens scanned)
      split at h
      · next found =>
          cases h
          rwa [found] at outcome
      · cases h

theorem tokens_of_parse {e : TokenError} (h : parse dialect file text = .error (.token e)) :
    Item.tokens dialect file text = .error e := by
  unfold parse at h
  split at h
  · next failed =>
      cases h
      exact failed
  · split at h <;> cases h

theorem exists_tokens_of_parse {items : List Item} (h : parse dialect file text = .ok items) :
    ∃ tokens, Item.tokens dialect file text = .ok tokens ∧ ofTokens tokens = .ok items := by
  unfold parse at h
  split at h
  · cases h
  · next tokens scanned =>
      split at h
      · cases h
      · next found =>
          cases h
          exact ⟨tokens, scanned, found⟩

theorem made_of_parse {items : List Item} (h : parse dialect file text = .ok items)
    (known : ∀ tokens, Item.tokens dialect file text = .ok tokens → ∀ token ∈ tokens, kind token) :
    ∀ item ∈ items, item.Orderly ∧ item.Made kind := by
  obtain ⟨tokens, scanned, found⟩ := exists_tokens_of_parse h
  have outcome := outcome_of_tokens scanned (known tokens scanned)
  rwa [found] at outcome

/-- What is read from a text declares nothing but in bodies, and has valued counts. -/
theorem orderly_of_parse {items : List Item} (h : parse dialect file text = .ok items) :
    ∀ item ∈ items, item.Orderly := by
  have made : ∀ item ∈ items, item.Orderly ∧ item.Made fun _ => True :=
    made_of_parse h fun _ _ _ _ => trivial
  exact fun item there => (made item there).1

end

end Item

end ByteTape
