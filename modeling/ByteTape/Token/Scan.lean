import ByteTape.Token

/-! # Scanning

A text is cut into tokens from the front. Each token is returned with its
spelling, so that nothing of the text is lost: a spelling and what is left
make up the text that was there. Blanks and comments stand between tokens, and
a count must stand directly behind what it counts.
-/

namespace ByteTape.Token

/-- A token cut from the front of a text. -/
structure Cut where
  value : Value
  spelling : List Char
  rest : List Char

def isNameChar (c : Char) : Bool :=
  c = '_' || ('a' ≤ c && c ≤ 'z') || ('A' ≤ c && c ≤ 'Z')

/-- The byte that a letter behind a backslash stands for. -/
def escape? : Char → Option UInt8
  | 'n' => some 10
  | 't' => some 9
  | '0' => some 0
  | '\\' => some 92
  | '\x22' => some 34
  | _ => none

/-- A count of hexadecimal digits, the first of which is `c`. -/
def cutHexCount (loc : Location) (c : Char) : List Char → Except TokenError Cut
  | d :: e :: rest =>
    if Text.isHexDigit d then
      if Text.isHexDigit e then .error (.longCount e (loc.after [c, d]))
      else .ok ⟨.count (.hex (String.ofList [c, d])), [c, d], e :: rest⟩
    else .ok ⟨.count (.hex (String.ofList [c])), [c], d :: e :: rest⟩
  | [d] =>
    if Text.isHexDigit d then .ok ⟨.count (.hex (String.ofList [c, d])), [c, d], []⟩
    else .ok ⟨.count (.hex (String.ofList [c])), [c], [d]⟩
  | [] => .ok ⟨.count (.hex (String.ofList [c])), [c], []⟩

/-- A count written as a character; `text` follows the quote mark. -/
def cutCharCount (loc : Location) (text : List Char) : Except TokenError Cut :=
  match text with
  | [] => .error (.countEnds loc)
  | c :: rest =>
    if c = '\n' then .error (.countEnds loc)
    else if 0xff < c.toNat then .error (.wideCount c loc)
    else .ok ⟨.count (.char (String.ofList [c])), ['\x27', c], rest⟩

/-- The bytes of a string literal up to its closing quote, the spelling of that
part and what follows it. `start` is where the literal begins. -/
def cutText (start loc : Location) :
    List Char → Except TokenError (List UInt8 × List Char × List Char)
  | [] => .error (.openText start)
  | ['\\'] => .error (.openText start)
  | '\x22' :: rest => .ok ([], ['\x22'], rest)
  | '\\' :: c :: text =>
    match escape? c with
    | none => .error (.badEscape c (loc.next '\\'))
    | some byte =>
      match cutText start (loc.after ['\\', c]) text with
      | .error e => .error e
      | .ok (bytes, spelling, rest) => .ok (byte :: bytes, '\\' :: c :: spelling, rest)
  | c :: text =>
    if 0xff < c.toNat then .error (.wideText c start)
    else
      match cutText start (loc.next c) text with
      | .error e => .error e
      | .ok (bytes, spelling, rest) => .ok (UInt8.ofNat c.toNat :: bytes, c :: spelling, rest)

/-- The further steps of a path, each behind a slash, with their spelling. -/
def cutSteps (loc : Location) (text : List Char) :
    Except TokenError (List String × List Char × List Char) :=
  match text with
  | '/' :: text =>
    let name := text.takeWhile isNameChar
    let rest := text.dropWhile isNameChar
    if name.isEmpty then .error (.stepMissing (loc.next '/'))
    else
      match cutSteps (loc.after ('/' :: name)) rest with
      | .error e => .error e
      | .ok (steps, spelling, rest) =>
        .ok (String.ofList name :: steps, '/' :: name ++ spelling, rest)
  | text => .ok ([], [], text)
termination_by text.length
decreasing_by
  exact Nat.lt_succ_of_le (List.IsSuffix.length_le (List.dropWhile_suffix _))

/-- A reference; `text` follows the reference mark. -/
def cutReference (loc : Location) (text : List Char) : Except TokenError Cut :=
  let carets := text.takeWhile (· == '^')
  let body := text.dropWhile (· == '^')
  let name := body.takeWhile isNameChar
  let rest := body.dropWhile isNameChar
  if name.isEmpty then
    if carets.isEmpty then .error (.pathMissing loc)
    else .ok ⟨.ref ⟨carets.length, []⟩, '#' :: carets, body⟩
  else
    match cutSteps (loc.after ('#' :: carets ++ name)) rest with
    | .error e => .error e
    | .ok (steps, spelling, rest) =>
      .ok ⟨.ref ⟨carets.length, String.ofList name :: steps⟩, '#' :: carets ++ name ++ spelling, rest⟩

/-- The name behind a colon. -/
def cutDefine (loc : Location) (text : List Char) : Except TokenError Cut :=
  let name := text.takeWhile isNameChar
  if name.isEmpty then .error (.nameless loc)
  else .ok ⟨.define (String.ofList name), ':' :: name, text.dropWhile isNameChar⟩

/-- What may follow the import keyword. -/
def endsKeyword : List Char → Bool
  | [] => true
  | c :: _ => Text.isBlank c || c = '#'

/-- The brackets of bodies and groups. -/
def bracket? : Char → Option Value
  | '\x7b' => some .openBody
  | '\x7d' => some .closeBody
  | '(' => some .openGroup
  | ')' => some .closeGroup
  | _ => none

/-- Cut the token that begins with `c`. A count is possible only if the text
before it ended with something countable: then it is `tight`. -/
def cut (loc : Location) (tight : Bool) (c : Char) (text : List Char) : Except TokenError Cut :=
  if tight && Text.isHexDigit c then cutHexCount loc c text
  else if c = '\x27' then
    if tight then cutCharCount loc text else .error (.looseCount loc)
  else
    match Op.ofPrimitive? c with
    | some op => .ok ⟨.op op, [c], text⟩
    | none =>
      if c = '?' then .ok ⟨.debug, [c], text⟩
      else if c = '\x22' then
        match cutText loc (loc.next c) text with
        | .error e => .error e
        | .ok (bytes, spelling, rest) => .ok ⟨.text bytes, c :: spelling, rest⟩
      else if c = '#' then cutReference loc text
      else if c = ':' then cutDefine loc text
      else
        match bracket? c with
        | some value => .ok ⟨value, [c], text⟩
        | none =>
          match c, text with
          | 'u', 's' :: 'e' :: rest =>
            if endsKeyword rest then .ok ⟨.use, ['u', 's', 'e'], rest⟩ else .error (.stray c loc)
          | _, _ => .error (.stray c loc)

/-- `piece` is the front of the text `c :: text`: it begins with `c`, and its
spelling and its rest make up the text. -/
def Cut.Of (piece : Cut) (c : Char) (text : List Char) : Prop :=
  ∃ tail, piece.spelling = c :: tail ∧ tail ++ piece.rest = text

theorem cutHexCount_of {loc : Location} {c : Char} {text : List Char} {piece : Cut}
    (h : cutHexCount loc c text = .ok piece) : piece.Of c text := by
  unfold cutHexCount at h
  split at h
  · split at h
    · split at h
      · cases h
      · cases h; exact ⟨_, rfl, rfl⟩
    · cases h; exact ⟨_, rfl, rfl⟩
  · split at h <;> cases h <;> exact ⟨_, rfl, rfl⟩
  · cases h; exact ⟨_, rfl, rfl⟩

theorem cutCharCount_of {loc : Location} {text : List Char} {piece : Cut}
    (h : cutCharCount loc text = .ok piece) : piece.Of '\x27' text := by
  unfold cutCharCount at h
  split at h
  · cases h
  · split at h
    · cases h
    · split at h
      · cases h
      · cases h; exact ⟨_, rfl, rfl⟩

theorem cutText_append {start loc : Location} {text : List Char}
    {bytes : List UInt8} {spelling rest : List Char}
    (h : cutText start loc text = .ok (bytes, spelling, rest)) : spelling ++ rest = text := by
  fun_induction cutText start loc text generalizing bytes spelling with
  | case1 | case2 | case4 | case5 | case7 | case8 => cases h
  | case3 => cases h; rfl
  | case6 _ _ _ _ _ _ _ _ he ih => cases h; simp [ih he]
  | case9 _ _ _ _ _ _ _ _ _ _ he ih => cases h; simp [ih he]

theorem cutSteps_append {loc : Location} {text : List Char}
    {steps : List String} {spelling rest : List Char}
    (h : cutSteps loc text = .ok (steps, spelling, rest)) : spelling ++ rest = text := by
  fun_induction cutSteps loc text generalizing steps spelling with
  | case1 | case2 => cases h
  | case3 =>
    rename_i he ih
    cases h
    simp only [List.cons_append, List.append_assoc, ih he]
    exact congrArg _ List.takeWhile_append_dropWhile
  | case4 => cases h; rfl

theorem cutReference_of {loc : Location} {text : List Char} {piece : Cut}
    (h : cutReference loc text = .ok piece) : piece.Of '#' text := by
  unfold cutReference at h
  dsimp only at h
  split at h
  · split at h
    · cases h
    · cases h; exact ⟨_, rfl, List.takeWhile_append_dropWhile⟩
  · split at h
    · cases h
    · next he =>
      cases h
      refine ⟨_, rfl, ?_⟩
      simp only [List.append_eq, List.append_assoc]
      rw [cutSteps_append he, List.takeWhile_append_dropWhile, List.takeWhile_append_dropWhile]

theorem cutDefine_of {loc : Location} {text : List Char} {piece : Cut}
    (h : cutDefine loc text = .ok piece) : piece.Of ':' text := by
  unfold cutDefine at h
  dsimp only at h
  split at h
  · cases h
  · cases h; exact ⟨_, rfl, List.takeWhile_append_dropWhile⟩

/-- What can happen when the token that begins with `c` is cut. -/
inductive Branch (loc : Location) (tight : Bool) (c : Char) (text : List Char) :
    Except TokenError Cut → Prop where
  | hexCount (place : tight = true) (digit : Text.isHexDigit c) :
    Branch loc tight c text (cutHexCount loc c text)
  | charCount (place : tight = true) (mark : c = '\x27') :
    Branch loc tight c text (cutCharCount loc text)
  | loose : Branch loc tight c text (.error (.looseCount loc))
  | op {op : Op} (known : Op.ofPrimitive? c = some op) :
    Branch loc tight c text (.ok ⟨.op op, [c], text⟩)
  | debug (mark : c = '?') : Branch loc tight c text (.ok ⟨.debug, [c], text⟩)
  | badText {e : TokenError} (mark : c = '\x22') (failed : cutText loc (loc.next c) text = .error e) :
    Branch loc tight c text (.error e)
  | text {bytes : List UInt8} {spelling rest : List Char} (mark : c = '\x22')
    (done : cutText loc (loc.next c) text = .ok (bytes, spelling, rest)) :
    Branch loc tight c text (.ok ⟨.text bytes, c :: spelling, rest⟩)
  | reference (mark : c = '#') : Branch loc tight c text (cutReference loc text)
  | define (mark : c = ':') : Branch loc tight c text (cutDefine loc text)
  | bracket {value : Value} (known : bracket? c = some value) :
    Branch loc tight c text (.ok ⟨value, [c], text⟩)
  | use {rest : List Char} (mark : c = 'u') (more : text = 's' :: 'e' :: rest)
    (closed : endsKeyword rest) :
    Branch loc tight c text (.ok ⟨.use, ['u', 's', 'e'], rest⟩)
  | stray : Branch loc tight c text (.error (.stray c loc))

theorem cut_branch (loc : Location) (tight : Bool) (c : Char) (text : List Char) :
    Branch loc tight c text (cut loc tight c text) := by
  unfold cut
  split
  · next place => exact .hexCount (Bool.and_eq_true_iff.mp place).1 (Bool.and_eq_true_iff.mp place).2
  · split
    · next mark =>
        split
        · next place => exact .charCount place mark
        · exact .loose
    · split
      · next known => exact .op known
      · split
        · next mark => exact .debug mark
        · split
          · next mark =>
              split
              · next failed => exact .badText mark failed
              · next done => exact .text mark done
          · split
            · next mark => exact .reference mark
            · split
              · next mark => exact .define mark
              · split
                · next known => exact .bracket known
                · split
                  · split
                    · next closed => exact .use rfl rfl closed
                    · exact .stray
                  · exact .stray

/-- Nothing of the text is lost when a token is cut from it. -/
theorem cut_of {loc : Location} {tight : Bool} {c : Char} {text : List Char} {piece : Cut}
    (h : cut loc tight c text = .ok piece) : piece.Of c text := by
  have branch := cut_branch loc tight c text
  generalize cut loc tight c text = result at branch h
  cases branch with
  | hexCount => exact cutHexCount_of h
  | charCount _ mark => exact mark ▸ cutCharCount_of h
  | loose | badText | stray => cases h
  | op | debug | bracket =>
    cases h
    exact ⟨_, rfl, rfl⟩
  | text _ done =>
    cases h
    exact ⟨_, rfl, cutText_append done⟩
  | reference mark => exact mark ▸ cutReference_of h
  | define mark => exact mark ▸ cutDefine_of h
  | use mark more =>
    cases h
    subst mark more
    exact ⟨_, rfl, rfl⟩

theorem Cut.Of.length_le {piece : Cut} {c : Char} {text : List Char} (h : piece.Of c text) :
    piece.rest.length ≤ text.length := by
  obtain ⟨tail, _, rfl⟩ := h
  simp

/-- The tokens of a text that begins at `loc`. -/
def scanFrom (loc : Location) (tight : Bool) (text : List Char) : Except TokenError (List Token) :=
  match text with
  | [] => .ok []
  | c :: text =>
    if Text.isBlank c then scanFrom (loc.next c) false text
    else if c = '%' then
      let comment := c :: text.takeWhile (· != '\n')
      scanFrom (loc.after comment) false (text.dropWhile (· != '\n'))
    else
      match _h : cut loc tight c text with
      | .error e => .error e
      | .ok piece =>
        match scanFrom (loc.after piece.spelling) piece.value.isCountable piece.rest with
        | .error e => .error e
        | .ok tokens => .ok (⟨piece.value, loc⟩ :: tokens)
termination_by text.length
decreasing_by
  · simp
  · exact Nat.lt_succ_of_le (List.IsSuffix.length_le (List.dropWhile_suffix _))
  · exact Nat.lt_succ_of_le (cut_of _h).length_le

/-- The tokens of a whole text. -/
def scan (file : String) (text : String) : Except TokenError (List Token) :=
  scanFrom (.start file) false text.toList

/-- The operations of a text that begins at `loc`; all other characters are skipped. -/
def scanOpsFrom (loc : Location) : List Char → List Token
  | [] => []
  | c :: text =>
    match Op.ofPrimitive? c with
    | some op => ⟨.op op, loc⟩ :: scanOpsFrom (loc.next c) text
    | none => scanOpsFrom (loc.next c) text

/-- The tokens of a text in which only the eight operations count. -/
def scanOps (file : String) (text : String) : List Token :=
  scanOpsFrom (.start file) text.toList

end ByteTape.Token
