import ByteTape.Proofs.Text.Position
import ByteTape.Proofs.Item.Shape

/-! # Where tokens stand

The position of a token is that of the character it begins with, and what that
character can be is a matter of the kind of the token. A text that cannot be cut into
tokens is blamed at one of its positions, too.
-/

namespace ByteTape

/-- Going over a front part of the text leads from `loc` to `target`. -/
def Location.Reaches (loc : Location) (text : List Char) (target : Location) : Prop :=
  ∃ front back, text = front ++ back ∧ target = loc.after front

namespace Location.Reaches

theorem start (loc : Location) (text : List Char) : loc.Reaches text loc := ⟨[], text, rfl, rfl⟩

theorem later {loc target : Location} {text : List Char} (front : List Char)
    (h : (loc.after front).Reaches text target) : loc.Reaches (front ++ text) target := by
  obtain ⟨more, back, rfl, rfl⟩ := h
  exact ⟨front ++ more, back, by rw [List.append_assoc], by rw [after_append]⟩

end Location.Reaches

namespace Location

/-- One position comes before another in the same file: on an earlier line, or further to the
left on the same line. -/
def Before (a b : Location) : Prop :=
  a.file = b.file ∧ (a.line < b.line ∨ a.line = b.line ∧ a.column < b.column)

theorem Before.irrefl (a : Location) : ¬ a.Before a := by
  rintro ⟨-, earlier | ⟨-, left⟩⟩
  · exact Int.lt_irrefl _ earlier
  · exact Int.lt_irrefl _ left

theorem Before.trans {a b c : Location} (h : a.Before b) (h' : b.Before c) : a.Before c := by
  refine ⟨h.1.trans h'.1, ?_⟩
  have := h.2
  have := h'.2
  omega

theorem before_next (loc : Location) (c : Char) : loc.Before (loc.next c) := by
  refine ⟨(next_file loc c).symm, ?_⟩
  unfold next
  split
  · left
    exact Int.lt_succ _
  · right
    exact ⟨rfl, Int.lt_succ _⟩

theorem before_after (loc : Location) {text : List Char} (nonempty : text ≠ []) :
    loc.Before (loc.after text) := by
  induction text generalizing loc with
  | nil => exact absurd rfl nonempty
  | cons c text ih =>
      cases text with
      | nil => exact before_next loc c
      | cons d text => exact (before_next loc c).trans (ih (loc.next c) (by simp))

theorem before_of_after {loc place : Location} {text : List Char} (nonempty : text ≠ [])
    (h : loc.after text = place ∨ (loc.after text).Before place) : loc.Before place := by
  have first := before_after loc nonempty
  rcases h with rfl | later
  · exact first
  · exact first.trans later

theorem take_unique {loc : Location} {text : List Char} {i j : Nat} (inside : i ≤ text.length)
    (inside' : j ≤ text.length) (same : loc.after (text.take i) = loc.after (text.take j)) : i = j := by
  have apart {i j : Nat} (less : i < j) (inside : j ≤ text.length) :
      (loc.after (text.take i)).Before (loc.after (text.take j)) := by
    have split : text.take j = text.take i ++ (text.take j).drop i := by
      rw [← List.take_append_drop i (text.take j), List.take_take, Nat.min_eq_left (by omega),
        List.drop_left' (by simp; omega)]
    rw [split, after_append]
    apply before_after
    simp
    omega
  rcases Nat.lt_trichotomy i j with less | equal | more
  · have earlier := apart less inside'
    rw [same] at earlier
    exact absurd earlier (Before.irrefl _)
  · exact equal
  · have earlier := apart more inside
    rw [same] at earlier
    exact absurd earlier (Before.irrefl _)

end Location

namespace Token

/-- A token of this kind can begin with `c`. -/
def Value.Opens (c : Char) : Value → Prop
  | .op o => o.symbol = c
  | .debug => c = '?'
  | .text _ => c = '\x22'
  | .ref _ => c = '#'
  | .define _ => c = ':'
  | .openBody => c = '\x7b'
  | .closeBody => c = '\x7d'
  | .openGroup => c = '('
  | .closeGroup => c = ')'
  | .use => c = 'u'
  | .count _ => c = '\x27' ∨ Text.isHexDigit c
  | .other _ => False

theorem symbol_of_ofPrimitive? {c : Char} {op : Op} (h : Op.ofPrimitive? c = some op) :
    op.symbol = c := by
  unfold Op.ofPrimitive? at h
  split at h <;> cases h <;> rfl

theorem opens_of_bracket? {c : Char} {value : Value} (h : bracket? c = some value) :
    value.Opens c := by
  unfold bracket? at h
  split at h <;> cases h <;> rfl

theorem Cut.Of.append {piece : Cut} {c : Char} {text : List Char} (h : piece.Of c text) :
    piece.spelling ++ piece.rest = c :: text := by
  obtain ⟨tail, spelled, rfl⟩ := h
  rw [spelled, List.cons_append]

theorem cut_opens {loc : Location} {tight : Bool} {c : Char} {text : List Char} {piece : Cut}
    (h : cut loc tight c text = .ok piece) : piece.value.Opens c := by
  have branch := cut_branch loc tight c text
  generalize cut loc tight c text = result at branch h
  cases branch with
  | hexCount _ digit =>
      obtain ⟨count, same, -⟩ := cutHexCount_valued digit h
      rw [same]
      exact .inr digit
  | charCount _ mark =>
      obtain ⟨count, same, -⟩ := cutCharCount_valued h
      rw [same]
      exact .inl mark
  | loose | badText | stray => cases h
  | op known =>
      cases h
      exact symbol_of_ofPrimitive? known
  | debug mark | text mark | use mark =>
      cases h
      exact mark
  | reference mark =>
      obtain ⟨path, same⟩ := cutReference_value h
      rw [same]
      exact mark
  | define mark =>
      obtain ⟨name, same⟩ := cutDefine_value h
      rw [same]
      exact mark
  | bracket known =>
      cases h
      exact opens_of_bracket? known

theorem cutHexCount_error {loc : Location} {c : Char} {text : List Char} {e : TokenError}
    (h : cutHexCount loc c text = .error e) : loc.Reaches (c :: text) e.loc := by
  unfold cutHexCount at h
  split at h
  · next d next rest =>
      split at h
      · split at h
        · cases h
          exact ⟨[c, d], next :: rest, rfl, rfl⟩
        · cases h
      · cases h
  · split at h <;> cases h
  · cases h

theorem cutCharCount_error {loc : Location} {text : List Char} {e : TokenError}
    (h : cutCharCount loc text = .error e) : e.loc = loc := by
  unfold cutCharCount at h
  split at h
  · cases h
    rfl
  · split at h
    · cases h
      rfl
    · split at h
      · cases h
        rfl
      · cases h

/-- A string is blamed at its beginning, or at the letter behind a backslash. -/
theorem cutText_error {start loc : Location} {text : List Char} {e : TokenError}
    (h : cutText start loc text = .error e) : e.loc = start ∨ loc.Reaches text e.loc := by
  fun_induction cutText start loc text with
  | case1 | case2 | case7 =>
      cases h
      exact .inl rfl
  | case3 | case6 | case9 => cases h
  | case4 loc c text =>
      cases h
      exact .inr ⟨['\\'], c :: text, rfl, rfl⟩
  | case5 loc c text _ _ _ found ih =>
      cases h
      exact (ih found).imp_right (Location.Reaches.later ['\\', c])
  | case8 loc c text _ _ _ _ _ found ih =>
      cases h
      exact (ih found).imp_right (Location.Reaches.later [c])

theorem cutSteps_error {loc : Location} {text : List Char} {e : TokenError}
    (h : cutSteps loc text = .error e) : loc.Reaches text e.loc := by
  fun_induction cutSteps loc text with
  | case1 loc text =>
      cases h
      exact ⟨['/'], text, rfl, rfl⟩
  | case2 loc text name rest _ _ found ih =>
      cases h
      have whole : '/' :: text = ('/' :: name) ++ rest := by
        rw [List.cons_append, List.takeWhile_append_dropWhile]
      rw [whole]
      exact (ih found).later _
  | case3 | case4 => cases h

theorem cutReference_error {loc : Location} {text : List Char} {e : TokenError}
    (h : cutReference loc text = .error e) : loc.Reaches ('#' :: text) e.loc := by
  unfold cutReference at h
  dsimp only at h
  split at h
  · split at h
    · cases h
      exact .start _ _
    · cases h
  · split at h
    · next failed =>
        cases h
        have whole : '#' :: text = ('#' :: text.takeWhile (· == '^') ++
            (text.dropWhile (· == '^')).takeWhile isNameChar) ++
              (text.dropWhile (· == '^')).dropWhile isNameChar := by
          simp only [List.cons_append, List.append_assoc, List.takeWhile_append_dropWhile]
        rw [whole]
        exact (cutSteps_error failed).later _
    · cases h

theorem cutDefine_error {loc : Location} {text : List Char} {e : TokenError}
    (h : cutDefine loc text = .error e) : e.loc = loc := by
  unfold cutDefine at h
  dsimp only at h
  split at h
  · cases h
    rfl
  · cases h

theorem cut_error {loc : Location} {tight : Bool} {c : Char} {text : List Char} {e : TokenError}
    (h : cut loc tight c text = .error e) : loc.Reaches (c :: text) e.loc := by
  have branch := cut_branch loc tight c text
  generalize cut loc tight c text = result at branch h
  cases branch with
  | hexCount => exact cutHexCount_error h
  | charCount =>
      rw [cutCharCount_error h]
      exact .start _ _
  | loose | stray =>
      cases h
      exact .start _ _
  | op | debug | text | bracket | use => cases h
  | badText _ failed =>
      cases h
      obtain same | later := cutText_error failed
      · rw [same]
        exact .start _ _
      · exact later.later [c]
  | reference mark => exact mark ▸ cutReference_error h
  | define =>
      rw [cutDefine_error h]
      exact .start _ _

/-- The token stands in a text that begins at `loc`, where a character stands that it
can begin with. -/
def Placed (token : Token) (loc : Location) (text : List Char) : Prop :=
  ∃ front c back, text = front ++ c :: back ∧ token.loc = loc.after front ∧ c ≠ '\n' ∧
    token.value.Opens c

theorem Placed.later {loc : Location} {text : List Char} {token : Token} (front : List Char)
    (h : token.Placed (loc.after front) text) : token.Placed loc (front ++ text) := by
  obtain ⟨more, c, back, rfl, place, visible, opens⟩ := h
  exact ⟨front ++ more, c, back, by rw [List.append_assoc], by rw [place, Location.after_append],
    visible, opens⟩

/-- What comes of scanning a text that begins at `loc` stands in it. -/
def Located (loc : Location) (text : List Char) : Except TokenError (List Token) → Prop
  | .ok tokens => ∀ token ∈ tokens, token.Placed loc text
  | .error e => loc.Reaches text e.loc

theorem Located.later {loc : Location} {text : List Char}
    {result : Except TokenError (List Token)} (front : List Char)
    (h : Located (loc.after front) text result) :
    Located loc (front ++ text) result := by
  cases result with
  | ok tokens => exact fun token there => (h token there).later front
  | error e => exact Location.Reaches.later front h

theorem located_scanFrom (loc : Location) (tight : Bool) (text : List Char) :
    Located loc text (scanFrom loc tight text) := by
  fun_induction scanFrom loc tight text with
  | case1 => exact fun _ none => (by cases none)
  | case2 loc tight c text _ ih => exact ih.later [c]
  | case3 loc tight text _ comment ih =>
      have whole : '%' :: text = comment ++ text.dropWhile (· != '\n') := by
        rw [List.cons_append, List.takeWhile_append_dropWhile]
      rw [whole]
      exact ih.later _
  | case4 loc tight c text _ _ e found => exact cut_error found
  | case5 loc tight c text _ _ piece found e scanned ih =>
      rw [scanned] at ih
      rw [← (cut_of found).append]
      exact ih.later _
  | case6 loc tight c text blank _ piece found tokens scanned ih =>
      have visible : c ≠ '\n' := fun feed => blank (by rw [feed]; decide)
      have first : Placed ⟨piece.value, loc⟩ loc (c :: text) :=
        ⟨[], c, text, rfl, rfl, visible, cut_opens found⟩
      rw [scanned] at ih
      refine List.forall_mem_cons.mpr ⟨first, fun token there => ?_⟩
      rw [← (cut_of found).append]
      exact (ih token there).later _

theorem placed_scanOpsFrom (loc : Location) (text : List Char) :
    ∀ token ∈ scanOpsFrom loc text, token.Placed loc text := by
  fun_induction scanOpsFrom loc text with
  | case1 => exact fun _ none => (by cases none)
  | case2 loc c text op found ih =>
      have visible : c ≠ '\n' := fun feed => by rw [feed] at found; cases found
      have first : Placed ⟨.op op, loc⟩ loc (c :: text) :=
        ⟨[], c, text, rfl, rfl, visible, symbol_of_ofPrimitive? found⟩
      exact List.forall_mem_cons.mpr ⟨first, fun token there => (ih token there).later [c]⟩
  | case3 loc c text _ ih => exact fun token there => (ih token there).later [c]

theorem located_tokens (dialect : Dialect) (file text : String) :
    Located (.start file) text.toList (Item.tokens dialect file text) := by
  cases dialect with
  | extended => exact located_scanFrom _ _ _
  | plain => exact placed_scanOpsFrom _ _

end Token

namespace Source

variable {s : Source} {token : Token}

theorem covers_of_reaches {loc : Location}
    (h : (Location.start s.file).Reaches s.text.toList loc) : s.Covers loc := by
  obtain ⟨front, back, whole, rfl⟩ := h
  exact covers_after whole

theorem covers_of_placed (h : token.Placed (.start s.file) s.text.toList) : s.Covers token.loc := by
  obtain ⟨front, c, back, whole, place, -⟩ := h
  rw [place]
  exact covers_after whole

/-- Where a token stands, the text has a character that the token can begin with. -/
theorem charAt?_of_placed (h : token.Placed (.start s.file) s.text.toList) :
    ∃ c, s.charAt? token.loc = some c ∧ token.value.Opens c := by
  obtain ⟨front, c, back, whole, place, visible, opens⟩ := h
  exact ⟨c, by rw [place]; exact charAt?_after whole visible, opens⟩

end Source

end ByteTape
