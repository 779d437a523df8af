import ByteTape.Proofs.Token.Ending

/-! # Runs of tokens

The tokens of a text stand in it one behind the other. So their positions grow, and tokens that
follow one another are what a stretch of the text says, from the first character of the first one
to the last character of the last one.
-/

namespace ByteTape.Token

/-- The tokens stand in the text in this order, each one at its position. What is between them does
not matter. -/
inductive Strewn : Location → List Char → List Token → Prop where
  | done (loc : Location) : Strewn loc [] []
  | skip {loc : Location} {text : List Char} {tokens : List Token} (front : List Char)
    (rest : Strewn (loc.after front) text tokens) : Strewn loc (front ++ text) tokens
  | token {loc : Location} {value : Value} {chars text : List Char} {tokens : List Token}
    (spelled : value.SpelledBy chars) (rest : Strewn (loc.after chars) text tokens) :
    Strewn loc (chars ++ text) (⟨value, loc⟩ :: tokens)

theorem strewn_of_scanFrom {loc : Location} {tight : Bool} {text : List Char} {tokens : List Token}
    (h : scanFrom loc tight text = .ok tokens) : Strewn loc text tokens := by
  fun_induction scanFrom loc tight text generalizing tokens with
  | case1 loc tight =>
      cases h
      exact .done loc
  | case2 loc tight c text blank ih => exact .skip [c] (ih h)
  | case3 loc tight text _ comment =>
      rename_i ih
      have rest := Strewn.skip comment (ih h)
      rwa [line_append] at rest
  | case4 | case5 => cases h
  | case6 loc tight c text _ _ piece found tokens scanned ih =>
      cases h
      rw [← (cut_of found).append]
      exact .token (cut_spelled found) (ih scanned)

theorem strewn_of_scanOpsFrom (loc : Location) (text : List Char) :
    Strewn loc text (scanOpsFrom loc text) := by
  fun_induction scanOpsFrom loc text with
  | case1 loc => exact .done loc
  | case2 loc c text op found ih => exact .token (spelled_of_ofPrimitive? found) ih
  | case3 loc c text _ ih => exact .skip [c] ih

theorem op_of_mem_scanOpsFrom (loc : Location) (text : List Char) :
    ∀ token ∈ scanOpsFrom loc text, ∃ o, token.value = .op o := by
  fun_induction scanOpsFrom loc text with
  | case1 => simp
  | case2 loc c text op found ih => exact List.forall_mem_cons.mpr ⟨⟨op, rfl⟩, ih⟩
  | case3 loc c text _ ih => exact ih

theorem strewn_of_tokens {dialect : Dialect} {file text : String} {tokens : List Token}
    (scanned : Item.tokens dialect file text = .ok tokens) :
    Strewn (.start file) text.toList tokens := by
  cases dialect with
  | extended => exact strewn_of_scanFrom scanned
  | plain =>
      cases scanned
      exact strewn_of_scanOpsFrom _ _

theorem Value.SpelledBy.writable {value : Value} {chars : List Char} (spelled : value.SpelledBy chars) :
    value.Writable := by
  cases value with
  | text => trivial
  | op | debug | ref | count | define | openBody | closeBody | openGroup | closeGroup | use | other =>
      exact spelled.1

theorem Value.ends_nil (value : Value) : value.Ends [] := by
  apply value.ends_of_blank
  intro c none
  cases none

theorem Value.SpelledBy.nonempty {value : Value} {chars : List Char} (spelled : value.SpelledBy chars) :
    chars ≠ [] := by
  obtain ⟨c, tail, rfl, -⟩ := spelled.cut value.ends_nil
  exact List.cons_ne_nil c tail

namespace Strewn

variable {loc : Location} {text : List Char} {tokens : List Token}

theorem writable (h : Strewn loc text tokens) : ∀ token ∈ tokens, token.value.Writable := by
  induction h with
  | done => simp
  | skip _ _ ih => exact ih
  | token spelled _ ih => exact List.forall_mem_cons.mpr ⟨spelled.writable, ih⟩

theorem shown (h : Strewn loc text tokens) {token : Token} (there : token ∈ tokens) :
    ∃ front chars back, text = front ++ chars ++ back ∧ token.value.SpelledBy chars ∧
      token.loc = loc.after front := by
  induction h with
  | done => cases there
  | skip front _ ih =>
      obtain ⟨front', chars, back, rfl, spelled, same⟩ := ih there
      refine ⟨front ++ front', chars, back, by simp, spelled, ?_⟩
      rw [same, Location.after_append]
  | @token loc value chars text tokens spelled _ ih =>
      rcases List.mem_cons.mp there with rfl | later
      · exact ⟨[], chars, text, rfl, spelled, rfl⟩
      · obtain ⟨front', chars', back, rfl, spelled', same⟩ := ih later
        refine ⟨chars ++ front', chars', back, by simp, spelled', ?_⟩
        rw [same, Location.after_append]

theorem ordered (h : Strewn loc text tokens) :
    (∀ token ∈ tokens, loc = token.loc ∨ loc.Before token.loc) ∧
      tokens.Pairwise fun a b => a.loc.Before b.loc := by
  induction h with
  | done => simp
  | skip front _ ih =>
      refine ⟨?_, ih.2⟩
      cases front with
      | nil => exact ih.1
      | cons c front =>
          intro token there
          right
          exact Location.before_of_after (List.cons_ne_nil c front) (ih.1 token there)
  | @token loc value chars text tokens spelled _ ih =>
      have later : ∀ token ∈ tokens, loc.Before token.loc := by
        intro token there
        exact Location.before_of_after spelled.nonempty (ih.1 token there)
      refine ⟨?_, .cons later ih.2⟩
      intro token there
      rcases List.mem_cons.mp there with rfl | inside
      · exact .inl rfl
      · exact .inr (later token inside)

end Strewn

/-- Scanning comes to each of the tokens, and stands at its first character then. -/
theorem scanFrom_behind {loc : Location} {tight : Bool} {text : List Char} {token : Token}
    {before rest : List Token} (h : scanFrom loc tight text = .ok (before ++ token :: rest)) :
    ∃ front c tail tight', text = front ++ c :: tail ∧ token.loc = loc.after front ∧
      token.value.Opens c ∧ scanFrom token.loc tight' (c :: tail) = .ok (token :: rest) := by
  generalize same : before ++ token :: rest = tokens at h
  fun_induction scanFrom loc tight text generalizing before tokens with
  | case1 loc tight =>
      cases h
      cases before <;> cases same
  | case2 loc tight c text blank ih =>
      obtain ⟨front, d, tail, tight', rfl, place, opens, scanned⟩ := ih _ same h
      exact ⟨c :: front, d, tail, tight', rfl, place, opens, scanned⟩
  | case3 loc tight text _ comment =>
      rename_i ih
      obtain ⟨front, d, tail, tight', split, place, opens, scanned⟩ := ih _ same h
      refine ⟨comment ++ front, d, tail, tight', ?_, ?_, opens, scanned⟩
      · rw [List.append_assoc, ← split, line_append]
      · rw [place, Location.after_append]
  | case4 | case5 => cases h
  | case6 loc tight c text visible plain piece found tokens scanned ih =>
      cases h
      cases before with
      | nil =>
          cases same
          refine ⟨[], c, text, tight, rfl, rfl, cut_opens found, ?_⟩
          rw [scanFrom_cut visible plain found, scanned]
          rfl
      | cons first before =>
          cases same
          obtain ⟨front, d, tail, tight', split, place, opens, scanned'⟩ := ih _ rfl scanned
          refine ⟨piece.spelling ++ front, d, tail, tight', ?_, ?_, opens, scanned'⟩
          · rw [List.append_assoc, ← split, (cut_of found).append]
          · rw [place, Location.after_append]

theorem Scans.single {tight : Bool} {value : Value} {chars : List Char}
    (spelled : value.SpelledBy chars) (place : value.isCount → tight = true) :
    Scans tight chars [value] := by
  have last := Scans.value spelled value.ends_nil place (.done _)
  rwa [List.append_nil] at last

theorem Scans.take {tight : Bool} {text : List Char} {values more : List Value}
    (h : Scans tight text (values ++ more)) (nonempty : values ≠ []) :
    ∃ chars back, text = chars ++ back ∧ chars.head? = text.head? ∧ Scans tight chars values := by
  generalize same : values ++ more = all at h
  induction h generalizing values with
  | done => simp_all
  | @blank tight c text _ blank _ ih =>
      obtain ⟨chars, back, rfl, -, scans⟩ := ih nonempty same
      exact ⟨c :: chars, back, rfl, rfl, .blank blank scans⟩
  | @comment tight line text _ within ends _ ih =>
      obtain ⟨chars, back, rfl, first, scans⟩ := ih nonempty same
      rw [← first] at ends
      refine ⟨'%' :: (line ++ chars), back, by simp, rfl, .comment within ends scans⟩
  | @value tight value spelling text _ spelled ends place _ ih =>
      obtain ⟨c, tail, rfl⟩ := List.exists_cons_of_ne_nil spelled.nonempty
      cases values with
      | nil => exact absurd rfl nonempty
      | cons first values =>
          cases same
          cases values with
          | nil => exact ⟨c :: tail, text, rfl, rfl, .single spelled place⟩
          | cons second values =>
              obtain ⟨chars, back, rfl, first, scans⟩ := ih (List.cons_ne_nil _ _) rfl
              have whole := Scans.value spelled (ends.of_head first) place scans
              exact ⟨c :: tail ++ chars, back, by simp, rfl, whole⟩

end ByteTape.Token
