import ByteTape.Proofs.Json.Text
import ByteTape.Proofs.Text.Decimal

/-! # Values read back

The text of a value is one line of printable ASCII, and reading it gives the value again. Left out
are the spellings of other numbers, numbers too long to be read, texts with two halves of a pair side
by side, and objects with two fields of one name.
-/

namespace ByteTape.JsonValue

/-- The text of the value can be read. -/
inductive Plain : JsonValue → Prop where
  | null : Plain null
  | bool (b : Bool) : Plain (bool b)
  | int {n : Int} (short : (Nat.toDigits 10 n.natAbs).length ≤ Text.mostDigits) : Plain (int n)
  | str {text : JsonText} (joined : Joined text) : Plain (str text)
  | arr {items : List JsonValue} (each : ∀ item ∈ items, Plain item) : Plain (arr items)
  | obj {fields : List (JsonText × JsonValue)} (once : (fields.map Prod.fst).Nodup)
    (named : ∀ field ∈ fields, Joined field.1) (each : ∀ field ∈ fields, Plain field.2) :
    Plain (obj fields)

/-- A number ends before this. -/
def Closes : List Char → Prop
  | [] => True
  | c :: _ => ¬ c.isDigit ∧ c ≠ '.' ∧ c ≠ 'e' ∧ c ≠ 'E'

instance : (rest : List Char) → Decidable (Closes rest)
  | [] => inferInstanceAs (Decidable True)
  | _ :: _ => inferInstanceAs (Decidable (_ ∧ _))

/-- The value is read from its text, whatever follows. Twice the length of the text bounds the readers
inside one another. -/
def Reads (v : JsonValue) : Prop :=
  ∀ fuel rest, 2 * v.write.toList.length ≤ fuel → Closes rest →
    readValue (fuel + 1) (v.write.toList ++ rest) = .ok (v, rest)

theorem skipGap_cons {c : Char} (solid : isGap c = false) (rest : List Char) :
    skipGap (c :: rest) = c :: rest := by
  simp [skipGap, solid]

theorem skipGap_space {c : Char} (solid : isGap c = false) (rest : List Char) :
    skipGap (' ' :: c :: rest) = c :: rest := by
  rw [skipGap, List.dropWhile_cons_of_pos (by decide), ← skipGap, skipGap_cons solid]

section Numbers

variable {rest : List Char}

theorem toList_toString (n : Int) :
    (toString n).toList = (if n < 0 then ['-'] else []) ++ Nat.toDigits 10 n.natAbs := by
  cases n with
  | ofNat k => simp [toString, Int.repr, Nat.repr_eq_ofList_toDigits]
  | negSucc k => simp [toString, Int.repr, Nat.repr_eq_ofList_toDigits, Int.negSucc_lt_zero]

theorem isDigit_of_mem {k : Nat} {c : Char} (among : c ∈ Nat.toDigits 10 k) : c.isDigit :=
  Nat.isDigit_of_mem_toDigits (by decide) (by decide) among

theorem ne_of_isDigit {c d : Char} (digit : c.isDigit) (other : ¬ d.isDigit) : c ≠ d := by
  rintro rfl
  exact other digit

theorem eq_zero_of_head {k : Nat} (first : (Nat.toDigits 10 k).head? = some '0') : k = 0 := by
  induction k using Nat.strongRecOn with
  | ind k ih =>
      by_cases small : k < 10
      · rw [Nat.toDigits_of_lt_base small] at first
        have known : ∀ k < 10, [Nat.digitChar k].head? = some '0' → k = 0 := by decide
        exact known k small first
      · rw [Nat.toDigits_of_base_le (by decide) (by omega), List.head?_append_of_ne_nil _
          Nat.toDigits_ne_nil] at first
        have none : k / 10 = 0 := ih (k / 10) (by omega) first
        omega

theorem digits_of_closes (closed : Closes rest) : digits rest = [] := by
  cases rest with
  | nil => rfl
  | cons c rest => exact List.takeWhile_cons_of_neg closed.1

theorem fraction_of_closes (closed : Closes rest) : fraction rest = [] := by
  unfold fraction
  split
  · exact absurd rfl closed.2.1
  · rfl

theorem exponent_of_closes (closed : Closes rest) : exponent rest = [] := by
  cases rest with
  | nil => rfl
  | cons c rest =>
      obtain ⟨-, -, lower, upper⟩ := closed
      exact if_neg (by simp [lower, upper])

theorem whole_digits (k : Nat) (closed : Closes rest) :
    whole (Nat.toDigits 10 k ++ rest) = Nat.toDigits 10 k := by
  rw [whole, List.head?_append_of_ne_nil _ Nat.toDigits_ne_nil]
  split
  · next first =>
    rw [eq_zero_of_head first]
    rfl
  · rw [digits, List.takeWhile_append_of_pos fun c => isDigit_of_mem, ← digits, digits_of_closes closed,
      List.append_nil]

theorem sign_digits {sign : List Char} (signed : sign = [] ∨ sign = ['-']) (k : Nat) :
    ((sign ++ (Nat.toDigits 10 k ++ rest)).take 1).filter (· == '-') = sign := by
  rcases signed with rfl | rfl
  · cases spelled : Nat.toDigits 10 k with
    | nil => exact absurd spelled Nat.toDigits_ne_nil
    | cons c text =>
        have digit : c.isDigit := isDigit_of_mem (spelled ▸ List.mem_cons_self)
        simp [ne_of_isDigit digit (d := '-') (by decide)]
  · rfl

theorem integer_digits {n : Int} (short : (Nat.toDigits 10 n.natAbs).length ≤ Text.mostDigits) :
    Text.integer 10 (String.ofList ((if n < 0 then ['-'] else []) ++ Nat.toDigits 10 n.natAbs)) =
      .ok n := by
  split
  · next below =>
    rw [List.singleton_append, Text.integer_of_minus (fun c => isDigit_of_mem) Nat.toDigits_ne_nil short,
      Nat.ofDigitChars_ten_toDigits]
    exact congrArg Except.ok (by omega)
  · next above =>
    rw [List.nil_append, Text.integer_of_ascii (fun c => isDigit_of_mem) Nat.toDigits_ne_nil short,
      Nat.ofDigitChars_ten_toDigits]
    exact congrArg Except.ok (by omega)

theorem readNumber_toString {n : Int} (short : (Nat.toDigits 10 n.natAbs).length ≤ Text.mostDigits)
    (closed : Closes rest) : readNumber ((toString n).toList ++ rest) = .ok (.int n, rest) := by
  have spelled := integer_digits short
  have signed : (if n < 0 then ['-'] else []) = [] ∨ (if n < 0 then ['-'] else []) = ['-'] := by
    split
    · exact .inr rfl
    · exact .inl rfl
  rw [toList_toString, List.append_assoc]
  generalize (if n < 0 then ['-'] else []) = sign at spelled signed ⊢
  rw [readNumber, sign_digits signed]
  simp only [List.drop_left, whole_digits _ closed, fraction_of_closes closed, List.length_nil,
    List.drop_zero, exponent_of_closes closed, spelled]
  simp [Nat.toDigits_ne_nil]

theorem toString_begins (n : Int) :
    ∃ c text, (toString n).toList = c :: text ∧ ∀ d : Char, d ≠ '-' → ¬ d.isDigit → c ≠ d := by
  rw [toList_toString]
  split
  · exact ⟨_, _, rfl, fun d minus other => minus.symm⟩
  · cases spelled : Nat.toDigits 10 n.natAbs with
    | nil => exact absurd spelled Nat.toDigits_ne_nil
    | cons c text =>
        have digit : c.isDigit := isDigit_of_mem (spelled ▸ List.mem_cons_self)
        exact ⟨c, text, rfl, fun d minus other => ne_of_isDigit digit other⟩

theorem readSimple_toString (n : Int) :
    readSimple ((toString n).toList ++ rest) = readNumber ((toString n).toList ++ rest) := by
  have none : (wordsOf.findSome? fun word =>
      (after? word.1 ((toString n).toList ++ rest)).map fun rest => (word.2, rest)) = none := by
    rw [toList_toString]
    cases spelled : Nat.toDigits 10 n.natAbs with
    | nil => exact absurd spelled Nat.toDigits_ne_nil
    | cons c text =>
        have digit : c.isDigit := isDigit_of_mem (spelled ▸ List.mem_cons_self)
        have differs (d : Char) (other : ¬ d.isDigit) : d ≠ c := (ne_of_isDigit digit other).symm
        split <;>
          simp [wordsOf, after?, differs 'n' (by decide), differs 't' (by decide), differs 'f' (by decide),
            differs 'N' (by decide), differs 'I' (by decide), differs '-' (by decide)]
  rw [readSimple, none]

end Numbers

theorem readValue_simple {c : Char} (fuel : Nat) (rest : List Char) (quote : c ≠ '\x22') (list : c ≠ '[')
    (object : c ≠ '\x7b') : readValue (fuel + 1) (c :: rest) = readSimple (c :: rest) := by
  rw [readValue]
  · exact fun _ same => quote (List.cons.inj same).1
  · exact fun _ same => list (List.cons.inj same).1
  · exact fun _ same => object (List.cons.inj same).1

theorem reads_int {n : Int} (short : (Nat.toDigits 10 n.natAbs).length ≤ Text.mostDigits) :
    Reads (.int n) := by
  intro fuel rest enough closed
  obtain ⟨c, text, begins, differs⟩ := toString_begins n
  have number := (readSimple_toString n).trans (readNumber_toString short closed)
  rw [write]
  rw [begins, List.cons_append] at number ⊢
  rwa [readValue_simple fuel _ (differs _ (by decide) (by decide)) (differs _ (by decide) (by decide))
    (differs _ (by decide) (by decide))]

theorem reads_str {text : JsonText} (joined : Joined text) : Reads (.str text) := by
  intro fuel rest enough closed
  obtain ⟨form, read⟩ := readText_writeText joined rest
  rw [write, form, readValue, read]
  rfl

theorem reads_null : Reads .null := by
  intro fuel rest enough closed
  exact readValue_simple fuel _ (by decide) (by decide) (by decide)

theorem reads_bool (b : Bool) : Reads (.bool b) := by
  intro fuel rest enough closed
  cases b <;> exact readValue_simple fuel _ (by decide) (by decide) (by decide)

/-- What follows the first of several texts that are joined. -/
def follow (more : List String) : List Char := more.flatMap fun text => ',' :: ' ' :: text.toList

theorem follow_cons (text : String) (more : List String) :
    follow (text :: more) = ',' :: ' ' :: (text.toList ++ follow more) :=
  List.flatMap_cons

theorem toList_joined (first : String) (more : List String) :
    (", ".intercalate (first :: more)).toList = first.toList ++ follow more := by
  induction more generalizing first with
  | nil => simp [follow]
  | cons second more ih =>
      rw [String.intercalate_cons_of_ne_nil (List.cons_ne_nil _ _), String.toList_append,
        String.toList_append, ih, follow_cons, List.append_assoc]
      rfl

theorem closes_follow {mark : Char} (closed : Closes [mark]) (more : List String) (rest : List Char) :
    Closes (follow more ++ mark :: rest) := by
  cases more with
  | nil => exact closed
  | cons text more =>
      have comma : Closes [','] := by decide
      exact comma

theorem Plain.begins {v : JsonValue} (plain : Plain v) :
    ∃ c text, v.write.toList = c :: text ∧ isGap c = false ∧ c ≠ ']' := by
  cases plain with
  | null => exact ⟨_, _, rfl, by decide, by decide⟩
  | bool b => cases b <;> exact ⟨_, _, rfl, by decide, by decide⟩
  | @int n short =>
      obtain ⟨c, text, begins, differs⟩ := toString_begins n
      refine ⟨c, text, begins, ?_, differs _ (by decide) (by decide)⟩
      simp [isGap, differs ' ' (by decide) (by decide), differs '\t' (by decide) (by decide),
        differs '\n' (by decide) (by decide), differs '\r' (by decide) (by decide)]
  | @str text joined =>
      refine ⟨'\x22', text.flatMap escape ++ ['\x22'], ?_, by decide, by decide⟩
      simp [write, writeText]
  | @arr items each =>
      refine ⟨'[', (", ".intercalate (writeItems items)).toList ++ [']'], ?_, by decide, by decide⟩
      simp [write]
  | @obj fields once named each =>
      refine ⟨'\x7b', (", ".intercalate (writeFields fields)).toList ++ ['\x7d'], ?_, by decide, by decide⟩
      simp [write]

theorem Plain.skipGap_space {v : JsonValue} (plain : Plain v) (rest : List Char) :
    skipGap (' ' :: (v.write.toList ++ rest)) = v.write.toList ++ rest := by
  obtain ⟨c, text, begins, solid, -⟩ := plain.begins
  rw [begins, List.cons_append, JsonValue.skipGap_space solid]

theorem readItems_write {item : JsonValue} {more : List JsonValue}
    (plain : ∀ v ∈ item :: more, Plain v) (reads : ∀ v ∈ item :: more, Reads v) (fuel : Nat)
    (enough : 2 * (item.write.toList ++ follow (writeItems more)).length + 1 ≤ fuel) (rest : List Char) :
    readItems (fuel + 1) (item.write.toList ++ (follow (writeItems more) ++ ']' :: rest)) =
      .ok (item :: more, rest) := by
  -- an item takes one from the bound, and the comma and the blank before the next pay for it
  induction more generalizing item fuel with
  | nil =>
      obtain ⟨fuel, rfl⟩ := Nat.exists_eq_add_of_le' (Nat.le_trans (Nat.le_add_left 1 _) enough)
      rw [List.length_append] at enough
      rw [readItems, reads item List.mem_cons_self fuel _ (by omega) (closes_follow (by decide) _ _)]
      rfl
  | cons second more ih =>
      obtain ⟨fuel, rfl⟩ := Nat.exists_eq_add_of_le' (Nat.le_trans (Nat.le_add_left 1 _) enough)
      have next := plain second (List.mem_cons_of_mem _ List.mem_cons_self)
      have cut : follow (writeItems (second :: more)) =
          ',' :: ' ' :: (second.write.toList ++ follow (writeItems more)) := by
        rw [writeItems, follow_cons]
      rw [List.length_append, cut, List.length_cons, List.length_cons] at enough
      have others := ih (fun v among => plain v (List.mem_cons_of_mem _ among))
        (fun v among => reads v (List.mem_cons_of_mem _ among)) fuel (by omega)
      rw [readItems, reads item List.mem_cons_self fuel _ (by omega) (closes_follow (by decide) _ _), cut]
      simp only [bind, Except.bind, List.cons_append, List.append_assoc, skipGap_cons (c := ',') (by decide),
        next.skipGap_space, others]
      rfl

theorem reads_arr {items : List JsonValue} (plain : ∀ v ∈ items, Plain v) (reads : ∀ v ∈ items, Reads v) :
    Reads (.arr items) := by
  intro fuel rest enough closed
  cases items with
  | nil => rfl
  | cons item more =>
      have form : (write (.arr (item :: more))).toList =
          '[' :: (item.write.toList ++ follow (writeItems more) ++ [']']) := by
        rw [write, writeItems, String.toList_append, String.toList_append, toList_joined]
        rfl
      rw [form, List.length_cons, List.length_append, List.length_singleton] at enough
      obtain ⟨fuel, rfl⟩ := Nat.exists_eq_add_of_le' (Nat.le_trans (by omega : 1 ≤ _) enough)
      have inside := readItems_write plain reads fuel (by omega) rest
      obtain ⟨c, text, begins, solid, other⟩ := (plain item List.mem_cons_self).begins
      rw [form, List.cons_append, List.append_assoc, List.append_assoc, List.singleton_append]
      rw [begins, List.cons_append] at inside ⊢
      rw [readValue, skipGap_cons solid]
      split
      · next same => exact absurd (List.cons.inj same).1 other
      · rw [inside]
        rfl

/-- The text of a field. -/
def fieldText (field : JsonText × JsonValue) : String := writeText field.1 ++ ": " ++ field.2.write

theorem writeFields_eq (fields : List (JsonText × JsonValue)) : writeFields fields = fields.map fieldText := by
  induction fields with
  | nil => rw [writeFields, List.map_nil]
  | cons field fields ih =>
      rw [writeFields, ih, List.map_cons]
      rfl

theorem fieldText_begins (field : JsonText × JsonValue) :
    ∃ text, (fieldText field).toList = '\x22' :: text :=
  ⟨field.1.flatMap escape ++ '\x22' :: ':' :: ' ' :: field.2.write.toList, by
    simp [fieldText, writeText]⟩

theorem skipGap_fieldText (field : JsonText × JsonValue) (rest : List Char) :
    skipGap (' ' :: ((fieldText field).toList ++ rest)) = (fieldText field).toList ++ rest := by
  obtain ⟨text, begins⟩ := fieldText_begins field
  rw [begins, List.cons_append, skipGap_space (by decide)]

theorem readFields_field {field : JsonText × JsonValue} (joined : Joined field.1) (plain : Plain field.2)
    (reads : Reads field.2) {fuel : Nat} (enough : 2 * (fieldText field).toList.length ≤ fuel) {rest : List Char}
    (closed : Closes rest) :
    readFields (fuel + 2) ((fieldText field).toList ++ rest) =
      match skipGap rest with
      | '\x7d' :: rest => .ok ([field], rest)
      | ',' :: rest => do
        let (fields, rest) ← readFields (fuel + 1) (skipGap rest)
        return (field :: fields, rest)
      | _ => .error .malformed := by
  have form : (fieldText field).toList ++ rest =
      (writeText field.1).toList ++ ':' :: ' ' :: (field.2.write.toList ++ rest) := by
    simp [fieldText]
  have size : field.2.write.toList.length ≤ (fieldText field).toList.length := by
    rw [fieldText, String.toList_append, List.length_append]
    omega
  obtain ⟨quoted, name⟩ := readText_writeText joined (':' :: ' ' :: (field.2.write.toList ++ rest))
  rw [form, quoted, readFields, name]
  simp only [bind, Except.bind, skipGap_cons (c := ':') (by decide), plain.skipGap_space,
    reads fuel rest (by omega) closed]
  rfl

theorem readFields_write {field : JsonText × JsonValue} {more : List (JsonText × JsonValue)}
    (named : ∀ other ∈ field :: more, Joined other.1)
    (plain : ∀ other ∈ field :: more, Plain other.2) (reads : ∀ other ∈ field :: more, Reads other.2)
    (fuel : Nat) (enough : 2 * ((fieldText field).toList ++ follow (writeFields more)).length + 1 ≤ fuel)
    (rest : List Char) :
    readFields (fuel + 1) ((fieldText field).toList ++ (follow (writeFields more) ++ '\x7d' :: rest)) =
      .ok (field :: more, rest) := by
  induction more generalizing field fuel with
  | nil =>
      obtain ⟨fuel, rfl⟩ := Nat.exists_eq_add_of_le' (Nat.le_trans (Nat.le_add_left 1 _) enough)
      rw [List.length_append] at enough
      rw [readFields_field (named _ List.mem_cons_self) (plain _ List.mem_cons_self)
        (reads _ List.mem_cons_self) (by omega) (closes_follow (by decide) _ _)]
      rfl
  | cons second more ih =>
      obtain ⟨fuel, rfl⟩ := Nat.exists_eq_add_of_le' (Nat.le_trans (Nat.le_add_left 1 _) enough)
      have cut : follow (writeFields (second :: more)) =
          ',' :: ' ' :: ((fieldText second).toList ++ follow (writeFields more)) := by
        rw [writeFields_eq, List.map_cons, follow_cons, ← writeFields_eq]
      rw [List.length_append, cut, List.length_cons, List.length_cons] at enough
      have others := ih (fun v among => named v (List.mem_cons_of_mem _ among))
        (fun v among => plain v (List.mem_cons_of_mem _ among))
        (fun v among => reads v (List.mem_cons_of_mem _ among)) fuel (by omega)
      rw [readFields_field (named _ List.mem_cons_self) (plain _ List.mem_cons_self)
        (reads _ List.mem_cons_self) (by omega) (closes_follow (by decide) _ _), cut, List.cons_append,
        skipGap_cons (by decide)]
      simp only [List.cons_append, List.append_assoc, skipGap_fieldText, others]
      rfl

theorem ofFields_of_nodup {fields : List (JsonText × JsonValue)} (once : (fields.map Prod.fst).Nodup) :
    ofFields fields = .obj fields :=
  congrArg obj (foldl_put once)

theorem reads_obj {fields : List (JsonText × JsonValue)} (once : (fields.map Prod.fst).Nodup)
    (named : ∀ field ∈ fields, Joined field.1)
    (plain : ∀ field ∈ fields, Plain field.2) (reads : ∀ field ∈ fields, Reads field.2) :
    Reads (.obj fields) := by
  intro fuel rest enough closed
  cases fields with
  | nil => rfl
  | cons field more =>
      have form : (write (.obj (field :: more))).toList =
          '\x7b' :: ((fieldText field).toList ++ follow (writeFields more) ++ ['\x7d']) := by
        have opening : "\x7b".toList = ['\x7b'] := rfl
        have closing : "\x7d".toList = ['\x7d'] := rfl
        rw [write, writeFields_eq, List.map_cons, String.toList_append, String.toList_append, toList_joined,
          ← writeFields_eq, opening, closing, List.singleton_append, List.cons_append]
      rw [form, List.length_cons, List.length_append, List.length_singleton] at enough
      obtain ⟨fuel, rfl⟩ := Nat.exists_eq_add_of_le' (Nat.le_trans (by omega : 1 ≤ _) enough)
      have inside := readFields_write named plain reads fuel (by omega) rest
      obtain ⟨text, begins⟩ := fieldText_begins field
      rw [form, List.cons_append, List.append_assoc, List.append_assoc, List.singleton_append]
      rw [begins, List.cons_append] at inside ⊢
      rw [readValue, skipGap_cons (by decide), ← ofFields_of_nodup once]
      split
      · next same => exact absurd (List.cons.inj same).1 (by decide)
      · rw [inside]
        rfl

theorem Plain.reads {v : JsonValue} (plain : Plain v) : Reads v := by
  induction plain with
  | null => exact reads_null
  | bool b => exact reads_bool b
  | int short => exact reads_int short
  | str joined => exact reads_str joined
  | arr each ih => exact reads_arr each ih
  | obj once named each ih => exact reads_obj once named each ih

/-- A value is read back from its text. -/
theorem read_write {v : JsonValue} (plain : Plain v) : read v.write = .ok v := by
  obtain ⟨c, text, begins, solid, -⟩ := plain.begins
  have whole := plain.reads (2 * v.write.length + 1) [] (by rw [String.length_toList]; omega) (by decide)
  have start : skipGap v.write.toList = v.write.toList := by rw [begins, skipGap_cons solid]
  rw [List.append_nil] at whole
  rw [read, start, whole]
  rfl

theorem writeItems_eq (items : List JsonValue) : writeItems items = items.map write := by
  induction items with
  | nil => rw [writeItems, List.map_nil]
  | cons item items ih => rw [writeItems, ih, List.map_cons]

theorem visible_joined {list : List String} (each : ∀ text ∈ list, ∀ c ∈ text.toList, Visible c) :
    ∀ c ∈ (", ".intercalate list).toList, Visible c := by
  intro c among
  cases list with
  | nil => cases among
  | cons first more =>
      rw [toList_joined, List.mem_append, follow, List.mem_flatMap] at among
      rcases among with inside | ⟨text, member, inside⟩
      · exact each first List.mem_cons_self c inside
      · rw [List.mem_cons, List.mem_cons] at inside
        rcases inside with rfl | rfl | inside
        · decide
        · decide
        · exact each text (List.mem_cons_of_mem _ member) c inside

theorem visible_of_all {text : String} (all : text.toList.all fun c => decide (Visible c)) :
    ∀ c ∈ text.toList, Visible c :=
  fun c among => of_decide_eq_true (List.all_eq_true.mp all c among)

theorem visible_append {first second : String} (before : ∀ c ∈ first.toList, Visible c)
    (behind : ∀ c ∈ second.toList, Visible c) : ∀ c ∈ (first ++ second).toList, Visible c := by
  intro c among
  rw [String.toList_append, List.mem_append] at among
  exact among.elim (before c) (behind c)

/-- The text of a value holds printable ASCII only, so it takes one line. -/
theorem Plain.visible {v : JsonValue} (plain : Plain v) : ∀ c ∈ v.write.toList, Visible c := by
  induction plain with
  | null =>
      rw [write]
      exact visible_of_all (by decide)
  | bool b =>
      cases b <;>
      · rw [write]
        exact visible_of_all (by decide)
  | @int n short =>
      intro c among
      rw [write, toList_toString, List.mem_append] at among
      rcases among with sign | digit
      · split at sign
        · rw [List.mem_singleton.mp sign]
          decide
        · cases sign
      · obtain ⟨d, small, rfl⟩ := Text.mem_toDigits (by decide) digit
        exact visible_digitChar (by omega)
  | str joined =>
      rw [write]
      exact fun c => visible_writeText
  | @arr items each ih =>
      rw [write, writeItems_eq]
      refine visible_append (visible_append (visible_of_all (by decide))
        (visible_joined fun text member => ?_)) (visible_of_all (by decide))
      obtain ⟨item, there, rfl⟩ := List.mem_map.mp member
      exact ih item there
  | @obj fields once named each ih =>
      rw [write, writeFields_eq]
      refine visible_append (visible_append (visible_of_all (by decide))
        (visible_joined fun text member => ?_)) (visible_of_all (by decide))
      obtain ⟨field, there, rfl⟩ := List.mem_map.mp member
      exact visible_append (visible_append (fun c => visible_writeText) (visible_of_all (by decide)))
        (ih field there)

end ByteTape.JsonValue
