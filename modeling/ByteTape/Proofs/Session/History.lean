import ByteTape.Proofs.Text.Decimal
import ByteTape.Session.History

/-! # What a history keeps and how it is named

A history holds the last of the things that were added to it, under the numbers they were
added with. A name made of digits leads to the thing with this number. Some texts of digits
are no numbers, and only these names fail in another way than by a missing key.
-/

namespace ByteTape

namespace History

variable {α : Type}

/-- Things under the numbers that follow `m`. -/
def numberedFrom (m : Nat) : List α → History α
  | [] => []
  | a :: rest => ((m + 1 : Nat), a) :: numberedFrom (m + 1) rest

theorem length_numberedFrom (m : Nat) (things : List α) :
    (numberedFrom m things).length = things.length := by
  induction things generalizing m with
  | nil => rfl
  | cons a rest ih => rw [numberedFrom, List.length_cons, ih, List.length_cons]

theorem numberedFrom_append (m : Nat) (things more : List α) :
    numberedFrom m (things ++ more) = numberedFrom m things ++ numberedFrom (m + things.length) more := by
  induction things generalizing m with
  | nil => rfl
  | cons a rest ih =>
      rw [List.cons_append, numberedFrom, ih, numberedFrom, List.length_cons, List.cons_append,
        Nat.add_right_comm, Nat.add_assoc]

theorem drop_numberedFrom (m k : Nat) (things : List α) :
    (numberedFrom m things).drop k = numberedFrom (m + k) (things.drop k) := by
  induction k generalizing m things with
  | zero => rfl
  | succ k ih =>
      cases things with
      | nil => rfl
      | cons a rest => rw [numberedFrom, List.drop_succ_cons, ih, List.drop_succ_cons, Nat.add_right_comm,
          Nat.add_assoc]

theorem map_fst_numberedFrom (m : Nat) (things : List α) :
    (numberedFrom m things).map Prod.fst = (List.range' (m + 1) things.length).map Int.ofNat := by
  induction things generalizing m with
  | nil => rfl
  | cons a rest ih =>
      rw [numberedFrom, List.map_cons, ih, List.length_cons, List.range'_succ, List.map_cons]
      rfl

theorem map_snd_numberedFrom (m : Nat) (things : List α) :
    (numberedFrom m things).map Prod.snd = things := by
  induction things generalizing m with
  | nil => rfl
  | cons a rest ih => rw [numberedFrom, List.map_cons, ih]

theorem getLast?_numberedFrom (m : Nat) (things : List α) :
    (numberedFrom m things).getLast? = things.getLast?.map fun a => (((m + things.length : Nat) : Int), a) := by
  obtain rfl | ⟨front, a, rfl⟩ := List.eq_nil_or_concat things
  · rfl
  · rw [List.concat_eq_append, numberedFrom_append]
    simp [numberedFrom, Nat.add_assoc]

theorem lookup_numberedFrom (m n : Nat) (things : List α) :
    (numberedFrom m things).lookup (n : Int) = if m < n then things[n - (m + 1)]? else none := by
  induction things generalizing m with
  | nil => simp [numberedFrom]
  | cons a rest ih =>
      rw [numberedFrom, List.lookup_cons]
      by_cases same : n = m + 1
      · subst same
        simp
      · have apart : ((n : Int) == ((m + 1 : Nat) : Int)) = false := by
          rw [beq_eq_false_iff_ne]
          exact_mod_cast same
        rw [apart, ih]
        by_cases later : m + 1 < n
        · have next : n - (m + 1) = n - (m + 1 + 1) + 1 := by omega
          simp only [if_pos later, if_pos (show m < n by omega), next, List.getElem?_cons_succ]
        · rw [if_neg later, if_neg (show ¬ m < n by omega)]

/-- The last `limit` of the things that were added, under their numbers. -/
def window (limit : Nat) (added : List α) : History α :=
  numberedFrom (added.length - limit) (added.drop (added.length - limit))

theorem keep_window (limit : Nat) (added : List α) (a : α) :
    (window limit added).keep limit (added.length + 1) a = window limit (added ++ [a]) := by
  have number : added.length - limit + (added.drop (added.length - limit)).length = added.length := by
    rw [List.length_drop]
    omega
  have all : window limit added ++ [(((added.length + 1 : Nat) : Int), a)] =
      numberedFrom (added.length - limit) ((added ++ [a]).drop (added.length - limit)) := by
    rw [List.drop_append_of_le_length (Nat.sub_le ..), numberedFrom_append, number]
    rfl
  have start : added.length - limit +
      (((added ++ [a]).drop (added.length - limit)).length - limit) = (added ++ [a]).length - limit := by
    rw [List.length_drop, List.length_append, List.length_singleton]
    omega
  rw [keep]
  change (window limit added ++ [(((added.length + 1 : Nat) : Int), a)]).drop
    ((window limit added ++ [(((added.length + 1 : Nat) : Int), a)]).length - limit) = _
  rw [all, length_numberedFrom, drop_numberedFrom, List.drop_drop, start, window]

theorem lookup_window (limit n : Nat) (added : List α) :
    (window limit added).lookup (n : Int) =
      if added.length - limit < n then added[n - 1]? else none := by
  rw [window, lookup_numberedFrom]
  by_cases late : added.length - limit < n
  · rw [if_pos late, if_pos late, List.getElem?_drop]
    congr 1
    omega
  · rw [if_neg late, if_neg late]

/-- Digits that make no number, behind number signs: one of them is not decimal, or there
are too many. -/
def Unreadable (token : String) : Prop :=
  let digits := token.toList.dropWhile (· == '#')
  digits ≠ [] ∧ (∀ c ∈ digits, Text.isDigit c) ∧
    ((∃ c ∈ digits, Text.decimalValue? c = none) ∨ Text.mostDigits < digits.length)

theorem numberOf_of_not_digits {token : String}
    (other : ¬ (token.toList.dropWhile (· == '#') ≠ [] ∧
      ∀ c ∈ token.toList.dropWhile (· == '#'), Text.isDigit c)) :
    numberOf token = .error (.notNumber token) := by
  refine if_pos ?_
  by_contra digits
  simp only [Bool.or_eq_true, List.isEmpty_iff, Bool.not_eq_true', not_or, Bool.not_eq_false,
    List.all_eq_true] at digits
  exact other digits

theorem numberOf_of_digits {token : String} (nonempty : token.toList.dropWhile (· == '#') ≠ [])
    (digits : ∀ c ∈ token.toList.dropWhile (· == '#'), Text.isDigit c) :
    numberOf token =
      (Text.integer 10 (String.ofList (token.toList.dropWhile (· == '#')))).mapError .numeral := by
  refine if_neg ?_
  simpa only [Bool.or_eq_true, List.isEmpty_iff, Bool.not_eq_true', not_or, Bool.not_eq_false,
    List.all_eq_true] using ⟨nonempty, digits⟩

theorem exists_numeral_iff {token : String} :
    (∃ e, numberOf token = .error (.numeral e)) ↔ Unreadable token := by
  by_cases known : token.toList.dropWhile (· == '#') ≠ [] ∧
      ∀ c ∈ token.toList.dropWhile (· == '#'), Text.isDigit c
  · obtain ⟨nonempty, digits⟩ := known
    rw [numberOf_of_digits nonempty digits]
    cases values : (token.toList.dropWhile (· == '#')).mapM Text.decimalValue? with
    | none =>
        have other := Text.mapM_decimalValue?_eq_none_iff.mp values
        rw [Text.integer_of_other digits nonempty other]
        exact ⟨fun _ => ⟨nonempty, digits, .inl other⟩, fun _ => ⟨_, rfl⟩⟩
    | some list =>
        have decimal : ¬ ∃ c ∈ token.toList.dropWhile (· == '#'), Text.decimalValue? c = none := by
          rw [← Text.mapM_decimalValue?_eq_none_iff, values]
          exact Option.some_ne_none list
        rw [Text.integer_of_decimal nonempty values]
        split
        · next long => exact ⟨fun _ => ⟨nonempty, digits, .inr long⟩, fun _ => ⟨_, rfl⟩⟩
        · next short =>
            refine ⟨fun ⟨_, same⟩ => (by cases same), fun ⟨_, _, bad⟩ => ?_⟩
            exact absurd bad (not_or.mpr ⟨decimal, short⟩)
  · rw [numberOf_of_not_digits known]
    exact ⟨fun ⟨_, same⟩ => (by cases same), fun ⟨nonempty, digits, _⟩ => absurd ⟨nonempty, digits⟩ known⟩

/-- The name of a number: its ASCII digits, perhaps behind number signs. -/
theorem numberOf_ascii {digits : List Char} (ascii : ∀ c ∈ digits, c.isDigit) (nonempty : digits ≠ [])
    (short : digits.length ≤ Text.mostDigits) (signs : Nat) :
    numberOf (String.ofList (List.replicate signs '#' ++ digits)) =
      .ok (Nat.ofDigitChars 10 digits 0) := by
  have bare : (String.ofList (List.replicate signs '#' ++ digits)).toList.dropWhile (· == '#') = digits := by
    rw [String.toList_ofList, List.dropWhile_append_of_pos (by simp)]
    obtain ⟨c, rest, rfl⟩ := List.exists_cons_of_ne_nil nonempty
    have apart : (c == '#') = false := by
      have digit := ascii c (by simp)
      rw [beq_eq_false_iff_ne]
      rintro rfl
      cases digit
    rw [List.dropWhile_cons, apart, if_neg Bool.false_ne_true]
  have all : ∀ c ∈ digits, Text.isDigit c := fun c there => by
    simp [Text.isDigit, Text.decimalValue?_of_isAscii (ascii c there)]
  rw [numberOf_of_digits (bare.symm ▸ nonempty) (bare.symm ▸ all), bare,
    Text.integer_of_ascii ascii nonempty short]
  rfl

end History

namespace PickError

/-- All but digits that make no number are reported as a missing key. -/
theorem kind_eq_key_iff (e : PickError) : e.report.kind = .key ↔ ∀ cause, e ≠ .numeral cause := by
  cases e with
  | nothing | notNumber | notKept => exact iff_of_true rfl fun _ => PickError.noConfusion
  | numeral cause =>
      refine iff_of_false ?_ fun other => other cause rfl
      cases cause <;> exact Report.Kind.noConfusion

end PickError

namespace History

variable {α : Type} {h : History α} {token : String}

theorem pick_nil (token : Option String) : pick ([] : History α) token = .error .nothing := by
  cases token <;> rfl

theorem pick_latest {n : Int} {a : α} (latest : h.getLast? = some (n, a)) : h.pick none = .ok (n, a) := by
  simp only [pick, latest]

theorem pick_of_error {e : PickError} (nonempty : h ≠ []) (failed : numberOf token = .error e) :
    h.pick (some token) = .error e := by
  simp only [pick, List.getLast?_eq_some_getLast nonempty, failed]

theorem pick_of_number {n : Int} (nonempty : h ≠ []) (number : numberOf token = .ok n) :
    h.pick (some token) =
      match h.lookup n with
      | some a => .ok (n, a)
      | none => .error (.notKept n (h.map Prod.fst)) := by
  have latest := List.getLast?_eq_some_getLast nonempty
  cases known : h.lookup n with
  | none => simp only [pick, latest, number, known]
  | some a => simp only [pick, latest, number, known]

theorem mem_of_pick {name : Option String} {found : Int × α} (picked : h.pick name = .ok found) : found ∈ h := by
  obtain rfl | nonempty := eq_or_ne h []
  · rw [pick_nil] at picked
    cases picked
  · cases name with
    | none =>
        simp only [pick, List.getLast?_eq_some_getLast nonempty, Except.ok.injEq] at picked
        exact picked ▸ List.getLast_mem nonempty
    | some token =>
        cases number : numberOf token with
        | error e =>
            rw [pick_of_error nonempty number] at picked
            cases picked
        | ok n =>
            rw [pick_of_number nonempty number] at picked
            cases known : h.lookup n with
            | none =>
                rw [known] at picked
                cases picked
            | some a =>
                rw [known] at picked
                cases picked
                obtain ⟨before, after, rfl, -⟩ := List.lookup_eq_some_iff.mp known
                simp

/-- Names that fail otherwise than by a missing key. -/
theorem exists_pick_numeral_iff :
    (∃ e, h.pick (some token) = .error (.numeral e)) ↔ h ≠ [] ∧ Unreadable token := by
  by_cases empty : h = []
  · subst empty
    rw [pick_nil]
    exact ⟨fun ⟨_, same⟩ => (by cases same), fun ⟨nonempty, _⟩ => absurd rfl nonempty⟩
  · rw [← exists_numeral_iff, and_iff_right empty]
    cases number : numberOf token with
    | error e =>
        rw [pick_of_error empty number]
        simp
    | ok n =>
        rw [pick_of_number empty number]
        cases h.lookup n <;> simp

end History

end ByteTape
