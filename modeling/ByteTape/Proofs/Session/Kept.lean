import ByteTape.Proofs.Session.Turns

/-! # The programs a session keeps

Whatever lines a session reads, it keeps the last of the programs that were built and came
to their end, in order and under their numbers. Commands and programs that fail leave no
gap in the numbers. A name leads to the program that has the number.
-/

namespace ByteTape.Session

variable {s : Session} {line : String} {limit : Nat} {done : List Build}

theorem Completes.unique {b b' : Build} {m m' : Machine} (h : Completes line b m)
    (h' : Completes line b' m') : b = b' :=
  Except.ok.inj (h.built.symm.trans h'.built)

/-- The builds of the lines that come to their end, in order. -/
inductive Successes : List String → List Build → Prop where
  | nil : Successes [] []
  | success {line : String} {lines : List String} {b : Build} {m : Machine} {done : List Build}
    (completes : Completes line b m) (rest : Successes lines done) :
    Successes (line :: lines) (b :: done)
  | failure {line : String} {lines : List String} {done : List Build}
    (fails : ∀ b m, ¬ Completes line b m) (rest : Successes lines done) : Successes (line :: lines) done

/-- The session has run these programs to their end and keeps the last of them. -/
structure Holds (s : Session) (limit : Nat) (done : List Build) : Prop where
  bound : s.limit = limit
  count : s.count = done.length
  kept : s.kept = History.window limit done

theorem holds_start (limit : Nat) (disk : Disk) : (start limit disk).Holds limit [] :=
  ⟨rfl, rfl, by simp [start, History.window, History.numberedFrom]⟩

theorem Holds.keep (h : s.Holds limit done) (b : Build) : (s.keep b).Holds limit (done ++ [b]) where
  bound := h.bound
  count := by
    rw [List.length_append, List.length_singleton, ← h.count]
    rfl
  kept := by
    have added := History.keep_window limit done b
    rw [← h.kept, ← h.count] at added
    rw [Session.keep, h.bound]
    exact added

/-- A line that does not come to its end as a program changes neither the programs nor
their count. -/
theorem Turn.unchanged {reply : Reply} (turn : s.Turn line reply)
    (fails : ∀ b m, ¬ Completes line b m) :
    reply.session.limit = s.limit ∧ reply.session.count = s.count ∧ reply.session.kept = s.kept := by
  cases turn with
  | completed completes | overrun completes => exact absurd completes (fails _ _)
  | _ => exact ⟨rfl, rfl, rfl⟩

theorem Turn.kept {reply : Reply} {b : Build} {m : Machine} (turn : s.Turn line reply)
    (settled : reply.ending ≠ some .unfinished) (completes : Completes line b m) :
    reply.session = s.keep b := by
  have program {r : Request} (asked : request line = r) : r = .program := asked ▸ completes.asked
  cases turn with
  | idle asked | left asked | helped asked | misused asked | answered asked | unlisted asked
  | saved asked | unsaved asked | compared asked => cases program asked
  | missed looked | misread looked =>
      rw [completes.asked] at looked
      cases looked
  | refused _ failed => cases failed.symm.trans completes.built
  | cut => exact absurd rfl settled
  | faulted _ built ends =>
      cases built.symm.trans completes.built
      cases (ends.unique completes.ends).2
  | completed completes' | overrun completes' => rw [completes.unique completes']; rfl

/-- One line: the programs that are held grow by the one of the line, if it comes to its end. -/
theorem Holds.respond (h : s.Holds limit done) (fuel : Nat) (line : String)
    (settled : (s.respond fuel line).ending ≠ some .unfinished) :
    ∃ more, Successes [line] more ∧ (s.respond fuel line).session.Holds limit (done ++ more) := by
  have turn := s.turn fuel line
  by_cases completes : ∃ b m, Completes line b m
  · obtain ⟨b, m, completes⟩ := completes
    refine ⟨[b], .success completes .nil, ?_⟩
    rw [turn.kept settled completes]
    exact h.keep b
  · have fails : ∀ b m, ¬ Completes line b m := fun b m found => completes ⟨b, m, found⟩
    obtain ⟨bound, count, kept⟩ := turn.unchanged fails
    refine ⟨[], .failure fails .nil, ?_⟩
    rw [List.append_nil]
    exact ⟨bound.trans h.bound, count.trans h.count, kept.trans h.kept⟩

theorem Successes.append {lines lines' : List String} {done' : List Build} (h : Successes lines done)
    (h' : Successes lines' done') : Successes (lines ++ lines') (done ++ done') := by
  induction h with
  | nil => exact h'
  | success completes _ ih => exact .success completes ih
  | failure fails _ ih => exact .failure fails ih

theorem Successes.unique {lines : List String} {done' : List Build} (h : Successes lines done)
    (h' : Successes lines done') : done = done' := by
  induction h generalizing done' with
  | nil =>
      cases h'
      rfl
  | success completes _ ih =>
      cases h' with
      | success completes' rest' => rw [completes.unique completes', ih rest']
      | failure fails => exact absurd completes (fails _ _)
  | failure fails _ ih =>
      cases h' with
      | success completes' => exact absurd completes' (fails _ _)
      | failure _ rest' => exact ih rest'

theorem exchanges_cons {fuel : Nat} (goes : (s.respond fuel line).ending = none) (lines : List String) :
    s.exchanges fuel (line :: lines) =
      (⟨(s.respond fuel line).out ++ prompt, (s.respond fuel line).err⟩ ::
          ((s.respond fuel line).session.exchanges fuel lines).1,
        ((s.respond fuel line).session.exchanges fuel lines).2) := by
  rw [exchanges, goes]

/-- All lines: there is one exchange for each line that was read, and one more when the lines
came to an end. -/
theorem Holds.exchanges {fuel : Nat} {lines : List String} {shown : List Exchange} {last : Session}
    {ending : Option Ending} (h : s.Holds limit done)
    (ran : s.exchanges fuel lines = (shown, last, ending)) (settled : ending ≠ some .unfinished) :
    ∃ more, Successes (lines.take shown.length) more ∧ last.Holds limit (done ++ more) := by
  induction lines generalizing s done shown last ending with
  | nil =>
      cases ran
      exact ⟨[], .nil, by rwa [List.append_nil]⟩
  | cons line lines ih =>
      cases stopped : (s.respond fuel line).ending with
      | some e =>
          rw [Session.exchanges, stopped] at ran
          cases ran
          exact h.respond fuel line (by rwa [stopped])
      | none =>
          rcases rest : (s.respond fuel line).session.exchanges fuel lines with ⟨shown', last', ending'⟩
          rw [exchanges_cons stopped, rest] at ran
          cases ran
          obtain ⟨first, succeeded, held⟩ := h.respond fuel line (by simp [stopped])
          obtain ⟨more, succeeded', held'⟩ := ih held rest settled
          refine ⟨first ++ more, succeeded.append succeeded', ?_⟩
          rwa [← List.append_assoc]

theorem Holds.pick_latest (h : s.Holds limit done) (any : 0 < min done.length limit) :
    ∃ b, done.getLast? = some b ∧ s.kept.pick none = .ok ((done.length : Int), b) := by
  obtain ⟨front, b, rfl⟩ : ∃ front b, done = front ++ [b] := by
    obtain rfl | ⟨front, b, rfl⟩ := List.eq_nil_or_concat done
    · cases any
    · exact ⟨front, b, List.concat_eq_append⟩
  refine ⟨b, by simp, History.pick_latest ?_⟩
  have place : (front ++ [b]).length - limit ≤ front.length := by
    rw [List.length_append, List.length_singleton] at any ⊢
    omega
  have number : (front ++ [b]).length - limit + ((front ++ [b]).drop ((front ++ [b]).length - limit)).length =
      (front ++ [b]).length := by
    rw [List.length_drop]
    omega
  rw [h.kept, History.window, History.getLast?_numberedFrom, number,
    List.drop_append_of_le_length place]
  simp

theorem Holds.pick_number (h : s.Holds limit done) {token : String} {n : Nat}
    (number : History.numberOf token = .ok (n : Int)) :
    ((done.length - min done.length limit < n ∧ n ≤ done.length) ∧
      ∃ b, done[n - 1]? = some b ∧ s.kept.pick (some token) = .ok ((n : Int), b)) ∨
    (¬ (done.length - min done.length limit < n ∧ n ≤ done.length) ∧
      ∃ e, s.kept.pick (some token) = .error e ∧ e.report.kind = .key) := by
  have start : done.length - min done.length limit = done.length - limit := by omega
  rw [start]
  by_cases empty : s.kept = []
  · have none : ¬ (done.length - limit < n ∧ n ≤ done.length) := by
      have length := congrArg List.length (h.kept.symm.trans empty)
      rw [History.window, History.length_numberedFrom, List.length_drop, List.length_nil] at length
      omega
    exact .inr ⟨none, _, by rw [empty, History.pick_nil], rfl⟩
  · have found := History.lookup_window limit n done
    rw [← h.kept] at found
    rw [History.pick_of_number empty number, found]
    by_cases late : done.length - limit < n
    · rw [if_pos late]
      cases there : done[n - 1]? with
      | some b =>
          have inside := (List.getElem?_eq_some_iff.mp there).1
          exact .inl ⟨⟨late, by omega⟩, b, rfl, rfl⟩
      | none =>
          have out := List.getElem?_eq_none_iff.mp there
          exact .inr ⟨fun inside => by omega, _, rfl, rfl⟩
    · rw [if_neg late]
      exact .inr ⟨fun inside => late inside.1, _, rfl, rfl⟩

/-- A session that has read any lines keeps the last of the programs that were built and came
to their end, in order and under their numbers. The latest of them needs no name, and ASCII
digits, perhaps behind number signs, lead to the program with their number, or are reported
as a missing key when this is not kept. -/
theorem history_exact (limit : Nat) (disk : Disk) (fuel : Nat) (lines : List String)
    {shown : List Exchange} {last : Session} {ending : Option Ending}
    (ran : (start limit disk).exchanges fuel lines = (shown, last, ending))
    (settled : ending ≠ some .unfinished) :
    ∃ done, Successes (lines.take shown.length) done ∧ last.count = done.length ∧
      last.kept.map Prod.snd = done.drop (done.length - min done.length limit) ∧
      last.kept.map Prod.fst =
        (List.range' (done.length - min done.length limit + 1) (min done.length limit)).map Int.ofNat ∧
      (0 < min done.length limit →
        ∃ b, done.getLast? = some b ∧ last.kept.pick none = .ok ((done.length : Int), b)) ∧
      ∀ (signs : Nat) (digits : List Char), digits ≠ [] → (∀ c ∈ digits, c.isDigit) →
        digits.length ≤ 4300 →
        let n := Nat.ofDigitChars 10 digits 0
        let picked := last.kept.pick (some (String.ofList (List.replicate signs '#' ++ digits)))
        (done.length - min done.length limit < n ∧ n ≤ done.length →
          ∃ b, done[n - 1]? = some b ∧ picked = .ok ((n : Int), b)) ∧
        (¬ (done.length - min done.length limit < n ∧ n ≤ done.length) →
          ∃ e, picked = .error e ∧ e.report.kind = .key) := by
  obtain ⟨done, succeeded, held⟩ := (holds_start limit disk).exchanges ran settled
  rw [List.nil_append] at held
  have start : done.length - min done.length limit = done.length - limit := by omega
  have size : (done.drop (done.length - limit)).length = min done.length limit := by
    rw [List.length_drop]
    omega
  refine ⟨done, succeeded, held.count, ?_, ?_, held.pick_latest, ?_⟩
  · rw [held.kept, History.window, History.map_snd_numberedFrom, start]
  · rw [held.kept, History.window, History.map_fst_numberedFrom, size, start]
  · intro signs digits nonempty ascii short
    have number := History.numberOf_ascii ascii nonempty short signs
    obtain ⟨inside, found⟩ | ⟨outside, missing⟩ := held.pick_number number
    · exact ⟨fun _ => found, fun outside => absurd inside outside⟩
    · exact ⟨fun inside => absurd inside outside, fun _ => missing⟩

/-- The build of a line without definitions: its root alone, with these items as its body. -/
def flatBuild (items : List Item) (instrs : Array Instr) : Build :=
  ⟨⟨#[⟨0, "src", none, none, [], [], some items⟩], [("src", 0)]⟩,
    ⟨instrs, some (items.toArray.map fun item => some (.source item.loc))⟩⟩

def plusBuild : Build := flatBuild [.op .increment ⟨"<repl>", 1, 1⟩] #[⟨.increment, none⟩]

def minusBuild : Build :=
  flatBuild [.op .decrement ⟨"<repl>", 1, 1⟩, .op .right ⟨"<repl>", 1, 2⟩]
    #[⟨.decrement, none⟩, ⟨.right, none⟩]

theorem built_lines :
    Build.ofRecipe (recipe "+") = .ok plusBuild ∧
      Build.ofRecipe (recipe "]") = .error (.brackets (.closing (.source ⟨"<repl>", 1, 1⟩))) ∧
      Build.ofRecipe (recipe "->") = .ok minusBuild := by
  refine ⟨?_, ?_, ?_⟩ <;> decide +kernel

theorem respond_of_halted (s : Session) (fuel : Nat) {b : Build} {m : Machine}
    (asked : request line = .program) (built : Build.ofRecipe (recipe line) = .ok b)
    (ran : (Machine.start []).run b.program settings fuel = (m, .halted)) (room : 0 ≤ s.limit) :
    ∃ out, s.respond fuel line = (s.keep b).tells out := by
  have enough : ¬ (s.keep b).limit < 0 := Int.not_lt.mpr room
  unfold settings at ran
  rw [respond_eq, asked]
  simp only [runLine, built, ran, enough, if_false]
  exact ⟨_, rfl⟩

theorem respond_of_refused (s : Session) (fuel : Nat) {e : BuildError} (asked : request line = .program)
    (failed : Build.ofRecipe (recipe line) = .error e) :
    s.respond fuel line = s.complains "" (e.report.line ++ "\n") := by
  rw [respond_eq, asked]
  simp only [runLine, failed, isLanguage_of_error failed, if_true]

/-- Two programs with a line between them that is none, and room for one program. -/
theorem history_exact_alternating :
    ∃ shown last, (start 1 .empty).exchanges 9 ["+", "]", "->"] = (shown, last, none) ∧
      last.count = 2 ∧ last.kept.map Prod.fst = [2] ∧
      last.kept.pick (some "#02") = .ok (2, minusBuild) ∧
      ∃ e, last.kept.pick (some "1") = .error e ∧ e.report.kind = .key := by
  obtain ⟨built, refused, built'⟩ := built_lines
  have plus : request "+" = .program := by decide +kernel
  have close : request "]" = .program := by decide +kernel
  have minus : request "->" = .program := by decide +kernel
  obtain ⟨out, first⟩ := respond_of_halted (start 1 .empty) 9 plus built rfl (by decide)
  have second := respond_of_refused ((start 1 .empty).keep plusBuild) 9 close refused
  obtain ⟨out', third⟩ := respond_of_halted ((start 1 .empty).keep plusBuild) 9 minus built' rfl (by decide)
  rcases ran : (start 1 .empty).exchanges 9 ["+", "]", "->"] with ⟨shown, last, ending⟩
  have ended := ran
  simp only [exchanges, first, second, third, tells, complains, Prod.mk.injEq] at ended
  obtain ⟨rfl, -, rfl⟩ := ended
  obtain ⟨done, succeeded, count, -, numbers, -, named⟩ :=
    history_exact 1 .empty 9 ["+", "]", "->"] ran (by simp)
  have completes : Completes "+" plusBuild _ := ⟨plus, built, Outcome.noConfusion, 9, rfl⟩
  have fails : ∀ b m, ¬ Completes "]" b m := fun b m found => by cases refused.symm.trans found.built
  have completes' : Completes "->" minusBuild _ := ⟨minus, built', Outcome.noConfusion, 9, rfl⟩
  obtain rfl : done = [plusBuild, minusBuild] :=
    succeeded.unique (.success completes (.failure fails (.success completes' .nil)))
  refine ⟨_, last, rfl, count, numbers, ?_, ?_⟩
  · obtain ⟨b, there, picked⟩ := (named 1 ['0', '2'] (by simp) (by simp) (by simp)).1 (by decide)
    cases there
    exact picked
  · exact (named 0 ['1'] (by simp) (by simp) (by simp)).2 (by decide)

end ByteTape.Session
