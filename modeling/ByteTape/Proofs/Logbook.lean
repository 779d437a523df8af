import ByteTape.Logbook
import ByteTape.Proofs.Fallible
import ByteTape.Proofs.Json.RoundTrip
import ByteTape.Proofs.Text.Lines

/-! # The logbook keeps its entries

Runs that are recorded one after the other are shown again. An entry is one line, whatever the names
and the output of the run hold, so the last lines of the file are the last entries.
-/

namespace ByteTape.Logbook

/-- A run to be recorded: who signs it, when, and what was run with which end. -/
structure Run where
  sign : String → String
  now : Moment
  filename : String
  program : Program
  machine : Machine

namespace Run

def entry (run : Run) : Entry := .ofRun run.sign run.now run.filename run.program run.machine

end Run

/-- Record runs one after the other: the disk behind them, and those that were recorded. -/
def recordAll (d : Disk) (path : String) : List Run → Disk × List Run
  | [] => (d, [])
  | run :: runs =>
    let first := record d path run.entry
    let others := recordAll first.1 path runs
    (others.1, if first.2.isOk then run :: others.2 else others.2)

/-- No count of the entry has more digits than a number may have. -/
structure Entry.Legible (e : Entry) : Prop where
  instructions : (Nat.toDigits 10 e.instructions).length ≤ Text.mostDigits
  steps : (Nat.toDigits 10 e.steps).length ≤ Text.mostDigits
  outputLength : (Nat.toDigits 10 e.outputLength).length ≤ Text.mostDigits

namespace Entry

theorem isShort_toJson (e : Entry) : e.toJson.isShort ↔ e.Legible := by
  simp only [toJson, JsonValue.isShort, JsonValue.fieldsShort, Bool.true_and, Bool.and_true,
    Bool.and_eq_true, decide_eq_true_eq, Int.natAbs_natCast]
  exact ⟨fun ⟨first, second, third⟩ => ⟨first, second, third⟩, fun h => ⟨h.1, h.2, h.3⟩⟩

instance (e : Entry) : Decidable e.Legible := decidable_of_iff _ e.isShort_toJson

theorem Legible.plain {e : Entry} (legible : e.Legible) : e.toJson.Plain := by
  have text (s : String) : (JsonValue.str s).Plain := .str (JsonValue.joined_codePoints s)
  refine .obj (by simp [Text.codePoints_inj]) ?_ ?_
  · simp only [List.forall_mem_cons, JsonValue.joined_codePoints, List.not_mem_nil, false_implies,
      implies_true, and_true]
  · simp only [List.forall_mem_cons, List.not_mem_nil, false_implies, implies_true, and_true]
    exact ⟨text _, text _, text _, text _, .int legible.instructions, .int legible.steps,
      .int legible.outputLength, text _⟩

/-- The text of the entry, and the end of its line. -/
def row (e : Entry) : String := e.toJson.write ++ "\n"

theorem line_eq (e : Entry) : e.line = if e.Legible then .ok e.row else .error JsonValue.tooLong := by
  rw [line, JsonValue.dump]
  by_cases legible : e.Legible
  · rw [if_pos (e.isShort_toJson.mpr legible), if_pos legible]
    rfl
  · rw [if_neg (mt e.isShort_toJson.mp legible), if_neg legible]
    rfl

end Entry

section File

variable {d : Disk} {path : String} {key : List String}

theorem record_lost {e : DiskError} (lost : d.locate path = .error e) (entry : Entry) :
    record d path entry = (d, .error e.report) := by
  rw [record, Disk.append, lost]

theorem recordAll_lost {e : DiskError} (lost : d.locate path = .error e) (runs : List Run) :
    recordAll d path runs = (d, []) := by
  induction runs with
  | nil => rfl
  | cons run runs ih =>
      simp only [recordAll, record_lost lost, ih]
      rfl

theorem record_leads (leads : d.Leads path key) (entry : Entry) :
    ∃ d', d'.Leads path key ∧
      d'.content? key = some ((d.content? key).getD [] ++ if entry.Legible then Text.utf8 entry.row else []) ∧
      record d path entry = (d', if entry.Legible then .ok () else .error JsonValue.tooLong) := by
  obtain ⟨d', written, leads', held⟩ := leads.append (entry.line.toOption.elim [] Text.utf8)
  refine ⟨d', leads', ?_, ?_⟩
  · rw [held, entry.line_eq]
    by_cases legible : entry.Legible <;> simp [legible, Except.toOption]
  · rw [record, written]
    simp only [entry.line_eq]
    by_cases legible : entry.Legible <;> simp [legible, Except.map]

/-- What is recorded stands behind what the file held. -/
theorem recordAll_leads (leads : d.Leads path key) (run : Run) (runs : List Run) : ∃ d',
    recordAll d path (run :: runs) = (d', (run :: runs).filter fun run => run.entry.Legible) ∧
      d'.read path = .ok ((d.content? key).getD [] ++
        ((run :: runs).filter fun run => run.entry.Legible).flatMap fun run => Text.utf8 run.entry.row) := by
  induction runs generalizing d run with
  | nil =>
      obtain ⟨d', leads', held, first⟩ := record_leads leads run.entry
      refine ⟨d', ?_, ?_⟩
      · simp only [recordAll, first, List.filter_cons]
        by_cases legible : run.entry.Legible <;> simp [legible, Except.isOk, Except.toBool]
      · rw [Disk.read, leads'.located]
        simp only [held, List.filter_cons]
        by_cases legible : run.entry.Legible <;> simp [legible]
  | cons second runs ih =>
      obtain ⟨d₁, leads₁, held₁, first⟩ := record_leads leads run.entry
      obtain ⟨d₂, others, held₂⟩ := ih leads₁ second
      refine ⟨d₂, ?_, ?_⟩
      · rw [recordAll, List.filter_cons]
        simp only [first, others]
        by_cases legible : run.entry.Legible <;> simp [legible, Except.isOk, Except.toBool]
      · rw [held₂, held₁, List.filter_cons (x := run)]
        by_cases legible : run.entry.Legible <;> simp [legible]

theorem leads_of_missing (absent : d.read path = .error (.missing path))
    (located : d.locate path = .ok key) : d.Leads path key ∧ d.content? key = none := by
  rw [Disk.read, located] at absent
  dsimp only at absent
  split at absent
  · cases absent
  · next none =>
    split at absent
    · cases absent
    · next free => exact ⟨⟨located, Bool.eq_false_iff.mpr free⟩, none⟩

end File

section Lines

variable {runs : List Run} {limit : Int}

theorem unifyBreaks_of_not_mem {text : List Char} (clean : '\r' ∉ text) : unifyBreaks text = text := by
  fun_induction unifyBreaks text with
  | case1 rest ih => exact absurd List.mem_cons_self clean
  | case2 rest _ ih => exact absurd List.mem_cons_self clean
  | case3 c rest _ _ ih => rw [ih fun later => clean (List.mem_cons_of_mem _ later)]
  | case4 => rfl

theorem lastOf_of_pos {α : Type} (positive : 0 < limit) (list : List α) :
    lastOf limit list = list.drop (list.length - limit.toNat) :=
  if_pos positive

theorem toList_row (e : Entry) : e.row.toList = e.toJson.write.toList ++ ['\n'] :=
  String.toList_append

theorem ofUtf8_lines (runs : List Run) :
    Text.ofUtf8 (runs.flatMap fun run => Text.utf8 run.entry.row) =
      .ok (String.ofList ((runs.map fun run => run.entry.toJson.write.toList).flatMap (· ++ ['\n']))) := by
  rw [← Text.ofUtf8_utf8]
  refine congrArg Text.ofUtf8 ?_
  simp only [Text.utf8, String.toList_ofList, List.flatMap_map, List.flatMap_assoc, toList_row]

/-- The lines are as many as the entries, and each is read as its entry. -/
theorem entries_lines (legible : ∀ run ∈ runs, run.entry.Legible) (positive : 0 < limit) :
    entries limit (runs.flatMap fun run => Text.utf8 run.entry.row) =
      .ok ((runs.drop (runs.length - limit.toNat)).map fun run => run.entry.toJson) := by
  have visible : ∀ line ∈ runs.map (fun run => run.entry.toJson.write.toList), ∀ c ∈ line,
      JsonValue.Visible c := by
    intro line among
    obtain ⟨run, member, rfl⟩ := List.mem_map.mp among
    exact (legible run member).plain.visible
  have single : ∀ line ∈ runs.map (fun run => run.entry.toJson.write.toList), '\n' ∉ line :=
    fun line among feed => absurd (visible line among _ feed) (by decide)
  have clean : '\r' ∉ (runs.map fun run => run.entry.toJson.write.toList).flatMap (· ++ ['\n']) := by
    intro back
    obtain ⟨line, among, inside⟩ := List.mem_flatMap.mp back
    rcases List.mem_append.mp inside with inside | feed
    · exact absurd (visible line among _ inside) (by decide)
    · exact absurd feed (by decide)
  rw [entries, ofUtf8_lines]
  simp only [Except.mapError, bind, Except.bind, String.toList_ofList, unifyBreaks_of_not_mem clean,
    Text.lines_flatMap single, lastOf_of_pos positive, List.length_map, ← List.map_drop, List.mapM_map]
  refine mapM_eq_ok_map fun run among => ?_
  have plain := (legible run (List.mem_of_mem_drop among)).plain
  rw [Function.comp_apply, String.ofList_toList, JsonValue.read_write plain]

end Lines

/-- Every field that is told about an entry is there, and every text of it prints. -/
theorem heading_toJson (e : Entry) :
    ∃ points, heading e.toJson = .ok points ∧ ∀ point ∈ points, point.char?.isSome := by
  have timestamp : field e.toJson "timestamp" = .ok (.str e.timestamp) := by simp [field, Entry.toJson]
  have filename : field e.toJson "filename" = .ok (.str e.filename) := by
    simp [field, Entry.toJson, List.lookup_cons]
  have instructions : field e.toJson "instructions" = .ok (.int e.instructions) := by
    simp [field, Entry.toJson, List.lookup_cons]
  have steps : field e.toJson "steps" = .ok (.int e.steps) := by simp [field, Entry.toJson, List.lookup_cons]
  have digest : field e.toJson "hash" = .ok (.str e.digest) := by simp [field, Entry.toJson, List.lookup_cons]
  have whole (text : String) : ∀ point ∈ Text.codePoints text, point.char?.isSome :=
    fun point => Text.char?_of_mem_codePoints
  rw [heading, timestamp, filename, instructions, steps, digest]
  refine ⟨_, rfl, ?_⟩
  simp only [List.flatten_cons, List.flatten_nil, List.append_nil, List.forall_mem_append, JsonValue.shown]
  exact ⟨whole _, whole _, whole _, whole _, whole _, whole _, whole _, whole _, whole _,
    fun point there => whole _ point (List.mem_of_mem_take there), whole _⟩

theorem account_toJson (e : Entry) : ∃ text, account e.toJson = .ok text := by
  obtain ⟨points, head, whole⟩ := heading_toJson e
  obtain ⟨text, printed⟩ := Text.exists_ofCodePoints whole
  rw [account, head]
  change ∃ _, (Text.ofCodePoints points >>= _) = _
  rw [printed]
  exact ⟨_, rfl⟩

theorem accounts_toJson (runs : List Run) :
    (accounts (runs.map fun run => run.entry.toJson)).2 = .ok () := by
  induction runs with
  | nil => rfl
  | cons run runs ih =>
      obtain ⟨text, told⟩ := account_toJson run.entry
      rw [List.map_cons, accounts, told]
      exact ih

theorem showLast_of_entries {d : Disk} {path : String} {limit : Int} {bytes : List UInt8} {runs : List Run}
    (held : d.read path = .ok bytes)
    (found : entries limit bytes = .ok (runs.map fun run => run.entry.toJson)) :
    (showLast d path limit).2 = .ok (runs.map fun run => run.entry.toJson) := by
  have told := accounts_toJson runs.reverse
  rw [List.map_reverse] at told
  simp only [showLast, held, found, told]

/-- Runs that were recorded where there was no logbook are shown again, the last ones of them in the
order in which they were recorded. They are recorded wherever a file can be made, those aside that
have a count with too many digits. -/
theorem recorded_shown {d : Disk} {path : String} (absent : d.read path = .error (.missing path))
    (runs : List Run) {limit : Int} (positive : 1 ≤ limit) :
    ((recordAll d path runs).2 = runs.filter fun run => (d.locate path).isOk && run.entry.Legible) ∧
      ∃ earlier latest, (recordAll d path runs).2 = earlier ++ latest ∧
        latest.length = min limit.toNat (recordAll d path runs).2.length ∧
        (showLast (recordAll d path runs).1 path limit).2 =
          .ok (latest.map fun run => run.entry.toJson) := by
  have nothing : (showLast d path limit).2 = .ok [] := by simp [showLast, absent]
  cases located : d.locate path with
  | error e =>
      rw [recordAll_lost located]
      exact ⟨by simp [Except.isOk, Except.toBool], [], [], rfl, by simp, nothing⟩
  | ok key =>
      cases runs with
      | nil => exact ⟨rfl, [], [], rfl, by simp [recordAll], nothing⟩
      | cons run more =>
          obtain ⟨leads, none⟩ := leads_of_missing absent located
          obtain ⟨d', recorded, held⟩ := recordAll_leads leads run more
          rw [none, Option.getD_none, List.nil_append] at held
          have legible : ∀ kept ∈ (run :: more).filter fun run => run.entry.Legible, kept.entry.Legible :=
            fun kept among => of_decide_eq_true (List.mem_filter.mp among).2
          rw [recorded]
          refine ⟨rfl, _, _, (List.take_append_drop (_ - limit.toNat) _).symm, ?_,
            showLast_of_entries held (entries_lines legible positive)⟩
          dsimp only
          rw [List.length_drop]
          omega

/-- Two runs under names that would break a line or a text if they were not escaped. -/
def hardlyNamed : List Run :=
  [⟨id, ⟨2024, 2, 29, 23, 59, 59, 1⟩, "a\r\n\"\\.mt", ⟨#[⟨.output, none⟩], none⟩,
      ⟨1, 0, .blank, [], #[0], 1, #[]⟩⟩,
    ⟨id, ⟨2024, 3, 1, 0, 0, 0, 0⟩, "😀\u2028é.mt", ⟨#[], none⟩, .start []⟩]

theorem recorded_shown_hardlyNamed :
    Disk.empty.read "runs.jsonl" = .error (.missing "runs.jsonl") ∧ (1 : Int) ≤ 1 ∧
      (recordAll .empty "runs.jsonl" hardlyNamed).2 = hardlyNamed ∧
      ∃ earlier latest, hardlyNamed = earlier ++ latest ∧ latest.length = 1 ∧
        (showLast (recordAll .empty "runs.jsonl" hardlyNamed).1 "runs.jsonl" 1).2 =
          .ok (latest.map fun run => run.entry.toJson) := by
  have absent : Disk.empty.read "runs.jsonl" = .error (.missing "runs.jsonl") := by decide +kernel
  have located : (Disk.empty.locate "runs.jsonl").isOk := by decide +kernel
  have legible : ∀ run ∈ hardlyNamed, run.entry.Legible := by
    intro run among
    rcases List.mem_pair.mp among with rfl | rfl
    · exact ⟨by decide, by decide, by decide⟩
    · exact ⟨by decide, by decide, by decide⟩
  obtain ⟨recorded, shown⟩ := recorded_shown absent hardlyNamed (show (1 : Int) ≤ 1 by decide)
  have all : (recordAll .empty "runs.jsonl" hardlyNamed).2 = hardlyNamed := by
    rw [recorded, List.filter_eq_self]
    exact fun run among => by simp [located, legible run among]
  rw [all] at shown
  exact ⟨absent, by decide, all, shown⟩

end ByteTape.Logbook
