import Mathlib.Data.List.Basic
import ByteTape.Disk

/-! # Paths and files

A path is an anchor and the names that follow it, and its normal form can be read again. A
file holds what was last written to it: putting a file somewhere takes no directory away, so
the path that led to it before leads to it afterwards.
-/

namespace ByteTape

theorem Text.pieces_eq_splitOnP (isSeparator : Char → Bool) (text : List Char) :
    Text.pieces isSeparator text = text.splitOnP isSeparator := by
  induction text with
  | nil => rfl
  | cons c text ih =>
      rw [pieces, ih, List.splitOnP_cons_eq_if_modifyHead]
      cases known : text.splitOnP isSeparator with
      | nil => exact absurd known (List.splitOnP_ne_nil _ _)
      | cons => rfl

theorem Text.of_mem_pieces {isSeparator : Char → Bool} {text piece : List Char}
    (among : piece ∈ pieces isSeparator text) {c : Char} (inside : c ∈ piece) :
    c ∈ text ∧ ¬ isSeparator c := by
  induction text generalizing piece with
  | nil =>
      rw [pieces, List.mem_singleton] at among
      rw [among] at inside
      cases inside
  | cons d text ih =>
      have later {piece : List Char} (among : piece ∈ pieces isSeparator text) (inside : c ∈ piece) :
          c ∈ d :: text ∧ ¬ isSeparator c :=
        (ih among inside).imp_left (List.mem_cons_of_mem d)
      by_cases sep : isSeparator d
      · rw [pieces, if_pos sep, List.mem_cons] at among
        rcases among with rfl | among
        · cases inside
        · exact later among inside
      · rw [pieces, if_neg sep] at among
        cases known : pieces isSeparator text with
        | nil =>
            simp only [known, List.mem_singleton] at among
            rw [among, List.mem_singleton] at inside
            subst inside
            exact ⟨List.mem_cons_self, sep⟩
        | cons first rest =>
            simp only [known, List.mem_cons] at among
            rcases among with rfl | among
            · rcases List.mem_cons.mp inside with rfl | inside
              · exact ⟨List.mem_cons_self, sep⟩
              · exact later (known ▸ List.mem_cons_self) inside
            · exact later (known ▸ List.mem_cons_of_mem _ among) inside

namespace Disk

/-- The names of a path that lead somewhere. -/
def steps (path : String) : List String := (names path).filter fun name => name != "" && name != "."

/-- What a path begins with before its first name. -/
def anchor (path : String) : String :=
  let slashes := (path.toList.takeWhile (· == '/')).length
  if slashes = 0 then "" else if slashes = 2 then "//" else "/"

theorem normalise_eq (path : String) :
    normalise path =
      if anchor path ++ "/".intercalate (steps path) = "" then "."
      else anchor path ++ "/".intercalate (steps path) := rfl

/-- A name that can be a step: it is not cut by a slash, and it leads somewhere. -/
structure Step (name : String) : Prop where
  filled : name ≠ ""
  other : name ≠ "."
  whole : '/' ∉ name.toList

theorem step_of_mem_steps {path name : String} (among : name ∈ steps path) : Step name := by
  obtain ⟨piece, kept⟩ := List.mem_filter.mp among
  obtain ⟨text, cut, rfl⟩ := List.mem_map.mp piece
  simp only [Bool.and_eq_true, bne_iff_ne] at kept
  refine ⟨kept.1, kept.2, ?_⟩
  rw [String.toList_ofList]
  intro slash
  exact (Text.of_mem_pieces cut slash).2 rfl

theorem names_eq (path : String) : names path = (path.toList.splitOn '/').map String.ofList := by
  rw [names, Text.pieces_eq_splitOnP, List.splitOn_eq_splitOnP]

theorem steps_slash (path : String) : steps ("/" ++ path) = steps path := by
  simp [steps, names_eq, List.splitOn_cons_eq_if_modifyHead]

/-- Names that are not cut by a slash can be told apart when they stand in one path. -/
theorem names_intercalate {list : List String} (whole : ∀ name ∈ list, '/' ∉ name.toList)
    (filled : list ≠ []) : names ("/".intercalate list) = list := by
  have cut : (['/'].intercalate (list.map String.toList)).splitOn '/' = list.map String.toList := by
    apply List.splitOn_intercalate
    · intro text among
      obtain ⟨name, member, rfl⟩ := List.mem_map.mp among
      exact whole name member
    · simpa using filled
  rw [names_eq, String.toList_intercalate]
  simp [cut]

theorem steps_intercalate {list : List String} (clean : ∀ name ∈ list, Step name) :
    steps ("/".intercalate list) = list := by
  cases list with
  | nil => rfl
  | cons first rest =>
      rw [steps, names_intercalate (fun name among => (clean name among).whole) (List.cons_ne_nil _ _),
        List.filter_eq_self]
      intro name among
      simp [(clean name among).filled, (clean name among).other]

theorem takeWhile_intercalate {list : List String} (clean : ∀ name ∈ list, Step name) :
    (['/'].intercalate (list.map String.toList)).takeWhile (· == '/') = [] := by
  cases list with
  | nil => rfl
  | cons first rest =>
      have step := clean first List.mem_cons_self
      cases letters : first.toList with
      | nil => exact absurd (String.toList_eq_nil_iff.mp letters) step.filled
      | cons c text =>
          have visible : c ≠ '/' := by
            rintro rfl
            exact step.whole (letters ▸ List.mem_cons_self)
          cases rest with
          | nil => simp [letters, visible]
          | cons second rest => simp [letters, visible]

theorem anchor_cases (path : String) : anchor path = "" ∨ anchor path = "/" ∨ anchor path = "//" := by
  unfold anchor
  dsimp only
  split
  · exact .inl rfl
  · split
    · exact .inr (.inr rfl)
    · exact .inr (.inl rfl)

theorem anchored (path : String) {list : List String} (clean : ∀ name ∈ list, Step name) :
    anchor (anchor path ++ "/".intercalate list) = anchor path ∧
      steps (anchor path ++ "/".intercalate list) = list := by
  have bare := takeWhile_intercalate clean
  have inner := steps_intercalate clean
  rcases anchor_cases path with none | one | two
  · rw [none, String.empty_append]
    exact ⟨by simp [anchor, bare], inner⟩
  · rw [one, steps_slash]
    exact ⟨by simp [anchor, bare], inner⟩
  · rw [two, show "//" = "/" ++ "/" from rfl, String.append_assoc, steps_slash, steps_slash]
    exact ⟨by simp [anchor, bare], inner⟩

theorem normalise_normalise (path : String) : normalise (normalise path) = normalise path := by
  have clean : ∀ name ∈ steps path, Step name := fun _ => step_of_mem_steps
  have whole := anchored path clean
  by_cases nothing : anchor path ++ "/".intercalate (steps path) = ""
  · rw [normalise_eq path, if_pos nothing]
    decide
  · rw [normalise_eq path, if_neg nothing, normalise_eq, whole.1, whole.2, if_neg nothing]

theorem mem_intercalate {list : List String} {c : Char} (inside : c ∈ ("/".intercalate list).toList) :
    c = '/' ∨ ∃ name ∈ list, c ∈ name.toList := by
  induction list with
  | nil => cases inside
  | cons name list ih =>
      by_cases last : list = []
      · rw [last, String.intercalate_singleton] at inside
        exact .inr ⟨name, List.mem_cons_self, inside⟩
      · rw [String.intercalate_cons_of_ne_nil last, String.toList_append, String.toList_append,
          List.mem_append, List.mem_append] at inside
        obtain (inside | slash) | inside := inside
        · exact .inr ⟨name, List.mem_cons_self, inside⟩
        · exact .inl (List.mem_singleton.mp slash)
        · obtain slash | ⟨other, among, inside⟩ := ih inside
          · exact .inl slash
          · exact .inr ⟨other, List.mem_cons_of_mem _ among, inside⟩

/-- The normal form holds nothing that is not in the path, slashes and dots apart. -/
theorem mem_normalise {path : String} {c : Char} (inside : c ∈ (normalise path).toList) :
    c ∈ path.toList ∨ c = '/' ∨ c = '.' := by
  rw [normalise_eq] at inside
  split at inside
  · exact .inr (.inr (List.mem_singleton.mp inside))
  · rw [String.toList_append, List.mem_append] at inside
    obtain inside | inside := inside
    · rcases anchor_cases path with none | one | two
      · rw [none] at inside
        cases inside
      · rw [one] at inside
        exact .inr (.inl (List.mem_singleton.mp inside))
      · rw [two] at inside
        exact .inr (.inl (by simpa using inside))
    · obtain slash | ⟨name, among, inside⟩ := mem_intercalate inside
      · exact .inr (.inl slash)
      · obtain ⟨piece, cut, rfl⟩ := List.mem_map.mp (List.mem_filter.mp among).1
        rw [String.toList_ofList] at inside
        exact .inl (Text.of_mem_pieces cut inside).1

theorem bare_of_empty {path : String} (nothing : anchor path ++ "/".intercalate (steps path) = "") :
    anchor path = "" ∧ steps path = [] := by
  have clean : ∀ name ∈ steps path, Step name := fun _ => step_of_mem_steps
  have whole := anchored path clean
  rw [nothing] at whole
  exact ⟨whole.1.symm, whole.2.symm⟩

theorem anchor_normalise (path : String) : anchor (normalise path) = anchor path := by
  rw [normalise_eq]
  split
  · next nothing => exact (bare_of_empty nothing).1.symm
  · exact (anchored path fun _ => step_of_mem_steps).1

theorem startsWith_iff (path : String) : path.startsWith "/" ↔ anchor path ≠ "" := by
  rw [String.startsWith_string_iff, anchor, show "/".toList = ['/'] from rfl]
  cases path.toList with
  | nil => decide
  | cons c text =>
      by_cases slash : c = '/'
      · simp only [slash, List.cons_prefix_cons, List.nil_prefix, List.takeWhile_cons, beq_self_eq_true,
          if_true, List.length_cons, Nat.succ_ne_zero, if_false, true_and, true_iff]
        split <;> decide
      · simp [slash, Ne.symm slash]

/-- Names that change nothing can be left out of a walk that arrives. -/
theorem walk_filter {d : Disk} {path : String} {names here found : List String}
    (walked : d.walk path here names = .ok found) (other : String) :
    d.walk other here (names.filter fun name => name != "" && name != ".") = .ok found := by
  induction names generalizing here with
  | nil => exact walked
  | cons name rest ih =>
      rw [walk] at walked
      split at walked
      · next still =>
        rw [List.filter_cons_of_neg (by simpa [or_iff_not_imp_left] using still)]
        exact ih walked
      · next moves =>
        rw [List.filter_cons_of_pos (by simpa using moves), walk, if_neg moves]
        split at walked
        · next up =>
          rw [if_pos up]
          exact ih walked
        · next down =>
          rw [if_neg down]
          dsimp only at walked ⊢
          split at walked
          · next last =>
            rw [List.isEmpty_iff.mp last]
            exact walked
          · split at walked
            · next inside =>
              have further := ih walked
              split
              · next last => rwa [List.isEmpty_iff.mp last] at further
              · exact further
            · split at walked <;> cases walked

theorem walk_slash (d : Disk) (path tail : String) (here : List String) :
    d.walk path here (names ("/" ++ tail)) = d.walk path here (names tail) := by
  have first : names ("/" ++ tail) = "" :: names tail := by
    simp [names_eq, List.splitOn_cons_eq_if_modifyHead]
  rw [first, walk, if_pos (by simp)]

theorem walk_normalise {d : Disk} {path : String} {here found : List String}
    (walked : d.walk path here (names path) = .ok found) :
    d.walk (normalise path) here (names (normalise path)) = .ok found := by
  have kept : d.walk (normalise path) here (steps path) = .ok found := walk_filter walked _
  have tail : d.walk (normalise path) here (names ("/".intercalate (steps path))) = .ok found := by
    cases given : steps path with
    | nil => rwa [given] at kept
    | cons name rest =>
        rw [← given, names_intercalate (fun name among => (step_of_mem_steps among).whole) (by simp [given])]
        exact kept
  rw [normalise_eq path] at tail ⊢
  split
  · next nothing =>
    rw [(bare_of_empty nothing).2] at kept
    exact kept
  · next something =>
    rw [if_neg something] at tail
    rcases anchor_cases path with none | one | two
    · rw [none, String.empty_append] at tail ⊢
      exact tail
    · rw [one] at tail ⊢
      rw [walk_slash]
      exact tail
    · rw [two] at tail ⊢
      rw [show "//" = "/" ++ "/" from rfl, String.append_assoc, walk_slash, walk_slash]
      exact tail

theorem locate_normalise {d : Disk} {path : String} {key : List String}
    (found : d.locate path = .ok key) : d.locate (normalise path) = .ok key := by
  unfold locate at found
  split at found
  · cases found
  · next plain =>
    split at found
    · cases found
    · have clean : ¬ (normalise path).toList.contains '\x00' := by
        rw [List.contains_iff_mem] at plain ⊢
        intro nul
        obtain inside | slash | dot := mem_normalise nul
        · exact plain inside
        · cases slash
        · cases dot
      have filled : normalise path ≠ "" := by
        rw [normalise_eq]
        split
        · decide
        · next something => exact something
      rw [locate, if_neg clean, if_neg filled]
      simp only [startsWith_iff, anchor_normalise] at found ⊢
      exact walk_normalise found

/-- A file is found by the normal form of each path that leads to it. -/
theorem read_normalise {d : Disk} {path : String} {bytes : List UInt8} (held : d.read path = .ok bytes) :
    d.read (normalise path) = .ok bytes := by
  unfold read at held ⊢
  cases found : d.locate path with
  | error e => simp only [found, reduceCtorEq] at held
  | ok key =>
      simp only [found, locate_normalise found] at held ⊢
      cases content : d.content? key with
      | some bytes => simpa only [content] using held
      | none =>
          simp only [content] at held
          split at held <;> cases held

theorem mem_put {d : Disk} {file : List String × List UInt8} (among : file ∈ d.files)
    (key : List String) (bytes : List UInt8) :
    ∃ file' ∈ (d.put key bytes).files, file'.1 = file.1 := by
  unfold put
  split
  · refine ⟨_, List.mem_map.mpr ⟨file, among, rfl⟩, ?_⟩
    split
    · next same => exact (eq_of_beq same).symm
    · rfl
  · exact ⟨file, List.mem_append_left _ among, rfl⟩

theorem isDirectory_put {d : Disk} {here : List String} (there : d.isDirectory here)
    (key : List String) (bytes : List UInt8) : (d.put key bytes).isDirectory here := by
  unfold isDirectory at there ⊢
  rw [Bool.or_eq_true] at there ⊢
  refine there.imp_right fun holds => ?_
  obtain ⟨file, among, inside⟩ := List.any_eq_true.mp holds
  obtain ⟨file', among', same⟩ := mem_put among key bytes
  exact List.any_eq_true.mpr ⟨file', among', by rwa [same]⟩

theorem lookup_replaced {files : List (List String × List UInt8)} {key : List String}
    (known : (files.lookup key).isSome) (bytes : List UInt8) :
    (files.map fun file => if file.1 == key then (key, bytes) else file).lookup key = some bytes := by
  induction files with
  | nil => cases known
  | cons file files ih =>
      obtain ⟨name, content⟩ := file
      rw [List.lookup_cons] at known
      by_cases same : name = key
      · simp [same]
      · have other : (key == name) = false := beq_false_of_ne (Ne.symm same)
        simp only [other] at known
        simpa [same, List.lookup_cons, other] using ih known

theorem content?_put (d : Disk) (key : List String) (bytes : List UInt8) :
    (d.put key bytes).content? key = some bytes := by
  unfold put
  split
  · next known => exact lookup_replaced known bytes
  · next unknown =>
    have none : d.files.lookup key = none := by
      rwa [content?, Bool.not_eq_true, Option.isSome_eq_false_iff, Option.isNone_iff_eq_none] at unknown
    simp [content?, List.lookup_append, none]

theorem walk_put {d : Disk} {path : String} {names here found : List String}
    (walked : d.walk path here names = .ok found) (key : List String) (bytes : List UInt8) :
    (d.put key bytes).walk path here names = .ok found := by
  induction names generalizing here with
  | nil => exact walked
  | cons name rest ih =>
      unfold walk at walked ⊢
      split
      · next still =>
        rw [if_pos still] at walked
        exact ih walked
      · next moves =>
        rw [if_neg moves] at walked
        split
        · next up =>
          rw [if_pos up] at walked
          exact ih walked
        · next down =>
          rw [if_neg down] at walked
          dsimp only at walked ⊢
          split
          · next last =>
            rwa [if_pos last] at walked
          · next more =>
            rw [if_neg more] at walked
            split at walked
            · next inside =>
              rw [if_pos (isDirectory_put inside key bytes)]
              exact ih walked
            · split at walked <;> cases walked

theorem locate_put {d : Disk} {path : String} {found : List String} (located : d.locate path = .ok found)
    (key : List String) (bytes : List UInt8) : (d.put key bytes).locate path = .ok found := by
  unfold locate at located ⊢
  split at located
  · cases located
  · next plain =>
    rw [if_neg plain]
    split at located
    · cases located
    · next filled =>
      rw [if_neg filled]
      exact walk_put located key bytes

/-- What is written to a file is read from it. -/
theorem read_of_write {d d' : Disk} {path : String} {bytes : List UInt8}
    (written : d.write path bytes = .ok d') : d'.read path = .ok bytes := by
  unfold write at written
  cases found : d.locate path with
  | error e => simp only [found, reduceCtorEq] at written
  | ok key =>
      simp only [found] at written
      split at written
      · cases written
      · cases written
        simp only [read, locate_put found, content?_put]

theorem isDirectory_put_self (d : Disk) (key : List String) (bytes : List UInt8) :
    (d.put key bytes).isDirectory key = d.isDirectory key := by
  have kept : (d.put key bytes).files.any (fun file => key.isPrefixOf file.1 && key != file.1) =
      d.files.any fun file => key.isPrefixOf file.1 && key != file.1 := by
    unfold put
    split
    · rw [List.any_map]
      refine congrArg d.files.any (funext fun file => ?_)
      by_cases same : file.1 = key
      · simp [same]
      · simp [same]
    · simp
  rw [isDirectory, kept, ← isDirectory]

/-- The path leads to a place where a file is, or can be. -/
structure Leads (d : Disk) (path : String) (key : List String) : Prop where
  located : d.locate path = .ok key
  free : d.isDirectory key = false

theorem Leads.put {d : Disk} {path : String} {key : List String} (leads : d.Leads path key)
    (bytes : List UInt8) : (d.put key bytes).Leads path key :=
  ⟨locate_put leads.located key bytes, (isDirectory_put_self d key bytes).trans leads.free⟩

theorem Leads.append {d : Disk} {path : String} {key : List String} (leads : d.Leads path key)
    (bytes : List UInt8) : ∃ d' : Disk, d.append path bytes = .ok d' ∧ d'.Leads path key ∧
      d'.content? key = some ((d.content? key).getD [] ++ bytes) := by
  refine ⟨_, ?_, leads.put _, content?_put d key _⟩
  simp [Disk.append, leads.located, leads.free]

end Disk

end ByteTape
