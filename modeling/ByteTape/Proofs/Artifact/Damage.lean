import Mathlib.Data.Nat.Find
import ByteTape.Proofs.Artifact

/-! # Damaged artifacts

An artifact that is cut short, goes on too long or has a tag that is none is refused, and
the report points at the first byte that shows the damage. For a cut this is its end, for
what follows an artifact the first byte too many, and for tags the first that is wrong:
brackets are looked at only when all tags are right.
-/

namespace ByteTape.Artifact

variable {file : String} {bytes bytes' : List UInt8} {p : Program} {i : Nat} {bad : UInt8}

/-- The bytes are refused as no artifact, and the report points at this offset. -/
def RefusedAt (file : String) (bytes : List UInt8) (offset : Nat) : Prop :=
  ∃ e, decode file bytes = .error e ∧ e.report.kind = .artifact ∧
    e.report.place = some (.artifact file offset)

/-- The bytes with new ones at some of the offsets. -/
def overwrite (new : Nat → Option UInt8) (bytes : List UInt8) : List UInt8 :=
  bytes.mapIdx fun i old => (new i).getD old

theorem RefusedAt.of_error {e : ArtifactError} (failed : decode file bytes = .error e)
    (place : e.report.place = some (.artifact file i)) : RefusedAt file bytes i :=
  ⟨e, failed, kind_of_error failed, place⟩

theorem looksLike_take {rest : List UInt8} (long : 4 ≤ i) : looksLike ((mark ++ rest).take i) := by
  have four : mark.length = 4 := rfl
  rw [looksLike, List.take_take, Nat.min_eq_left long, List.take_left' four]
  exact beq_self_eq_true mark

theorem refusedAt_header (rest : List UInt8) (short : i < headerSize)
    (inside : i ≤ (mark ++ rest).length) : RefusedAt file ((mark ++ rest).take i) i := by
  have size : ((mark ++ rest).take i).length = i := List.length_take_of_le inside
  have marked : ¬ ((mark.length ≤ ((mark ++ rest).take i).length &&
      !looksLike ((mark ++ rest).take i)) = true) := by
    intro unmarked
    simp only [Bool.and_eq_true, decide_eq_true_eq, size] at unmarked
    rw [looksLike_take unmarked.1] at unmarked
    exact Bool.noConfusion unmarked.2
  have failed : decode file ((mark ++ rest).take i) = .error (.shortHeader file i) := by
    rw [decode, if_neg marked, size, if_pos short]
  exact .of_error failed rfl

theorem refusedAt_tags {count tags : List UInt8} (four : count.length = 4)
    (few : tags.length < Bytes.ofLittleEndian count) :
    RefusedAt file (mark ++ (count ++ tags)) (headerSize + tags.length) := by
  apply RefusedAt.of_error (e := .short file (Bytes.ofLittleEndian count) tags.length)
  · rw [decode_header file four, if_pos few]
  · rfl

theorem refusedAt_trailing {count tags : List UInt8} (four : count.length = 4)
    (many : Bytes.ofLittleEndian count < tags.length) :
    RefusedAt file (mark ++ (count ++ tags)) (headerSize + Bytes.ofLittleEndian count) := by
  apply RefusedAt.of_error (e := .trailing file (Bytes.ofLittleEndian count)
    (tags.length - Bytes.ofLittleEndian count))
  · rw [decode_header file four, if_neg (Nat.lt_asymm many), if_pos many]
  · rfl

theorem opsOf_append_bad (unknown : Op.ofTag? bad = none) (front : List Op) (rest : List UInt8)
    (offset : Nat) :
    opsOf file offset (front.map Op.tag ++ bad :: rest) =
      .error (.unknownTag file bad (offset + front.length)) := by
  induction front generalizing offset with
  | nil => simp only [List.map_nil, List.nil_append, opsOf, unknown, List.length_nil, Nat.add_zero]
  | cons op front ih =>
      have next : offset + 1 + front.length = offset + (op :: front).length := by
        rw [List.length_cons]
        omega
      simp only [List.map_cons, List.cons_append, opsOf, Op.ofTag?_tag, ih, next]

/-- The tags in front of the first wrong one are right, and those behind it do not matter. -/
theorem refusedAt_bad {count rest : List UInt8} (four : count.length = 4) (front : List Op)
    (unknown : Op.ofTag? bad = none)
    (size : (front.map Op.tag ++ bad :: rest).length = Bytes.ofLittleEndian count) :
    RefusedAt file (mark ++ (count ++ (front.map Op.tag ++ bad :: rest)))
      (headerSize + front.length) := by
  apply RefusedAt.of_error (e := .unknownTag file bad (headerSize + front.length))
  · rw [decode_header file four, size, if_neg (Nat.lt_irrefl _), if_neg (Nat.lt_irrefl _),
      opsOf_append_bad unknown]
  · rfl

theorem ofTag?_eq_none (large : 8 < bad) : Op.ofTag? bad = none := by
  cases known : Op.ofTag? bad with
  | none => rfl
  | some op =>
      have small : bad ≤ 8 := Op.exists_tag_iff.mp ⟨op, Op.tag_of_ofTag? known⟩
      exact absurd large (UInt8.not_lt.mpr small)

theorem exists_decode_other (accepted : decode file bytes = .ok p) (other : String) :
    ∃ q, decode other bytes = .ok q := by
  obtain ⟨b, count, four, counted, whole, -⟩ := decode_eq_ok_iff.mp accepted
  exact ⟨_, decode_eq_ok_iff.mpr ⟨b, count, four, counted, whole, rfl⟩⟩

theorem length_header {count : List UInt8} (four : count.length = 4) :
    (mark ++ count).length = headerSize := by
  rw [List.length_append, four]
  rfl

theorem take_behind_header {count : List UInt8} (four : count.length = 4) (tags : List UInt8) (k : Nat) :
    (mark ++ (count ++ tags)).take (headerSize + k) = mark ++ (count ++ tags.take k) := by
  rw [← List.append_assoc, ← List.append_assoc, ← length_header four, List.take_length_add_append]

theorem refusedAt_take (accepted : decode file bytes = .ok p) (short : i < bytes.length) :
    RefusedAt file (bytes.take i) i := by
  obtain ⟨b, count, four, counted, rfl, -⟩ := decode_eq_ok_iff.mp accepted
  by_cases header : i < headerSize
  · exact refusedAt_header _ header (Nat.le_of_lt short)
  · obtain ⟨k, rfl⟩ := Nat.exists_eq_add_of_le (Nat.not_lt.mp header)
    rw [← List.append_assoc, List.length_append, length_header four, List.length_map] at short
    have fewer : k < b.ops.length := Nat.lt_of_add_lt_add_left short
    have size : ((b.ops.map Op.tag).take k).length = k := by
      rw [List.length_take, List.length_map]
      exact Nat.min_eq_left (Nat.le_of_lt fewer)
    have few : ((b.ops.map Op.tag).take k).length < Bytes.ofLittleEndian count := by
      rw [size, counted]
      exact fewer
    have refused : RefusedAt file _ _ := refusedAt_tags four few
    rwa [size, ← take_behind_header four] at refused

theorem refusedAt_append (accepted : decode file bytes = .ok p) {extra : List UInt8}
    (nonempty : extra ≠ []) : RefusedAt file (bytes ++ extra) bytes.length := by
  obtain ⟨b, count, four, counted, rfl, -⟩ := decode_eq_ok_iff.mp accepted
  have size : (b.ops.map Op.tag).length = Bytes.ofLittleEndian count := by
    rw [List.length_map, counted]
    rfl
  have many : Bytes.ofLittleEndian count < (b.ops.map Op.tag ++ extra).length := by
    rw [List.length_append, size]
    exact Nat.lt_add_of_pos_right (List.length_pos_iff.mpr nonempty)
  have whole : (mark ++ (count ++ b.ops.map Op.tag)).length =
      headerSize + Bytes.ofLittleEndian count := by
    rw [← List.append_assoc, List.length_append, length_header four, size]
  rw [whole, List.append_assoc, List.append_assoc]
  exact refusedAt_trailing four many

/-- The first byte that differs is a tag that is none. What follows it may be anything. -/
theorem refusedAt_differing (accepted : decode file bytes = .ok p) (size : bytes'.length = bytes.length)
    (behind : headerSize ≤ i) (same : bytes'.take i = bytes.take i) (here : bytes'[i]? = some bad)
    (large : 8 < bad) : RefusedAt file bytes' i := by
  obtain ⟨b, count, four, counted, rfl, -⟩ := decode_eq_ok_iff.mp accepted
  obtain ⟨k, rfl⟩ := Nat.exists_eq_add_of_le behind
  obtain ⟨inside, rfl⟩ := List.getElem?_eq_some_iff.mp here
  have split : bytes' = mark ++ (count ++ ((b.ops.take k).map Op.tag ++
      bytes'[headerSize + k] :: bytes'.drop (headerSize + k + 1))) := by
    conv_lhs => rw [← List.take_append_drop (headerSize + k) bytes', same, take_behind_header four,
      List.drop_eq_getElem_cons inside]
    simp only [List.append_assoc, List.map_take]
  rw [← List.append_assoc, List.length_append, length_header four, List.length_map] at size
  have front : (b.ops.take k).length = k := by
    rw [List.length_take]
    omega
  have tags : ((b.ops.take k).map Op.tag ++
      bytes'[headerSize + k] :: bytes'.drop (headerSize + k + 1)).length =
        Bytes.ofLittleEndian count := by
    rw [counted, Block.length, List.length_append, List.length_map, front, List.length_cons,
      List.length_drop]
    omega
  have refused : RefusedAt file _ _ := refusedAt_bad four (b.ops.take k) (ofTag?_eq_none large) tags
  rwa [front, ← split] at refused

section
variable {new : Nat → Option UInt8}

theorem overwrite_take (untouched : ∀ j < i, new j = none) :
    (overwrite new bytes).take i = bytes.take i := by
  apply List.ext_getElem?
  intro j
  by_cases before : j < i
  · simp [overwrite, before, untouched j before]
  · simp [before]

theorem overwrite_here (touched : new i = some bad) (inside : i < bytes.length) :
    (overwrite new bytes)[i]? = some bad := by
  simp [overwrite, touched, inside]

end

/-- Damage to an artifact is refused and located. A front part is refused at its end, and
what goes on behind the artifact at the end of the artifact. If tags are overwritten by bytes
that are none, the first of them is pointed at, whatever this does to the brackets. So no
artifact is the front part of another, whatever the two are called. -/
theorem damage_located (accepted : decode file bytes = .ok p) :
    (∀ k < bytes.length, RefusedAt file (bytes.take k) k) ∧
      (∀ extra, extra ≠ [] → RefusedAt file (bytes ++ extra) bytes.length) ∧
      (∀ new : Nat → Option UInt8, (∃ i, (new i).isSome) →
        (∀ i bad, new i = some bad → headerSize ≤ i ∧ i < bytes.length ∧ 8 < bad) →
          ∃ first, (new first).isSome ∧ (∀ i < first, new i = none) ∧
            RefusedAt file (overwrite new bytes) first) ∧
      ∀ other bytes' q, decode other bytes' = .ok q → bytes <+: bytes' → bytes = bytes' := by
  refine ⟨fun k => refusedAt_take accepted, fun extra => refusedAt_append accepted, ?_, ?_⟩
  · intro new any allowed
    have touched := Nat.find_spec any
    have untouched : ∀ i < Nat.find any, new i = none := by
      intro i before
      exact Option.not_isSome_iff_eq_none.mp (Nat.find_min any before)
    obtain ⟨bad, known⟩ := Option.isSome_iff_exists.mp touched
    obtain ⟨behind, inside, large⟩ := allowed _ bad known
    have size : (overwrite new bytes).length = bytes.length := List.length_mapIdx
    exact ⟨Nat.find any, touched, untouched, refusedAt_differing accepted size behind
      (overwrite_take untouched) (overwrite_here known inside) large⟩
  · intro other bytes' q accepted' front
    obtain ⟨extra, rfl⟩ := front
    by_cases nothing : extra = []
    · rw [nothing, List.append_nil]
    · obtain ⟨q', same⟩ := exists_decode_other accepted' file
      obtain ⟨e, refused, -⟩ := refusedAt_append accepted nothing
      cases refused.symm.trans same

/-- An empty loop. -/
def emptyLoop : List UInt8 := [0xbf, 0xff, 0xbb, 0xff, 2, 0, 0, 0, 4, 5]

theorem damage_located_emptyLoop :
    (∃ p, decode "a" emptyLoop = .ok p) ∧
      RefusedAt "a" [0xbf, 0xff] 2 ∧ RefusedAt "a" [0xbf, 0xff, 0xbb, 0xff, 2, 0, 0, 0, 4] 9 ∧
      RefusedAt "a" [0xbf, 0xff, 0xbb, 0xff, 2, 0, 0, 0, 4, 5, 0] 10 ∧
      RefusedAt "a" [0xbf, 0xff, 0xbb, 0xff, 2, 0, 0, 0, 4, 9] 9 := by
  have accepted : decode "a" emptyLoop =
      .ok ⟨#[⟨.loopOpen, some 1⟩, ⟨.loopClose, some 0⟩], some (origins "a" 2)⟩ := rfl
  obtain ⟨cut, longer, overwritten, -⟩ := damage_located accepted
  refine ⟨⟨_, accepted⟩, cut 2 (by decide), cut 9 (by decide), longer [0] (by decide), ?_⟩
  obtain ⟨first, touched, -, refused⟩ := overwritten (fun i => if i = 9 then some 9 else none)
    ⟨9, rfl⟩ (by
      intro i bad known
      split at known
      · cases known
        subst i
        decide
      · cases known)
  have here : first = 9 := by
    by_contra other
    simp [other] at touched
  subst here
  exact refused

end ByteTape.Artifact
