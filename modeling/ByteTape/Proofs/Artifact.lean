import Mathlib.Data.Set.List
import Mathlib.Tactic.IntervalCases
import ByteTape.Artifact
import ByteTape.Proofs.Block

/-! # Artifacts and programs

Which bytes are an artifact is said here without reading them: the mark, a count,
and as many tags with balanced brackets. Exactly these bytes are accepted, each of
them is what its program is written as, and a program that is written and read
again comes back with its jump targets.
-/

namespace ByteTape

namespace Op

theorem tag_of_ofTag? {tag : UInt8} {op : Op} (h : ofTag? tag = some op) : op.tag = tag := by
  simpa only [beq_iff_eq] using List.find?_some h

theorem tag_injective : Function.Injective tag := by
  intro a b same
  have found := ofTag?_tag a
  rw [same, ofTag?_tag] at found
  exact (Option.some.inj found).symm

theorem exists_tag_iff {byte : UInt8} : (∃ op : Op, op.tag = byte) ↔ byte ≤ 8 := by
  constructor
  · rintro ⟨op, rfl⟩
    cases op <;> decide
  · intro small
    have every : ∀ n < 9, ∃ op : Op, op.tag = UInt8.ofNat n := by
      intro n bound
      interval_cases n
      exacts [⟨right, rfl⟩, ⟨left, rfl⟩, ⟨increment, rfl⟩, ⟨decrement, rfl⟩, ⟨loopOpen, rfl⟩,
        ⟨loopClose, rfl⟩, ⟨output, rfl⟩, ⟨input, rfl⟩, ⟨debug, rfl⟩]
    have bound : byte.toNat < 9 := Nat.lt_succ_of_le (UInt8.le_iff_toNat_le.mp small)
    obtain ⟨op, same⟩ := every byte.toNat bound
    exact ⟨op, same.trans (UInt8.ofNat_toNat)⟩

theorem exists_map_tag_iff {bytes : List UInt8} :
    (∃ ops : List Op, ops.map tag = bytes) ↔ ∀ byte ∈ bytes, byte ≤ 8 := by
  simp only [← exists_tag_iff]
  exact Set.ext_iff.mp (Set.range_list_map tag) bytes

end Op

namespace Bytes

theorem ofLittleEndian_littleEndian (width n : Nat) :
    ofLittleEndian (littleEndian width n) = n % 256 ^ width := by
  induction width generalizing n with
  | zero => simp [littleEndian, ofLittleEndian, Nat.mod_one]
  | succ width ih =>
      have ih : List.foldr (fun b n => UInt8.toNat b + 256 * n) 0 (littleEndian width (n / 256)) =
          n / 256 % 256 ^ width := ih (n / 256)
      simp only [littleEndian, ofLittleEndian, List.foldr_cons, ih, UInt8.toNat_ofNat']
      have whole : 256 ^ (width + 1) = 256 * 256 ^ width := Nat.pow_succ'
      rw [whole, Nat.mod_mul]

theorem littleEndian_ofLittleEndian (bytes : List UInt8) :
    littleEndian bytes.length (ofLittleEndian bytes) = bytes := by
  induction bytes with
  | nil => rfl
  | cons b bytes ih =>
      have split : ofLittleEndian (b :: bytes) = b.toNat + 256 * ofLittleEndian bytes := rfl
      have bound := b.toNat_lt
      have low : UInt8.ofNat (b.toNat + 256 * ofLittleEndian bytes) = b := by
        apply UInt8.toNat_inj.mp
        rw [UInt8.toNat_ofNat']
        omega
      have high : (b.toNat + 256 * ofLittleEndian bytes) / 256 = ofLittleEndian bytes := by omega
      rw [List.length_cons, split, littleEndian, low, high, ih]

end Bytes

namespace Artifact

/-- The mark, a count of four bytes with the low byte first, and so many tags, whose
brackets are balanced. -/
def WellFormed (bytes : List UInt8) : Prop :=
  ∃ b₀ b₁ b₂ b₃ tags, bytes = [0xbf, 0xff, 0xbb, 0xff, b₀, b₁, b₂, b₃] ++ tags ∧
    tags.length = b₀.toNat + 2 ^ 8 * b₁.toNat + 2 ^ 16 * b₂.toNat + 2 ^ 24 * b₃.toNat ∧
      (∀ tag ∈ tags, tag ≤ 8) ∧ Balanced 4 5 tags

theorem opsOf_eq_ok_iff {file : String} {offset : Nat} {tags : List UInt8} {ops : List Op} :
    opsOf file offset tags = .ok ops ↔ ops.map Op.tag = tags := by
  induction tags generalizing offset ops with
  | nil => simp only [opsOf, Except.ok.injEq, List.map_eq_nil_iff, eq_comm]
  | cons tag tags ih =>
      constructor
      · intro h
        unfold opsOf at h
        cases here : Op.ofTag? tag with
        | none => simp only [here, reduceCtorEq] at h
        | some op =>
            cases rest : opsOf file (offset + 1) tags with
            | error e => simp only [here, rest, reduceCtorEq] at h
            | ok further =>
                simp only [here, rest, Except.ok.injEq] at h
                rw [← h, List.map_cons, Op.tag_of_ofTag? here, ih.mp rest]
      · intro h
        obtain ⟨op, further, rfl, rfl, rest⟩ := List.map_eq_cons_iff.mp h
        simp only [opsOf, Op.ofTag?_tag, ih.mpr rest]

theorem opsOf_error {file : String} {offset : Nat} {tags : List UInt8} {e : ArtifactError}
    (h : opsOf file offset tags = .error e) : ∃ tag offset, e = .unknownTag file tag offset := by
  induction tags generalizing offset with
  | nil => cases h
  | cons tag tags ih =>
      unfold opsOf at h
      cases here : Op.ofTag? tag with
      | none =>
          simp only [here, Except.error.injEq] at h
          exact ⟨tag, offset, h.symm⟩
      | some op =>
          cases rest : opsOf file (offset + 1) tags with
          | error e' =>
              simp only [here, rest, Except.error.injEq] at h
              exact ih (h ▸ rest)
          | ok further => simp only [here, rest, reduceCtorEq] at h

theorem header_or_error (file : String) (bytes : List UInt8) :
    (∃ count tags, count.length = 4 ∧ bytes = mark ++ (count ++ tags)) ∨
      decode file bytes = .error (.mark file) ∨
        decode file bytes = .error (.shortHeader file bytes.length) := by
  by_cases unmarked : (mark.length ≤ bytes.length && !looksLike bytes) = true
  · exact .inr (.inl (by rw [decode, if_pos unmarked]))
  · by_cases short : bytes.length < headerSize
    · exact .inr (.inr (by rw [decode, if_neg unmarked, if_pos short]))
    · refine .inl ⟨(bytes.drop 4).take 4, bytes.drop headerSize, ?_, ?_⟩
      · rw [List.length_take, List.length_drop]
        simp only [headerSize] at short
        omega
      · have long : mark.length ≤ bytes.length := by
          simp only [headerSize] at short
          simp only [mark, List.length_cons, List.length_nil]
          omega
        have marked : bytes.take 4 = mark := by
          simpa [looksLike, long] using unmarked
        calc
          bytes = bytes.take 4 ++ bytes.drop 4 := (List.take_append_drop 4 bytes).symm
          _ = mark ++ ((bytes.drop 4).take 4 ++ (bytes.drop 4).drop 4) := by
            rw [marked, List.take_append_drop]
          _ = mark ++ ((bytes.drop 4).take 4 ++ bytes.drop headerSize) := by
            rw [List.drop_drop]; rfl

theorem decode_header (file : String) {count tags : List UInt8} (four : count.length = 4) :
    decode file (mark ++ (count ++ tags)) =
      if tags.length < Bytes.ofLittleEndian count then
        .error (.short file (Bytes.ofLittleEndian count) tags.length)
      else if Bytes.ofLittleEndian count < tags.length then
        .error (.trailing file (Bytes.ofLittleEndian count)
          (tags.length - Bytes.ofLittleEndian count))
      else
        match opsOf file headerSize tags with
        | .error e => .error e
        | .ok ops =>
          match Program.ofOps ops (some (origins file ops.length)) with
          | .error e => .error (.brackets e)
          | .ok program => .ok program := by
  have marked : ¬ ((mark.length ≤ (mark ++ (count ++ tags)).length &&
      !looksLike (mark ++ (count ++ tags))) = true) := by
    simp [looksLike, mark]
  have long : ¬ (mark ++ (count ++ tags)).length < headerSize := by
    simp only [List.length_append, four, mark, headerSize, List.length_cons, List.length_nil]
    omega
  have counted : ((mark ++ (count ++ tags)).drop 4).take 4 = count := by
    rw [List.drop_left' (show mark.length = 4 from rfl), List.take_left' four]
  have tagged : (mark ++ (count ++ tags)).drop headerSize = tags := by
    rw [← List.append_assoc, List.drop_left']
    rw [List.length_append, four]
    rfl
  rw [decode, if_neg marked, if_neg long]
  dsimp only
  rewrite [counted, tagged]
  rfl

/-- The bytes that hold a program: the mark, four bytes that count its operations,
and their tags. -/
theorem decode_eq_ok_iff {file : String} {bytes : List UInt8} {p : Program} :
    decode file bytes = .ok p ↔ ∃ (b : Block) (count : List UInt8), count.length = 4 ∧
      Bytes.ofLittleEndian count = b.length ∧ bytes = mark ++ (count ++ b.ops.map Op.tag) ∧
        p = ⟨(b.instrs 0).toArray, some (origins file b.length)⟩ := by
  constructor
  · intro h
    obtain ⟨count, tags, four, rfl⟩ | refused | refused := header_or_error file bytes
    · rw [decode_header file four] at h
      split at h
      · cases h
      · split at h
        · cases h
        · next enough exactly =>
          cases read : opsOf file headerSize tags with
          | error e => simp only [read, reduceCtorEq] at h
          | ok ops =>
              simp only [read] at h
              cases linked : Program.ofOps ops (some (origins file ops.length)) with
              | error e => simp only [linked, reduceCtorEq] at h
              | ok q =>
                  simp only [linked, Except.ok.injEq] at h
                  obtain ⟨b, rfl, rfl⟩ := Block.exists_of_ofOps linked
                  obtain rfl := opsOf_eq_ok_iff.mp read
                  rw [List.length_map] at enough exactly
                  exact ⟨b, count, four, Nat.le_antisymm (Nat.not_lt.mp enough)
                    (Nat.not_lt.mp exactly), rfl, h.symm⟩
    · cases refused.symm.trans h
    · cases refused.symm.trans h
  · rintro ⟨b, count, four, counted, rfl, rfl⟩
    have size : (b.ops.map Op.tag).length = Bytes.ofLittleEndian count := by
      rw [List.length_map, counted]
      rfl
    rw [decode_header file four, size, if_neg (Nat.lt_irrefl _), if_neg (Nat.lt_irrefl _),
      opsOf_eq_ok_iff.mpr rfl]
    dsimp only
    rw [Block.ofOps_ops]
    rfl

theorem wellFormed_iff {bytes : List UInt8} :
    WellFormed bytes ↔ ∃ (b : Block) (count : List UInt8), count.length = 4 ∧
      Bytes.ofLittleEndian count = b.length ∧ bytes = mark ++ (count ++ b.ops.map Op.tag) := by
  have value (b₀ b₁ b₂ b₃ : UInt8) : Bytes.ofLittleEndian [b₀, b₁, b₂, b₃] =
      b₀.toNat + 2 ^ 8 * b₁.toNat + 2 ^ 16 * b₂.toNat + 2 ^ 24 * b₃.toNat := by
    simp only [Bytes.ofLittleEndian, List.foldr_cons, List.foldr_nil]
    omega
  constructor
  · rintro ⟨b₀, b₁, b₂, b₃, tags, rfl, size, small, balanced⟩
    obtain ⟨ops, rfl⟩ := Op.exists_map_tag_iff.mpr small
    have inside : Balanced .loopOpen .loopClose ops := (balanced_map Op.tag_injective).mp balanced
    obtain ⟨b, rfl⟩ := Block.balanced_iff.mp inside
    refine ⟨b, [b₀, b₁, b₂, b₃], rfl, ?_, rfl⟩
    rw [value, ← size, List.length_map]
    rfl
  · rintro ⟨b, count, four, counted, rfl⟩
    obtain ⟨b₀, b₁, b₂, b₃, rfl⟩ := List.length_eq_four.mp four
    refine ⟨b₀, b₁, b₂, b₃, b.ops.map Op.tag, rfl, ?_, ?_, ?_⟩
    · rw [← value, counted, List.length_map]
      rfl
    · exact Op.exists_map_tag_iff.mp ⟨b.ops, rfl⟩
    · exact (balanced_map Op.tag_injective).mpr (Block.balanced_iff.mpr ⟨b, rfl⟩)

theorem kind_of_error {file : String} {bytes : List UInt8} {e : ArtifactError}
    (h : decode file bytes = .error e) : e.report.kind = .artifact := by
  obtain ⟨count, tags, four, rfl⟩ | refused | refused := header_or_error file bytes
  · rw [decode_header file four] at h
    split at h
    · cases h
      rfl
    · split at h
      · cases h
        rfl
      · cases read : opsOf file headerSize tags with
        | error e' =>
            obtain ⟨tag, offset, rfl⟩ := opsOf_error read
            simp only [read, Except.error.injEq] at h
            rw [← h]
            rfl
        | ok ops =>
            simp only [read] at h
            cases linked : Program.ofOps ops (some (origins file ops.length)) with
            | ok p => simp only [linked, reduceCtorEq] at h
            | error cause =>
                simp only [linked, Except.error.injEq] at h
                have located := Program.ofOps_error_located (by simp [origins]) linked
                rw [← h]
                cases cause with
                | closing | opening => rfl
                | originMissing => exact absurd rfl located
  · cases refused.symm.trans h
    rfl
  · cases refused.symm.trans h
    rfl

theorem origin_of_tag (instrs : Array Instr) (file : String) {count i : Nat} (inside : i < count) :
    Program.origin ⟨instrs, some (origins file count)⟩ i = .artifact file (8 + i) := by
  have known : (origins file count)[i]? = some (some (.artifact file (8 + i))) := by
    simp [origins, inside, headerSize]
  simp [Program.origin, known]

theorem encode_program (b : Block) (known : Option (Array (Option Place))) :
    encode ⟨(b.instrs 0).toArray, known⟩ =
      mark ++ (Bytes.littleEndian 4 b.length ++ b.ops.map Op.tag) := by
  simp only [encode, Program.size, Program.ops, List.size_toArray, Block.length_instrs,
    Block.map_op_instrs, List.append_assoc]

/-- Writing and reading undo each other. A program with a count that fits comes
back with its targets, every instruction with the offset of its tag. The bytes that
can be read are the well-formed ones, and their program is written as these bytes;
all others are refused as no artifact. -/
theorem decode_encode_inverse :
    (∀ (file : String) (ops : List Op) (known : Option (Array (Option Place))) (p : Program),
      Program.ofOps ops known = .ok p → p.size < 2 ^ 32 →
        ∃ q, decode file (encode p) = .ok q ∧ q.instrs = p.instrs ∧
          ∀ i : Nat, i < q.size → q.origin i = .artifact file (8 + i)) ∧
    ∀ (file : String) (bytes : List UInt8),
      ((∃ p, decode file bytes = .ok p) ↔ WellFormed bytes) ∧
      (∀ p, decode file bytes = .ok p → encode p = bytes) ∧
      ∀ e, decode file bytes = .error e → e.report.kind = .artifact := by
  refine ⟨?_, fun file bytes => ⟨?_, ?_, fun e => kind_of_error⟩⟩
  · intro file ops known p linked small
    obtain ⟨b, -, rfl⟩ := Block.exists_of_ofOps linked
    have size : b.length < 256 ^ 4 := by simpa [Program.size] using small
    refine ⟨_, decode_eq_ok_iff.mpr ⟨b, Bytes.littleEndian 4 b.length, Bytes.length_littleEndian 4 _,
      ?_, encode_program b known, rfl⟩, rfl, ?_⟩
    · rw [Bytes.ofLittleEndian_littleEndian, Nat.mod_eq_of_lt size]
    · intro i inside
      exact origin_of_tag _ file (by simpa [Program.size] using inside)
  · rw [wellFormed_iff]
    constructor
    · rintro ⟨p, h⟩
      obtain ⟨b, count, four, counted, whole, -⟩ := decode_eq_ok_iff.mp h
      exact ⟨b, count, four, counted, whole⟩
    · rintro ⟨b, count, four, counted, whole⟩
      exact ⟨_, decode_eq_ok_iff.mpr ⟨b, count, four, counted, whole, rfl⟩⟩
  · intro p h
    obtain ⟨b, count, four, counted, rfl, rfl⟩ := decode_eq_ok_iff.mp h
    rw [encode_program, ← counted, ← four, Bytes.littleEndian_ofLittleEndian]

/-- Nested loops come back, and an open alone is refused. -/
theorem decode_encode_inverse_nested :
    (∃ p q, Program.ofOps [.loopOpen, .loopOpen, .input, .loopClose, .loopClose] none = .ok p ∧
      p.size < 2 ^ 32 ∧ decode "a" (encode p) = .ok q ∧ q.instrs = p.instrs ∧
        q.origin 3 = .artifact "a" 11) ∧
    ¬ WellFormed [0xbf, 0xff, 0xbb, 0xff, 1, 0, 0, 0, 4] := by
  obtain ⟨back, accepted⟩ := decode_encode_inverse
  constructor
  · have linked := Block.ofOps_ops (.loop (.loop (.act .input .done) .done) .done) none
    obtain ⟨q, read, same, located⟩ := back "a" _ _ _ linked (by decide)
    have size : q.size = 5 := congrArg Array.size same
    exact ⟨_, q, linked, by decide, read, same, located 3 (by omega)⟩
  · rw [← (accepted "a" _).1]
    rintro ⟨p, h⟩
    have refused : decode "a" [0xbf, 0xff, 0xbb, 0xff, 1, 0, 0, 0, 4] =
        .error (.brackets (.opening (.artifact "a" 8))) := rfl
    cases refused.symm.trans h

end Artifact

end ByteTape
