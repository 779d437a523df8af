import ByteTape.Proofs.Block
import ByteTape.Proofs.Expansion.Cycles

/-! # Where code comes from

Code is put together from the operations, the debug markers and the strings of a
text. However deep it is nested, repeated or included, an operation keeps the
position of its token, and the operations of a string stay together at the position
of the string. These are balanced on their own, so a bracket without a partner is
never one of them.
-/

namespace ByteTape

namespace Code

/-- The code is made of tokens of this kind. -/
inductive From (kind : Token → Prop) : Code → Prop where
  | nil : From kind []
  | op {o : Op} {loc : Location} {code : Code} (known : kind ⟨.op o, loc⟩) (rest : From kind code) :
    From kind ((o, loc) :: code)
  | debug {loc : Location} {code : Code} (known : kind ⟨.debug, loc⟩) (rest : From kind code) :
    From kind ((.debug, loc) :: code)
  | text {bytes : List UInt8} {loc : Location} {code : Code} (known : kind ⟨.text bytes, loc⟩)
    (rest : From kind code) : From kind ((textOps bytes).map (·, loc) ++ code)

/-- The operation at index `i` is one of a string at `loc`, all of which is there. -/
def Within (code : Code) (bytes : List UInt8) (loc : Location) (i : Nat) : Prop :=
  ∃ front back, code = front ++ ((textOps bytes).map (·, loc) ++ back) ∧ front.length ≤ i ∧
    i < front.length + (textOps bytes).length

variable {kind : Token → Prop} {code code' : Code}

theorem Within.later {bytes : List UInt8} {loc : Location} {i : Nat} (front : Code)
    (h : Within code bytes loc i) : Within (front ++ code) bytes loc (front.length + i) := by
  obtain ⟨more, back, rfl, lower, upper⟩ := h
  refine ⟨front ++ more, back, by rw [List.append_assoc], ?_, ?_⟩ <;>
    rw [List.length_append] <;> omega

theorem Within.cons {bytes : List UInt8} {loc : Location} {i : Nat} (first : Op × Location)
    (h : Within code bytes loc i) : Within (first :: code) bytes loc (i + 1) := by
  have later := h.later [first]
  rwa [List.length_singleton, Nat.add_comm] at later

namespace From

theorem append (h : From kind code) (h' : From kind code') : From kind (code ++ code') := by
  induction h with
  | nil => exact h'
  | op known _ ih => exact .op known ih
  | debug known _ ih => exact .debug known ih
  | text known _ ih =>
      rw [List.append_assoc]
      exact .text known ih

theorem repeated (h : From kind code) (n : Nat) : From kind (List.replicate n code).flatten := by
  induction n with
  | zero => exact .nil
  | succ n ih =>
      rw [List.replicate_succ, List.flatten_cons]
      exact h.append ih

/-- An operation is that of a token at its position, or one of a string that begins
there. -/
theorem origin (h : From kind code) {i : Nat} {o : Op} {loc : Location}
    (here : code[i]? = some (o, loc)) :
    kind ⟨.op o, loc⟩ ∨ (o = .debug ∧ kind ⟨.debug, loc⟩) ∨
      ∃ bytes, kind ⟨.text bytes, loc⟩ ∧ Within code bytes loc i := by
  induction h generalizing i with
  | nil => cases here
  | op known _ ih =>
      cases i with
      | zero =>
          cases here
          exact .inl known
      | succ i =>
          refine (ih here).imp_right (Or.imp_right fun ⟨bytes, literal, within⟩ => ?_)
          exact ⟨bytes, literal, within.cons _⟩
  | debug known _ ih =>
      cases i with
      | zero =>
          cases here
          exact .inr (.inl ⟨rfl, known⟩)
      | succ i =>
          refine (ih here).imp_right (Or.imp_right fun ⟨bytes, literal, within⟩ => ?_)
          exact ⟨bytes, literal, within.cons _⟩
  | @text bytes loc' code known _ ih =>
      by_cases inside : i < (textOps bytes).length
      · rw [List.getElem?_append_left (by simpa using inside), List.getElem?_map] at here
        obtain ⟨o', -, same⟩ := Option.map_eq_some_iff.mp here
        cases same
        exact .inr (.inr ⟨bytes, known, [], code, rfl, Nat.zero_le i, by simpa using inside⟩)
      · obtain ⟨k, rfl⟩ := Nat.exists_eq_add_of_le (Nat.le_of_not_lt inside)
        rw [List.getElem?_append_right (by simp), List.length_map, Nat.add_sub_cancel_left] at here
        refine (ih here).imp_right (Or.imp_right fun ⟨bytes', literal, within⟩ => ?_)
        have later := within.later ((textOps bytes).map (·, loc'))
        rw [List.length_map] at later
        exact ⟨bytes', literal, later⟩

end From

end Code

namespace Item

variable {kind : Token → Prop} {look : Reference → Except ExpansionError Code}

private theorem from_of_members {items : List Item} {code : Code}
    (each : ∀ item ∈ items, ∀ part, item.code look = .ok part → Code.From kind part)
    (done : codes look items = .ok code) : Code.From kind code := by
  induction items generalizing code with
  | nil =>
      cases done
      exact .nil
  | cons first rest ih =>
      obtain ⟨here, later⟩ := List.forall_mem_cons.mp each
      simp only [codes] at done
      split at done
      · cases done
      · next front =>
          split at done
          · cases done
          · next back =>
              cases done
              exact (here _ front).append (ih later back)

theorem mem_refsOf_iff {ref : Reference} {items : List Item} :
    ref ∈ refsOf items ↔ ∃ item ∈ items, ref ∈ item.refs := by
  induction items with
  | nil => simp [refsOf]
  | cons first rest ih => simp [refsOf, ih]

theorem Made.ref_known {item : Item} (made : item.Made kind) :
    ∀ ref ∈ item.refs, kind ⟨.ref ref.path, ref.loc⟩ := by
  intro ref there
  induction made with
  | op | debug | text | use | define => cases there
  | ref known =>
      obtain rfl := List.mem_singleton.mp there
      exact known
  | group _ inside ih =>
      obtain ⟨item, member, deep⟩ := mem_refsOf_iff.mp there
      exact ih item member deep
  | times _ inside ih => exact ih there

theorem Made.code_from {item : Item} (made : item.Made kind) {code : Code}
    (below : ∀ ref ∈ item.refs, ∀ part, look ref = .ok part → Code.From kind part)
    (done : item.code look = .ok code) : Code.From kind code := by
  induction made generalizing code with
  | op known =>
      cases done
      exact .op known .nil
  | debug known =>
      cases done
      exact .debug known .nil
  | text known =>
      cases done
      rw [← List.append_nil (List.map _ _)]
      exact .text known .nil
  | ref known => exact below _ (List.mem_singleton_self _) _ done
  | use | define => cases done
  | group known inside ih =>
      simp only [Item.code] at done
      exact from_of_members
        (fun item there part => ih item there fun ref deep =>
          below ref (mem_refsOf_iff.mpr ⟨item, there, deep⟩)) done
  | times count inside ih =>
      simp only [Item.code] at done
      split at done
      · cases done
      · next target =>
          split at done
          · cases done
            exact (ih below target).repeated _
          · cases done

/-- Items that are made of tokens have code that is made of them, if their references
have. -/
theorem codes_from {items : List Item} (made : ∀ item ∈ items, item.Made kind) {code : Code}
    (below : ∀ ref ∈ refsOf items, ∀ part, look ref = .ok part → Code.From kind part)
    (done : codes look items = .ok code) : Code.From kind code :=
  from_of_members (fun item there _ =>
    (made item there).code_from fun ref deep => below ref (mem_refsOf_iff.mpr ⟨item, there, deep⟩)) done

end Item

namespace Expansion

theorem bodyCode_from {kind : Token → Prop} {t : ScopeTree} {chain : List Nat} {n : Nat} {code : Code}
    (made : t.Every (Scope.Stores (Item.Made kind))) (done : bodyCode t chain n = .ok code) :
    Code.From kind code := by
  induction chain, n using chain_induction (t := t) generalizing code with
  | step chain n ih =>
      rw [bodyCode_eq] at done
      refine Item.codes_from (made.stores_itemsOf n) (fun ref there part known => ?_) done
      obtain ⟨m, found, fresh, below⟩ := refCode_eq_ok_iff.mp known
      exact ih m ⟨ref, there, found⟩ fresh below

end Expansion

namespace Block

/-- An action so many times, and then a block. -/
def repeated (a : Act) : Nat → Block → Block
  | 0, rest => rest
  | n + 1, rest => .act a (repeated a n rest)

/-- The block of a string. -/
def ofText : List UInt8 → Block
  | [] => .done
  | b :: bytes => .loop (.act .decrement .done) (repeated .increment b.toNat (.act .right (ofText bytes)))

theorem ops_repeated (a : Act) (n : Nat) (rest : Block) :
    (repeated a n rest).ops = List.replicate n a.op ++ rest.ops := by
  induction n with
  | zero => rfl
  | succ n ih => rw [repeated, ops, ih, List.replicate_succ, List.cons_append]

theorem ops_ofText (bytes : List UInt8) : (ofText bytes).ops = textOps bytes := by
  induction bytes with
  | nil => rfl
  | cons b bytes ih =>
      rw [ofText, ops, ops_repeated, textOps, List.flatMap_cons, ← textOps, ← ih]
      simp [ops, Act.op]

end Block

/-- The operation that has no partner. -/
def Unmatched.op : Unmatched → Op
  | closing _ => .loopClose
  | opening _ => .loopOpen

/-- The report about a bracket without a partner, when its place is known. -/
def Unmatched.error (place : Place) : Unmatched → BracketError
  | closing _ => .closing place
  | opening _ => .opening place

namespace Code

variable {kind : Token → Prop} {code : Code}

/-- A bracket without a partner is one of the brackets that are waiting, or that of a
token. -/
theorem From.unmatched (h : From kind code) {i : Nat} {stack : List Nat} {known : List (Nat × Nat)}
    {u : Unmatched} (failed : pairBrackets i stack known (code.map Prod.fst) = .error u) :
    (∃ j ∈ stack, u = .opening j) ∨
      ∃ k loc, u.index = i + k ∧ code[k]? = some (u.op, loc) ∧ kind ⟨.op u.op, loc⟩ := by
  induction h generalizing i stack known with
  | nil =>
      cases stack with
      | nil => cases failed
      | cons j stack =>
          cases failed
          exact .inl ⟨j, List.mem_cons_self, rfl⟩
  | @op o loc code token _ ih =>
      have later : (∃ k loc, u.index = i + 1 + k ∧ code[k]? = some (u.op, loc) ∧ kind ⟨.op u.op, loc⟩) →
          ∃ k loc', u.index = i + k ∧ ((o, loc) :: code)[k]? = some (u.op, loc') ∧
            kind ⟨.op u.op, loc'⟩ := by
        rintro ⟨k, loc', index, here, known⟩
        exact ⟨k + 1, loc', by omega, here, known⟩
      obtain rfl | rfl | ⟨a, rfl⟩ := o.bracket_or_act
      · obtain ⟨j, waiting, rfl⟩ | found := ih failed
        · obtain rfl | waiting := List.mem_cons.mp waiting
          · exact .inr ⟨0, loc, rfl, rfl, token⟩
          · exact .inl ⟨j, waiting, rfl⟩
        · exact .inr (later found)
      · cases stack with
        | nil =>
            cases failed
            exact .inr ⟨0, loc, rfl, rfl, token⟩
        | cons j stack =>
            refine (ih failed).imp (fun ⟨k, waiting, same⟩ => ?_) later
            exact ⟨k, List.mem_cons_of_mem j waiting, same⟩
      · rw [List.map_cons, pairBrackets_act] at failed
        exact (ih failed).imp_right later
  | @debug loc code token _ ih =>
      refine (ih failed).imp_right fun ⟨k, loc', index, here, known⟩ => ?_
      exact ⟨k + 1, loc', by omega, here, known⟩
  | @text bytes loc code token _ ih =>
      obtain ⟨b, spelled⟩ : ∃ b : Block, b.ops = textOps bytes := ⟨.ofText bytes, Block.ops_ofText bytes⟩
      rw [List.map_append, List.map_map, Function.comp_def, List.map_id', ← spelled,
        Block.pairBrackets_ops_append] at failed
      refine (ih failed).imp_right fun ⟨k, loc', index, here, known⟩ => ?_
      refine ⟨b.length + k, loc', by omega, ?_, known⟩
      rw [List.getElem?_append_right (by simp [← spelled, Block.length]), ← here]
      congr 1
      simp [← spelled, Block.length]

section
variable {p : Program}

theorem ops_of_link (linked : link code = .ok p) : p.ops = code.map Prod.fst := by
  obtain ⟨b, spelled, rfl⟩ := Block.exists_of_ofOps linked
  rw [← spelled, ← b.map_op_instrs 0]
  rfl

theorem origin_of_link (linked : link code = .ok p) {i : Nat} {o : Op} {loc : Location}
    (here : code[i]? = some (o, loc)) : p.origin i = .source loc := by
  obtain ⟨b, -, rfl⟩ := Block.exists_of_ofOps linked
  simp [Program.origin, here]

theorem link_of_unmatched {ops : List Op} {u : Unmatched} {loc : Location}
    (spelled : code.map Prod.fst = ops) (failed : pairBrackets 0 [] [] ops = .error u)
    (here : code[u.index]? = some (u.op, loc)) : link code = .error (u.error (.source loc)) := by
  have blamed (cause : Place → BracketError) :
      Program.blame (some (code.map fun c => some (.source c.2)).toArray) u.index cause =
        cause (.source loc) := by
    simp [Program.blame, here]
  rw [link, Program.ofOps, spelled, failed]
  cases u with
  | closing i => exact congrArg _ (blamed .closing)
  | opening i => exact congrArg _ (blamed .opening)

theorem From.link_error (h : From kind code) {e : BracketError} (failed : link code = .error e) :
    ∃ loc, (e = .closing (.source loc) ∧ kind ⟨.op .loopClose, loc⟩) ∨
      (e = .opening (.source loc) ∧ kind ⟨.op .loopOpen, loc⟩) := by
  cases paired : pairBrackets 0 [] [] (code.map Prod.fst) with
  | ok pairs =>
      rw [link, Program.ofOps, paired] at failed
      cases failed
  | error u =>
      obtain ⟨j, none, -⟩ | ⟨k, loc, index, here, token⟩ := h.unmatched paired
      · cases none
      · obtain rfl : u.index = k := by rw [index, Nat.zero_add]
        rw [link_of_unmatched rfl paired here] at failed
        cases failed
        refine ⟨loc, ?_⟩
        cases u with
        | closing i => exact .inl ⟨rfl, token⟩
        | opening i => exact .inr ⟨rfl, token⟩

end

end Code

end ByteTape
