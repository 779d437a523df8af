/-! # Entries by key

Lists of keys with their values, in the order in which the keys came.
-/

namespace ByteTape

variable {α β : Type} [BEq α]

/-- Give a key its value, in its place or at the end. -/
def put (key : α) (value : β) : List (α × β) → List (α × β)
  | [] => [(key, value)]
  | entry :: list => if entry.1 == key then (key, value) :: list else entry :: put key value list

variable [LawfulBEq α] {list new : List (α × β)}

theorem put_of_fresh {key : α} (fresh : key ∉ list.map Prod.fst) (value : β) :
    put key value list = list ++ [(key, value)] := by
  induction list with
  | nil => rfl
  | cons entry list ih =>
      rw [List.map_cons, List.mem_cons, not_or] at fresh
      rw [put, if_neg (by simpa using Ne.symm fresh.1), ih fresh.2, List.cons_append]

/-- Nothing is replaced if all keys are different. -/
theorem foldl_put (distinct : ((list ++ new).map Prod.fst).Nodup) :
    new.foldl (fun list entry => put entry.1 entry.2 list) list = list ++ new := by
  induction new generalizing list with
  | nil => rw [List.foldl_nil, List.append_nil]
  | cons entry new ih =>
      have fresh : entry.1 ∉ list.map Prod.fst := by
        rw [List.map_append, List.nodup_append] at distinct
        exact fun old => distinct.2.2 _ old _ List.mem_cons_self rfl
      rw [List.append_cons] at distinct
      rw [List.foldl_cons, put_of_fresh fresh, ih distinct, ← List.append_cons]

end ByteTape
