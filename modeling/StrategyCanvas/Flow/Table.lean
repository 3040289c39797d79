/-!
# Tables of nodes

What is known of every node, with one entry a node. A table answers at once, and an entry is changed
in place.
-/

namespace StrategyCanvas.Flow

variable {n : Nat}

@[simp] theorem get_eq_getElem {α : Type} (table : Vector α n) (i : Fin n) :
    table.get i = table[i] := rfl

/-! ## Entries -/

section Entries

variable {α : Type}

/-- Gives a node another entry. -/
def assign (table : Vector α n) (i : Fin n) (a : α) : Vector α n := table.set i a i.isLt

theorem get_assign (table : Vector α n) (i j : Fin n) (a : α) :
    (assign table i a).get j = if i = j then a else table.get j := by
  simp [assign, Vector.getElem_set, Fin.ext_iff]

variable [BEq α] [LawfulBEq α]

theorem count_assign_le (table : Vector α n) (i : Fin n) {a b : α} (other : b ≠ a) :
    (assign table i b).count a ≤ table.count a := by
  simp [assign, Vector.count_set, other]

/-- An entry that is changed occurs less often. -/
theorem count_assign_lt {table : Vector α n} {i : Fin n} {a b : α} (here : table.get i = a)
    (other : b ≠ a) : (assign table i b).count a < table.count a := by
  have here' : table[i.val] = a := here
  have mem : a ∈ table := here' ▸ Vector.getElem_mem i.isLt
  have positive := Vector.count_pos_iff.mpr mem
  simp only [assign, Vector.count_set, here', beq_self_eq_true, if_true, beq_iff_eq, other,
    if_false]
  omega

end Entries

/-! ## Number of occurrences -/

/-- Counts a node once more. -/
def countNode (counts : Vector Nat n) (i : Fin n) : Vector Nat n :=
  counts.set i (counts.get i + 1) i.isLt

/-- For every node, how often it occurs in a list. -/
def tally (nodes : List (Fin n)) : Vector Nat n := nodes.foldl countNode (Vector.replicate n 0)

theorem getElem_foldl_countNode (nodes : List (Fin n)) (counts : Vector Nat n) (i : Fin n) :
    (nodes.foldl countNode counts)[i] = counts[i] + nodes.count i := by
  induction nodes generalizing counts with
  | nil => simp
  | cons j rest ih =>
    rw [List.foldl_cons, ih, List.count_cons]
    by_cases h : j = i
    · subst h
      simp [countNode]
      omega
    · have distinct : j.val ≠ i.val := fun same => h (Fin.ext same)
      simp [countNode, h, distinct]

theorem getElem_tally (nodes : List (Fin n)) (i : Fin n) : (tally nodes)[i] = nodes.count i := by
  rw [tally, getElem_foldl_countNode]
  simp

end StrategyCanvas.Flow
