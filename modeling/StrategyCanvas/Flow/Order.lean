import StrategyCanvas.Flow.Basic
import StrategyCanvas.Flow.Table

/-!
# Execution order

Puts the nodes of a graph into an order in which every edge goes forward. Every node starts with the
number of edges into it, and each edge is counted down when its source comes into order. Among the
nodes that wait for nothing, the one with the least position comes next, so the order is the
lexicographically least of all possible ones. If there is no order, the nodes that never become
ready are left over.
-/

namespace StrategyCanvas

namespace Flow

variable {n : Nat}

/-! ## Counting down -/

/-- Adds a node to ascending nodes, unless it is there already. -/
def insertNode (i : Fin n) : List (Fin n) → List (Fin n)
  | [] => [i]
  | j :: rest =>
    if i < j then i :: j :: rest else if i = j then j :: rest else j :: insertNode i rest

/-- An ordering under way. -/
structure Countdown (n : Nat) where
  /-- For every node, the number of edges into it whose sources are still to come. -/
  counts : Vector Nat n
  /-- The nodes that wait for nothing and are still to come, ascending. -/
  ready : List (Fin n)
  deriving DecidableEq, Repr

/-- The sum of counts. -/
def total (counts : List Nat) : Nat := counts.foldr (· + ·) 0

namespace Countdown

/-- No node is in order yet. -/
def start (g : Flow n) : Countdown n :=
  let counts := tally (g.edges.map Prod.snd)
  ⟨counts, (List.finRange n).filter fun i => counts.get i = 0⟩

/-- Takes one off the count of a node, if there is anything to take. A node whose count comes to
nothing is ready. -/
def lower? (c : Countdown n) (i : Fin n) : Option (Countdown n) :=
  match c.counts.get i with
  | 0 => none
  | k + 1 => some ⟨c.counts.set i k i.isLt, if k = 0 then insertNode i c.ready else c.ready⟩

/-- Takes one off the count of each node of a list. -/
def lowerAll? (c : Countdown n) : List (Fin n) → Option (Countdown n)
  | [] => some c
  | i :: rest =>
    match c.lower? i with
    | none => none
    | some next => next.lowerAll? rest

/-- What is left to count down and to put in order. -/
def work (c : Countdown n) : Nat := total c.counts.toList + c.ready.length

end Countdown

theorem length_insertNode_le (i : Fin n) (nodes : List (Fin n)) :
    (insertNode i nodes).length ≤ nodes.length + 1 := by
  induction nodes with
  | nil => simp [insertNode]
  | cons j rest ih =>
    simp only [insertNode]
    split
    · simp
    · split
      · simp
      · simpa using ih

theorem total_set (counts : List Nat) (i k : Nat) (h : i < counts.length) :
    total (counts.set i k) + counts[i] = total counts + k := by
  induction counts generalizing i with
  | nil => simp at h
  | cons a rest ih =>
    cases i with
    | zero =>
      simp only [List.set_cons_zero, total, List.foldr_cons, List.getElem_cons_zero]
      omega
    | succ i =>
      have tail := ih i (by simpa using h)
      simp only [total] at tail
      simp only [List.set_cons_succ, total, List.foldr_cons, List.getElem_cons_succ]
      omega

/-- Counting down makes no new work: what a count loses at most becomes ready. -/
theorem Countdown.work_lower?_le {c next : Countdown n} {i : Fin n}
    (h : c.lower? i = some next) : next.work ≤ c.work := by
  unfold lower? at h
  split at h
  · contradiction
  · rename_i k count
    obtain rfl := Option.some.inj h
    have sum := total_set c.counts.toList i k (by simp)
    rw [Vector.getElem_toList] at sum
    have count' : c.counts[i.val] = k + 1 := count
    have ready := length_insertNode_le i c.ready
    simp only [work, Vector.toList_set]
    split <;> omega

theorem Countdown.work_lowerAll?_le {c next : Countdown n} {nodes : List (Fin n)}
    (h : c.lowerAll? nodes = some next) : next.work ≤ c.work := by
  induction nodes generalizing c with
  | nil =>
    obtain rfl := Option.some.inj h
    exact Nat.le_refl _
  | cons i rest ih =>
    unfold lowerAll? at h
    split at h
    · contradiction
    · rename_i middle first
      exact Nat.le_trans (ih h) (work_lower?_le first)

/-! ## Ordering -/

/-- What an ordering has put in order, and what is left over. -/
structure Ordering (n : Nat) where
  ordered : List (Fin n)
  leftOver : List (Fin n)
  deriving DecidableEq, Repr

/-- Puts nodes in order as long as one is ready: takes the least, counts down the edges from it, and
goes on. Nothing comes of it if a count would fall below zero. -/
def arrange? (g : Flow n) (c : Countdown n) : Option (Ordering n) :=
  match _found : c.ready with
  | [] => some ⟨[], (List.finRange n).filter fun i => 0 < c.counts.get i⟩
  | i :: rest =>
    match _lowered : Countdown.lowerAll? ⟨c.counts, rest⟩ (g.successors i) with
    | none => none
    | some next => (arrange? g next).map fun o => ⟨i :: o.ordered, o.leftOver⟩
termination_by c.work
decreasing_by
  have le := Countdown.work_lowerAll?_le _lowered
  simp only [Countdown.work] at le
  simp only [Countdown.work, _found, List.length_cons]
  omega

/-- The execution order of all nodes, or the nodes that no order reaches, both by position. A count
below zero would leave no node to name. -/
def order (g : Flow n) : Except (List (Fin n)) (List (Fin n)) :=
  match arrange? g (.start g) with
  | none => .error []
  | some result =>
    if result.ordered.length < n then .error result.leftOver else .ok result.ordered

end Flow

/-- A strategy without an execution order. -/
structure CycleError where
  /-- The ids of the blocks that cannot be ordered, in the order of the definition. -/
  blocks : List String
  deriving DecidableEq, Repr

/-- The wording of a missing execution order. -/
def CycleError.message (e : CycleError) : String :=
  "circular dependency among blocks: " ++ ", ".intercalate e.blocks

/-- The positions of the blocks in execution order. -/
def executionOrder (ids : List String) (ends : List (String × String)) :
    Except CycleError (List (Fin ids.length)) :=
  (Flow.ofIds ids ends).order.mapError fun leftOver => ⟨leftOver.map ids.get⟩

example : executionOrder ["a", "b", "c"] [("c", "a")] = .ok [1, 2, 0] := by cbv

end StrategyCanvas
