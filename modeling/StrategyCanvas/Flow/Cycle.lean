import StrategyCanvas.Flow.Basic
import StrategyCanvas.Flow.Table

/-!
# Cycles

Whether a graph has a directed cycle, and whether one more edge would close one. Both searches keep
their own stack, so that the length of a chain of blocks does not matter. The first goes into depth
and knows which nodes lie on the path that it follows: an edge back to one of them closes a cycle.
The second asks whether a walk leads from the end of the new edge back to its start.
-/

namespace StrategyCanvas

namespace Flow

variable {n : Nat}

/-! ## Searching for a cycle -/

/-- How far a search into depth has come with a node. -/
inductive Colour
  /-- The node has not been met. -/
  | white
  /-- The node lies on the path that is being followed. -/
  | grey
  /-- All walks from the node have been followed, and none of them came back. -/
  | black
  deriving DecidableEq, Repr

/-- A node on the path of a search, with the ends of the edges from it that are still to be
followed. -/
structure Frame (n : Nat) where
  node : Fin n
  rest : List (Fin n)
  deriving DecidableEq, Repr

/-- The edges from a path that are still to be followed, and a step back for every node on it. -/
def pending (path : List (Frame n)) : Nat := path.foldr (fun f k => f.rest.length + 1 + k) 0

theorem length_successors_le (g : Flow n) (i : Fin n) :
    (g.successors i).length ≤ g.edges.length := by
  rw [successors, List.length_map]
  exact List.length_filter_le ..

/-- Follows the edges from the nodes of a path, the topmost first, until the path is taken back. An
edge to a node on the path closes a cycle, and then there are no colours. -/
def follow? (g : Flow n) (colours : Vector Colour n) (path : List (Frame n)) :
    Option (Vector Colour n) :=
  match path with
  | [] => some colours
  | ⟨i, []⟩ :: below => g.follow? (assign colours i .black) below
  | ⟨i, j :: rest⟩ :: below =>
    match _colour : colours.get j with
    | .white => g.follow? (assign colours j .grey) (⟨j, g.successors j⟩ :: ⟨i, rest⟩ :: below)
    | .grey => none
    | .black => g.follow? colours (⟨i, rest⟩ :: below)
termination_by colours.count .white * (g.edges.length + 2) + pending path
decreasing_by
  · have fewer := count_assign_le colours i (show Colour.black ≠ .white by decide)
    have := Nat.mul_le_mul_right (g.edges.length + 2) fewer
    simp only [pending, List.foldr_cons, List.length_nil]
    omega
  · -- a white node is given up for all its edges
    have fewer := count_assign_lt _colour (show Colour.grey ≠ .white by decide)
    have := Nat.mul_le_mul_right (g.edges.length + 2) (Nat.succ_le_of_lt fewer)
    have := g.length_successors_le j
    rw [Nat.succ_mul] at *
    simp only [pending, List.foldr_cons, List.length_cons]
    omega
  · simp only [pending, List.foldr_cons, List.length_cons]
    omega

/-- Searches from nodes one after the other, as far as they are still white. -/
def search? (g : Flow n) (colours : Vector Colour n) : List (Fin n) → Option (Vector Colour n)
  | [] => some colours
  | i :: rest =>
    match colours.get i with
    | .white =>
      match g.follow? (assign colours i .grey) [⟨i, g.successors i⟩] with
      | none => none
      | some next => g.search? next rest
    | _ => g.search? colours rest

/-- Whether there is a directed cycle. -/
def hasCycle (g : Flow n) : Bool :=
  (g.search? (Vector.replicate n .white) (List.finRange n)).isNone

/-! ## Searching for a node -/

/-- Whether a walk from the nodes on the stack leads to a node, through nodes not seen before. The
search ends where it finds the node. A node is put on the stack whenever an edge leads to it, so
that it may be there several times. -/
def finds (g : Flow n) (goal : Fin n) (seen : Vector Bool n) (stack : List (Fin n)) : Bool :=
  match stack with
  | [] => false
  | i :: rest =>
    if i = goal then true
    else
      match _seen : seen.get i with
      | true => g.finds goal seen rest
      | false => g.finds goal (assign seen i true) ((g.successors i).reverse ++ rest)
termination_by (seen.count false, stack.length)
decreasing_by
  · exact Prod.Lex.right _ (by simp)
  · exact Prod.Lex.left _ _ (count_assign_lt _seen (by decide))

/-- Whether a walk, possibly of no edge at all, leads from one node to another. -/
def reaches (g : Flow n) (source target : Fin n) : Bool :=
  g.finds target (Vector.replicate n false) [source]

end Flow

/-- Whether a connection from one id to another would close a cycle. A connection of a block to
itself always does, even if the block is absent; one that starts or ends nowhere does not. -/
def wouldCloseCycle (ids : List String) (g : Flow ids.length) (source target : String) : Bool :=
  source = target ||
    match Flow.position? ids source, Flow.position? ids target with
    | some s, some t => g.reaches t s
    | _, _ => false

end StrategyCanvas
