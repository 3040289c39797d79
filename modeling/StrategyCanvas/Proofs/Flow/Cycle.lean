import Mathlib.Data.Fintype.EquivFin
import Mathlib.Data.List.Chain
import Mathlib.Data.Set.Insert
import StrategyCanvas.Flow.Cycle
import StrategyCanvas.Proofs.Flow.Walk

/-!
# Finding cycles and walks

The search into depth keeps an invariant (`Explores`): the grey nodes are those on the path, edges
lead along the path, and no walk from a black node comes back to it. Each of its steps preserves
the invariant, and with it a whole search does, so that a cycle is found exactly if there is one
(`hasCycle_eq_true_iff`). The search for a node finds it exactly if a walk leads to it
(`reaches_iff`).
-/

namespace StrategyCanvas

open Relation

namespace Flow

variable {n : Nat} {g : Flow n} {i j : Fin n}

/-! ## What a search into depth knows -/

/-- Every edge from a node on a path is still to be followed or leads to a node that is done. For
the nodes further down a node on the path is as good as done, as it will be when they are on top. -/
def Follows (g : Flow n) (done : Set (Fin n)) : List (Frame n) → Prop
  | [] => True
  | f :: below =>
    (∀ j, g.Edge f.node j → j ∈ f.rest ∨ j ∈ done) ∧ Follows g (insert f.node done) below

theorem Follows.mono {done done' : Set (Fin n)} {path : List (Frame n)} (h : Follows g done path)
    (more : done ⊆ done') : Follows g done' path := by
  induction path generalizing done done' with
  | nil => trivial
  | cons f below ih =>
    obtain ⟨here, later⟩ := h
    exact ⟨fun j edge => (here j edge).imp_right (more ·), ih later (Set.insert_subset_insert more)⟩

/-- The nodes from which all walks have been followed. -/
def blackNodes (colours : Vector Colour n) : Set (Fin n) := {i | colours.get i = .black}

/-- What a search into depth knows of its graph. The grey nodes are those on the path, and an edge
leads to each of them from the one below. The black nodes are closed under edges, and none of them
lies on a cycle. -/
structure Explores (g : Flow n) (colours : Vector Colour n) (path : List (Frame n)) : Prop where
  grey : ∀ i, colours.get i = .grey ↔ i ∈ path.map (·.node)
  nodup : (path.map (·.node)).Nodup
  linked : (path.map (·.node)).IsChain fun j i => g.Edge i j
  rests : ∀ f ∈ path, ∀ j ∈ f.rest, g.Edge f.node j
  closed : ∀ i j, colours.get i = .black → g.Edge i j → colours.get j = .black
  acyclic : ∀ i, colours.get i = .black → ¬ TransGen g.Edge i i
  follows : Follows g (blackNodes colours) path

namespace Explores

variable {colours : Vector Colour n} {path below : List (Frame n)} {rest : List (Fin n)}

/-! ## Steps -/

theorem start (g : Flow n) : Explores g (Vector.replicate n .white) [] := by
  have white (i : Fin n) : (Vector.replicate n Colour.white).get i = .white := by simp
  refine ⟨fun i => ?_, List.nodup_nil, .nil, by simp, fun i j black => ?_, fun i black => ?_,
    trivial⟩
  · simp
  · rw [white i] at black
    contradiction
  · rw [white i] at black
    contradiction

/-- Walks from black nodes meet black nodes only. -/
theorem black_of_walk (h : Explores g colours path) (black : colours.get i = .black)
    (walk : ReflTransGen g.Edge i j) : colours.get j = .black := by
  induction walk with
  | refl => exact black
  | tail _ edge ih => exact h.closed _ _ ih edge

/-- A walk leads from every node on the path to the topmost. -/
theorem walk_to_top {f : Frame n} (h : Explores g colours (f :: below))
    (mem : i ∈ (f :: below).map (·.node)) : ReflTransGen g.Edge i f.node := by
  have linked := h.linked
  clear h
  induction below generalizing f with
  | nil =>
    rw [List.map_cons, List.map_nil, List.mem_singleton] at mem
    rw [mem]
  | cons f' below ih =>
    obtain ⟨edge, linked⟩ := List.isChain_cons_cons.mp linked
    rcases List.mem_cons.mp mem with rfl | mem
    · exact .refl
    · exact (ih mem linked).tail edge

/-- An edge back to the path closes a cycle. -/
theorem exists_cycle (h : Explores g colours (⟨i, j :: rest⟩ :: below))
    (grey : colours.get j = .grey) : ∃ k, TransGen g.Edge k k := by
  have walk : ReflTransGen g.Edge j i := h.walk_to_top ((h.grey j).mp grey)
  have edge : g.Edge i j := h.rests _ List.mem_cons_self j List.mem_cons_self
  exact ⟨j, .tail' walk edge⟩

/-- A node whose edges have all been followed is taken from the path. All of them lead to black
nodes, and a walk from there does not come back to a node that is still grey. -/
theorem leave (h : Explores g colours (⟨i, []⟩ :: below)) :
    Explores g (assign colours i .black) below := by
  obtain ⟨top, lower⟩ := h.follows
  have onPath : colours.get i = .grey := (h.grey i).mpr List.mem_cons_self
  obtain ⟨fresh, nodup⟩ := List.nodup_cons.mp h.nodup
  have next (k : Fin n) (edge : g.Edge i k) : colours.get k = .black :=
    (top k edge).resolve_left List.not_mem_nil
  have black (k : Fin n) :
      (assign colours i .black).get k = .black ↔ k = i ∨ colours.get k = .black := by
    rw [get_assign]
    by_cases same : i = k <;> simp [same, eq_comm]
  refine ⟨fun k => ?_, nodup, h.linked.tail, fun f mem => h.rests f (List.mem_cons_of_mem _ mem),
    fun k m hk edge => ?_, fun k hk walk => ?_, lower.mono fun k mem => ?_⟩
  · have old := h.grey k
    rw [List.map_cons, List.mem_cons] at old
    rw [get_assign]
    by_cases same : i = k
    · subst same
      simpa using fresh
    · simpa [same, Ne.symm same] using old
  · rw [black] at hk ⊢
    rcases hk with rfl | hk
    · exact .inr (next m edge)
    · exact .inr (h.closed k m hk edge)
  · rcases (black k).mp hk with rfl | hk
    · obtain ⟨m, edge, back⟩ := TransGen.head'_iff.mp walk
      rw [h.black_of_walk (next m edge) back] at onPath
      contradiction
    · exact h.acyclic k hk walk
  · exact (black k).mpr mem

/-- An edge to a black node is done with. -/
theorem skip (h : Explores g colours (⟨i, j :: rest⟩ :: below)) (black : colours.get j = .black) :
    Explores g colours (⟨i, rest⟩ :: below) := by
  obtain ⟨top, lower⟩ := h.follows
  refine ⟨h.grey, h.nodup, h.linked, ?_, h.closed, h.acyclic, fun k edge => ?_, lower⟩
  · rw [List.forall_mem_cons]
    exact ⟨fun k mem => h.rests _ List.mem_cons_self k (List.mem_cons_of_mem j mem),
      fun f mem => h.rests f (List.mem_cons_of_mem _ mem)⟩
  · rcases top k edge with mem | done
    · rcases List.mem_cons.mp mem with rfl | mem
      · exact .inr black
      · exact .inl mem
    · exact .inr done

/-- A white node comes onto a path on which it counts as done already. -/
theorem enter (h : Explores g colours path) (white : colours.get j = .white)
    {path' : List (Frame n)} (same : path'.map (·.node) = path.map (·.node))
    (linked : ∀ k ∈ (path.map (·.node)).head?, g.Edge k j)
    (rests : ∀ f ∈ path', ∀ k ∈ f.rest, g.Edge f.node k)
    (follows : Follows g (insert j (blackNodes colours)) path') :
    Explores g (assign colours j .grey) (⟨j, g.successors j⟩ :: path') := by
  have fresh : j ∉ path.map (·.node) := by
    rw [← h.grey, white]
    simp
  have black (k : Fin n) : (assign colours j .grey).get k = .black ↔ colours.get k = .black := by
    rw [get_assign]
    by_cases same : j = k
    · rw [if_pos same, ← same, white]
      decide
    · rw [if_neg same]
  have blacks : blackNodes (assign colours j .grey) = blackNodes colours := Set.ext black
  refine ⟨fun k => ?_, ?_, ?_, ?_, fun k m hk edge => ?_, fun k hk => ?_, fun k edge => ?_, ?_⟩
  · rw [List.map_cons, List.mem_cons, same, ← h.grey, get_assign]
    by_cases here : j = k <;> simp [here, eq_comm]
  · rw [List.map_cons, same]
    exact List.nodup_cons.mpr ⟨fresh, h.nodup⟩
  · rw [List.map_cons, same]
    exact List.isChain_cons.mpr ⟨linked, h.linked⟩
  · rw [List.forall_mem_cons]
    exact ⟨fun k mem => mem_successors.mp mem, rests⟩
  · exact (black m).mpr (h.closed k m ((black k).mp hk) edge)
  · exact h.acyclic k ((black k).mp hk)
  · exact .inl (mem_successors.mpr edge)
  · rwa [blacks]

/-- A white node that an edge leads to from the top of the path comes onto it. -/
theorem descend (h : Explores g colours (⟨i, j :: rest⟩ :: below))
    (white : colours.get j = .white) :
    Explores g (assign colours j .grey) (⟨j, g.successors j⟩ :: ⟨i, rest⟩ :: below) := by
  obtain ⟨top, lower⟩ := h.follows
  obtain ⟨edges, others⟩ := List.forall_mem_cons.mp h.rests
  obtain ⟨edge, edges⟩ := List.forall_mem_cons.mp edges
  refine h.enter white rfl ?_ (List.forall_mem_cons.mpr ⟨edges, others⟩)
    ⟨fun k step => ?_, lower.mono (Set.insert_subset_insert (Set.subset_insert _ _))⟩
  · simpa using edge
  · rcases top k step with mem | done
    · rcases List.mem_cons.mp mem with rfl | mem
      · exact .inr (Set.mem_insert _ _)
      · exact .inl mem
    · exact .inr (Set.mem_insert_of_mem _ done)

/-! ## Runs -/

/-- No node that has been met turns white again. -/
def Keeps (colours next : Vector Colour n) : Prop :=
  ∀ k : Fin n, colours.get k ≠ .white → next.get k ≠ .white

theorem Keeps.trans {middle next : Vector Colour n} (first : Keeps colours middle)
    (second : Keeps middle next) : Keeps colours next := fun k met => second k (first k met)

theorem keeps_assign (colours : Vector Colour n) (i : Fin n) {a : Colour} (met : a ≠ .white) :
    Keeps colours (assign colours i a) := by
  intro k other
  rw [get_assign]
  split
  · exact met
  · exact other

/-- A path is followed to an edge that closes a cycle, or until it is taken back. -/
theorem follow? (h : Explores g colours path) :
    (g.follow? colours path = none → ∃ k, TransGen g.Edge k k)
    ∧ ∀ next, g.follow? colours path = some next → Explores g next [] ∧ Keeps colours next := by
  fun_induction Flow.follow? g colours path with
  | case1 colours =>
    refine ⟨fun none => by contradiction, fun next found => ?_⟩
    obtain rfl := Option.some.inj found
    exact ⟨h, fun _ => id⟩
  | case2 colours i below ih =>
    obtain ⟨closed, finished⟩ := ih h.leave
    refine ⟨closed, fun next found => ?_⟩
    obtain ⟨explores, keeps⟩ := finished next found
    exact ⟨explores, (keeps_assign colours i (by decide)).trans keeps⟩
  | case3 colours i j rest below white ih =>
    obtain ⟨closed, finished⟩ := ih (h.descend white)
    refine ⟨closed, fun next found => ?_⟩
    obtain ⟨explores, keeps⟩ := finished next found
    exact ⟨explores, (keeps_assign colours j (by decide)).trans keeps⟩
  | case4 colours i j rest below grey =>
    exact ⟨fun _ => h.exists_cycle grey, fun next found => by contradiction⟩
  | case5 colours i j rest below black ih => exact ih (h.skip black)

/-- A search from several nodes finds a cycle, or none of them is white afterwards. -/
theorem search? (h : Explores g colours []) (nodes : List (Fin n)) :
    (g.search? colours nodes = none → ∃ k, TransGen g.Edge k k)
    ∧ ∀ next, g.search? colours nodes = some next →
      Explores g next [] ∧ Keeps colours next ∧ ∀ k ∈ nodes, next.get k ≠ .white := by
  induction nodes generalizing colours with
  | nil =>
    refine ⟨fun none => by contradiction, fun next found => ?_⟩
    obtain rfl := Option.some.inj found
    exact ⟨h, fun _ => id, by simp⟩
  | cons i rest ih =>
    rw [Flow.search?]
    split
    · rename_i white
      have begun : Explores g (assign colours i .grey) [⟨i, g.successors i⟩] :=
        h.enter white rfl (by simp) (by simp) trivial
      obtain ⟨closed, finished⟩ := begun.follow?
      split
      · rename_i none
        exact ⟨fun _ => closed none, fun next found => by contradiction⟩
      · rename_i middle found
        obtain ⟨explores, keeps⟩ := finished middle found
        obtain ⟨closed, finished⟩ := ih explores
        refine ⟨closed, fun next found => ?_⟩
        obtain ⟨explores, keeps', all⟩ := finished next found
        have whole := keeps.trans keeps'
        have here : (assign colours i .grey).get i ≠ .white := by
          rw [get_assign, if_pos rfl]
          decide
        refine ⟨explores, (keeps_assign colours i (by decide)).trans whole, ?_⟩
        exact List.forall_mem_cons.mpr ⟨whole i here, all⟩
    · rename_i met
      obtain ⟨closed, finished⟩ := ih h
      refine ⟨closed, fun next found => ?_⟩
      obtain ⟨explores, keeps, all⟩ := finished next found
      exact ⟨explores, keeps, List.forall_mem_cons.mpr ⟨keeps i met, all⟩⟩

end Explores

/-- The search into depth finds a cycle exactly if there is one. -/
theorem hasCycle_eq_true_iff : g.hasCycle = true ↔ ∃ i, TransGen g.Edge i i := by
  obtain ⟨closed, finished⟩ := (Explores.start g).search? (List.finRange n)
  rw [hasCycle, Option.isNone_iff_eq_none]
  refine ⟨closed, fun ⟨i, walk⟩ => ?_⟩
  cases found : g.search? (Vector.replicate n .white) (List.finRange n) with
  | none => rfl
  | some next =>
    -- at the end nothing is white, and without a path nothing is grey
    obtain ⟨explores, -, met⟩ := finished next found
    have notGrey : next.get i ≠ .grey := by
      rw [Ne, explores.grey]
      simp
    have black : next.get i = .black := by
      cases colour : next.get i with
      | white => exact absurd colour (met i (List.mem_finRange i))
      | grey => exact absurd colour notGrey
      | black => rfl
    exact absurd walk (explores.acyclic i black)

theorem hasCycle_eq_false_iff : g.hasCycle = false ↔ IsAcyclic g.Edge := by
  rw [← Bool.not_eq_true, hasCycle_eq_true_iff, not_exists]
  rfl

/-! ## Searching for a node -/

section Finds

variable {goal : Fin n} {seen : Vector Bool n} {stack : List (Fin n)}

/-- A walk from a node that has been seen to one that has not passes the stack. -/
theorem exists_mem_stack_of_walk
    (closed : ∀ i j, seen.get i = true → g.Edge i j → seen.get j = true ∨ j ∈ stack)
    (new : seen.get goal = false) (walk : ReflTransGen g.Edge i goal) (known : seen.get i = true) :
    ∃ k ∈ stack, ReflTransGen g.Edge k goal := by
  induction walk using ReflTransGen.head_induction_on with
  | refl =>
    rw [new] at known
    contradiction
  | head edge rest ih =>
    rcases closed _ _ known edge with seen | onStack
    · exact ih seen
    · exact ⟨_, onStack, rest⟩

/-- If what has been seen is closed under edges but for the stack, a node that has not been seen is
found exactly if a walk leads to it from the stack. -/
theorem finds_iff (closed : ∀ i j, seen.get i = true → g.Edge i j → seen.get j = true ∨ j ∈ stack)
    (new : seen.get goal = false) :
    g.finds goal seen stack = true ↔ ∃ k ∈ stack, ReflTransGen g.Edge k goal := by
  fun_induction finds g goal seen stack with
  | case1 seen => simp
  | case2 seen rest => exact ⟨fun _ => ⟨goal, List.mem_cons_self, .refl⟩, fun _ => rfl⟩
  | case3 seen i rest other known ih =>
    have closed' : ∀ k j, seen.get k = true → g.Edge k j → seen.get j = true ∨ j ∈ rest := by
      intro k j hk edge
      rcases closed k j hk edge with seen | onStack
      · exact .inl seen
      · rcases List.mem_cons.mp onStack with rfl | later
        · exact .inl known
        · exact .inr later
    rw [ih closed' new]
    constructor
    · rintro ⟨k, mem, walk⟩
      exact ⟨k, List.mem_cons_of_mem i mem, walk⟩
    · rintro ⟨k, mem, walk⟩
      rcases List.mem_cons.mp mem with rfl | later
      · exact exists_mem_stack_of_walk closed' new walk known
      · exact ⟨k, later, walk⟩
  | case4 seen i rest other unknown ih =>
    have seen' (k : Fin n) : (assign seen i true).get k = true ↔ k = i ∨ seen.get k = true := by
      rw [get_assign]
      by_cases same : i = k
      · simp [same]
      · simp [same, Ne.symm same]
    have closed' : ∀ k j, (assign seen i true).get k = true → g.Edge k j →
        (assign seen i true).get j = true ∨ j ∈ (g.successors i).reverse ++ rest := by
      intro k j hk edge
      rw [seen', List.mem_append, List.mem_reverse, mem_successors]
      rcases (seen' k).mp hk with rfl | hk
      · exact .inr (.inl edge)
      · rcases closed k j hk edge with known | onStack
        · exact .inl (.inr known)
        · rcases List.mem_cons.mp onStack with rfl | later
          · exact .inl (.inl rfl)
          · exact .inr (.inr later)
    have new' : (assign seen i true).get goal = false := by
      rwa [get_assign, if_neg other]
    rw [ih closed' new']
    constructor
    · rintro ⟨k, mem, walk⟩
      rcases List.mem_append.mp mem with next | later
      · have edge : g.Edge i k := mem_successors.mp (List.mem_reverse.mp next)
        exact ⟨i, List.mem_cons_self, .head edge walk⟩
      · exact ⟨k, List.mem_cons_of_mem i later, walk⟩
    · rintro ⟨k, mem, walk⟩
      rcases List.mem_cons.mp mem with rfl | later
      · -- the walk goes on from one of the successors
        rcases ReflTransGen.cases_head walk with same | ⟨m, edge, walk⟩
        · exact absurd same other
        · exact ⟨m, List.mem_append_left _ (List.mem_reverse.mpr (mem_successors.mpr edge)), walk⟩
      · exact ⟨k, List.mem_append_right _ later, walk⟩

end Finds

theorem reaches_iff : g.reaches i j = true ↔ ReflTransGen g.Edge i j := by
  rw [reaches, finds_iff (by simp) (by simp)]
  simp

end Flow

/-! ## Closing a cycle -/

/-- A connection would close a cycle if it leads from an id to itself, or if a walk leads back. -/
theorem wouldCloseCycle_iff {ids : List String} {g : Flow ids.length} {source target : String} :
    wouldCloseCycle ids g source target = true ↔
      source = target ∨ ∃ s t, Flow.IsLast ids source s ∧ Flow.IsLast ids target t
        ∧ ReflTransGen g.Edge t s := by
  rw [wouldCloseCycle, Bool.or_eq_true, decide_eq_true_eq]
  refine or_congr_right ?_
  simp only [← Flow.position?_eq_some_iff, ← Flow.reaches_iff]
  split
  · rename_i s t hs ht
    constructor
    · intro walk
      exact ⟨s, t, hs, ht, walk⟩
    · rintro ⟨s', t', hs', ht', walk⟩
      rw [hs] at hs'
      rw [ht] at ht'
      rwa [Option.some.inj hs', Option.some.inj ht']
  · rename_i missing
    constructor
    · intro h
      contradiction
    · rintro ⟨s, t, hs, ht, -⟩
      exact absurd ht (missing s t hs)

end StrategyCanvas
