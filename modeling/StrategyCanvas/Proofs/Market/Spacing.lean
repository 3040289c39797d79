import Mathlib.Data.List.Chain
import Mathlib.Data.List.Induction
import StrategyCanvas.Market.Cooldown
import StrategyCanvas.Proofs.Run

/-!
# The spacing of orders

A block that gives orders does so on every tick on which its condition holds and its wait is over,
and each order starts the wait anew. As a wait remembers nothing but when it was started
(`stateAfter_ofSeconds`), an order is refused exactly if it comes too soon after the last one, and
what lies between the two makes no difference (`isSpacedBy_answers`).
-/

namespace StrategyCanvas.Market

/-- What a tick brings to a block that gives orders. -/
structure Occasion where
  time : Time.Instant
  condition : Bool
  deriving DecidableEq, Repr

/-- An occasion, and whether an order was given on it. -/
structure Turn extends Occasion where
  fired : Bool
  deriving DecidableEq, Repr

/-- When orders were given, in order. -/
def firings (log : List Turn) : List Time.Instant := (log.filter (·.fired)).map (·.time)

/-- How a log of turns looks when orders are spaced by a number of seconds. -/
structure IsSpacedBy (seconds : Float) (log : List Turn) : Prop where
  /-- No order is given unless the condition holds. -/
  condition : ∀ turn ∈ log, turn.fired = true → turn.condition = true
  /-- The first time that the condition holds, an order is given. -/
  first : ∀ turn ∈ log.find? (·.condition), turn.fired = true
  /-- Of two orders in a row the later one comes late enough. -/
  spaced : (firings log).IsChain fun earlier later => Cooldown.isSpaced seconds later earlier = true
  /-- Where the condition holds and no order is given, it would come too soon after the last one. -/
  refused : ∀ before turn after, log = before ++ turn :: after → turn.condition = true →
    turn.fired = false → ∃ last ∈ (firings before).getLast?,
      Cooldown.isSpaced seconds turn.time last = false

section

variable {seconds : Float} {log : List Turn} {turn : Turn}

theorem firings_append (log : List Turn) (turn : Turn) :
    firings (log ++ [turn]) = firings log ++ if turn.fired then [turn.time] else [] := by
  rw [firings, List.filter_append, List.map_append]
  cases fired : turn.fired <;> simp [firings, fired]

theorem isSpacedBy_nil (seconds : Float) : IsSpacedBy seconds [] where
  condition := by simp
  first := by simp
  spaced := .nil
  refused := by simp

/-- Orders stay spaced if one is given on the next turn exactly when the condition holds and the
last order, if there is one, lies far enough back. -/
theorem IsSpacedBy.append (h : IsSpacedBy seconds log)
    (fires : turn.fired = (turn.condition
      && (firings log).getLast?.all fun last => Cooldown.isSpaced seconds turn.time last)) :
    IsSpacedBy seconds (log ++ [turn]) where
  condition := by
    rw [List.forall_mem_append, List.forall_mem_singleton]
    refine ⟨h.condition, fun fired => ?_⟩
    rw [fires, Bool.and_eq_true] at fired
    exact fired.1
  first := by
    intro first found
    rw [List.find?_append] at found
    cases before : log.find? (·.condition) with
    | some other =>
      rw [before] at found
      exact h.first first (before.trans found)
    | none =>
      -- no order was given before, as the condition never held
      have none : firings log = [] := by
        rw [firings, List.map_eq_nil_iff, List.filter_eq_nil_iff]
        intro other mem fired
        exact List.find?_eq_none.mp before other mem (h.condition other mem fired)
      rw [before, Option.none_or, List.find?_singleton, Option.mem_def,
        Option.ite_none_right_eq_some] at found
      obtain ⟨holds, same⟩ := found
      rw [← Option.some.inj same, fires, holds, none]
      rfl
  spaced := by
    rw [firings_append]
    refine h.spaced.append (by split <;> simp) fun last mem later mem' => ?_
    split at mem'
    · rename_i fired
      rw [fires, Bool.and_eq_true, Option.all_eq_true] at fired
      rw [← Option.some.inj mem']
      exact fired.2 last mem
    · contradiction
  refused := by
    intro before other after same holds idle
    rcases List.eq_nil_or_concat after with rfl | ⟨after, last, rfl⟩
    · obtain ⟨rfl, last⟩ := List.append_inj' same rfl
      obtain rfl := List.singleton_inj.mp last
      rw [holds, idle, Bool.true_and, eq_comm, Option.all_eq_false] at fires
      simpa using fires
    · rw [List.concat_eq_append, ← List.cons_append, ← List.append_assoc] at same
      exact h.refused before other after (List.append_inj' same rfl).1 holds idle

end

/-! ## Runs -/

namespace Cooldown

/-- Gives an order on an occasion, if the condition holds and the wait is over. -/
def meet (c : Cooldown) (o : Occasion) : Turn × Cooldown :=
  let fired := o.condition && c.isReady o.time
  (⟨o, fired⟩, if fired then c.mark o.time else c)

theorem meet_fst (c : Cooldown) (o : Occasion) : (c.meet o).1 = ⟨o, (c.meet o).1.fired⟩ := rfl

theorem meet_snd (c : Cooldown) (o : Occasion) :
    (c.meet o).2 = if (c.meet o).1.fired then c.mark o.time else c := rfl

/-- Every occasion gets its turn. -/
theorem map_toOccasion_answers (c : Cooldown) (ticks : List Occasion) :
    (answers meet c ticks).map Turn.toOccasion = ticks := by
  induction ticks generalizing c with
  | nil => rfl
  | cons o rest ih => rw [answers, List.map_cons, ih, meet_fst]

theorem isReady_eq (c : Cooldown) (now : Time.Instant) :
    c.isReady now = c.lastFired.all fun last => isSpaced c.seconds now last := by
  unfold isReady
  cases c.lastFired <;> rfl

/-- All that a wait remembers is when the last order was given. -/
theorem stateAfter_ofSeconds (seconds : Float) (ticks : List Occasion) :
    stateAfter meet (ofSeconds seconds) ticks
      = ⟨(ofSeconds seconds).seconds,
        (firings (answers meet (ofSeconds seconds) ticks)).getLast?⟩ := by
  induction ticks using List.reverseRecOn with
  | nil => rfl
  | append_singleton ticks o ih =>
    rw [stateAfter_append_singleton, answers_append, answers, answers, firings_append, meet_snd, ih]
    split
    · rw [List.getLast?_concat]
      rfl
    · rw [List.append_nil]

theorem isSpacedBy_answers (seconds : Float) (ticks : List Occasion) :
    IsSpacedBy (ofSeconds seconds).seconds (answers meet (ofSeconds seconds) ticks) := by
  induction ticks using List.reverseRecOn with
  | nil => exact isSpacedBy_nil _
  | append_singleton ticks o ih =>
    rw [answers_append, answers, answers]
    refine ih.append ?_
    rw [stateAfter_ofSeconds]
    exact congrArg (o.condition && ·) (isReady_eq _ o.time)

end Cooldown

end StrategyCanvas.Market
