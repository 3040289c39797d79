import StrategyCanvas.Document.Block
import StrategyCanvas.Proofs.Text.Slug

/-!
# Port ids

The id of a port is read from its end: a slug has no colon, so the last colon stands before it, and
what is left ends in the direction. Whatever colons the id of a block has, ports of different
blocks, of different directions or of different slugs have different ids.
-/

namespace StrategyCanvas

/-- A list is taken apart at the last place of an element. -/
theorem append_cons_eq_append_cons_iff {α : Type} {front front' back back' : List α} {a : α}
    (last : a ∉ back) (last' : a ∉ back') :
    front ++ a :: back = front' ++ a :: back' ↔ front = front' ∧ back = back' := by
  constructor
  · intro h
    rcases List.append_eq_append_iff.mp h with ⟨between, rfl, rest⟩ | ⟨between, rfl, rest⟩
    · cases between with
      | nil => exact ⟨(List.append_nil front).symm, (List.cons.inj rest).2⟩
      | cons b between =>
        rw [(List.cons.inj rest).2] at last
        exact absurd (List.mem_append_right _ List.mem_cons_self) last
    · cases between with
      | nil => exact ⟨List.append_nil front', (List.cons.inj rest).2.symm⟩
      | cons b between =>
        rw [(List.cons.inj rest).2] at last'
        exact absurd (List.mem_append_right _ List.mem_cons_self) last'
  · rintro ⟨rfl, rfl⟩
    rfl

theorem colon_not_mem_slug (name : String) : ':' ∉ (Text.slug name).toList := by
  intro mem
  have := Text.isSlugChar_of_mem_slug mem
  contradiction

/-! ## Reading ids from the end -/

theorem toList_inputPortId (blockId name : String) : (inputPortId blockId name).toList
    = (blockId.toList ++ [':', 'i', 'n']) ++ ':' :: (Text.slug name).toList := by
  simp [inputPortId, String.toList_append]

theorem toList_outputPortId (blockId name : String) : (outputPortId blockId name).toList
    = (blockId.toList ++ [':', 'o', 'u', 't']) ++ ':' :: (Text.slug name).toList := by
  simp [outputPortId, String.toList_append]

variable {a b m n : String}

theorem inputPortId_eq_iff :
    inputPortId a m = inputPortId b n ↔ a = b ∧ Text.slug m = Text.slug n := by
  rw [← String.toList_inj, toList_inputPortId, toList_inputPortId,
    append_cons_eq_append_cons_iff (colon_not_mem_slug m) (colon_not_mem_slug n),
    List.append_cancel_right_eq, String.toList_inj, String.toList_inj]

theorem outputPortId_eq_iff :
    outputPortId a m = outputPortId b n ↔ a = b ∧ Text.slug m = Text.slug n := by
  rw [← String.toList_inj, toList_outputPortId, toList_outputPortId,
    append_cons_eq_append_cons_iff (colon_not_mem_slug m) (colon_not_mem_slug n),
    List.append_cancel_right_eq, String.toList_inj, String.toList_inj]

theorem inputPortId_ne_outputPortId : inputPortId a m ≠ outputPortId b n := by
  rw [Ne, ← String.toList_inj, toList_inputPortId, toList_outputPortId,
    append_cons_eq_append_cons_iff (colon_not_mem_slug m) (colon_not_mem_slug n)]
  rintro ⟨front, -⟩
  -- one front ends in an `n`, the other in a `t`
  have := congrArg List.getLast? front
  simp at this

/-! ## Sides -/

/-- The side of a block that a port is on. -/
inductive PortSide
  | input
  | output
  deriving DecidableEq, Repr

/-- The id of a port on a side of a block. -/
def portId : PortSide → String → String → String
  | .input => inputPortId
  | .output => outputPortId

/-- A port id tells the side, the block and the slug of the name. -/
theorem portId_eq_iff {side side' : PortSide} :
    portId side a m = portId side' b n ↔ side = side' ∧ a = b ∧ Text.slug m = Text.slug n := by
  cases side with
  | input =>
    cases side' with
    | input => simp [portId, inputPortId_eq_iff]
    | output => simp [portId, inputPortId_ne_outputPortId]
  | output =>
    cases side' with
    | input => simp [portId, inputPortId_ne_outputPortId.symm]
    | output => simp [portId, outputPortId_eq_iff]

end StrategyCanvas
