import StrategyCanvas.Code.Emission
import StrategyCanvas.Proofs.Code.Naming
import StrategyCanvas.Proofs.Text.SlugForm

/-!
# Generated names

A slug or a handle of its own may well be a reserved word. What the plan of a block puts in front of
its handle or behind it makes an identifier of it all the same, because no reserved word has an
underscore, and because a handle starts with a letter (`isIdentifier_numbered_handle`).
-/

namespace StrategyCanvas.Code

open Text

theorem isIdentifier_numbered_handle (name : String) (n : Nat) :
    isIdentifier (numbered (handle name) n) = true := by
  obtain ⟨c, cs, chars, letter⟩ := exists_toList_handle name
  have word := isWord_handle name
  rw [IsWord, chars, List.forall_mem_cons] at word
  have parts : (numbered (handle name) n).toList = c :: (cs ++ '_' :: (toString n).toList) := by
    simp [numbered, chars]
  refine isIdentifier_of_mem parts letter ?_ (by simp)
  rw [List.forall_mem_append, List.forall_mem_cons]
  exact ⟨word.2, by decide, isWord_toString n⟩

theorem handle_of_planBlock {catalog : Catalog} {claimed claimed' : Claimed} {b : Block}
    {plan : BlockPlan} (h : planBlock catalog claimed b = .ok (plan, claimed')) :
    plan.handle = freshName claimed.handles (handle b.name) := by
  unfold planBlock at h
  split at h
  · contradiction
  · dsimp only at h
    split at h
    · contradiction
    · obtain ⟨rfl, -⟩ := Prod.mk.inj (Except.ok.inj h)
      rfl

/-- Reading a name to its end writes the lower-case runs of its letters and digits, joined by single
underscores. This is a form that does not change any more. The handle starts with a letter, and
whatever names a plan makes from it by something in front of it or behind it are identifiers. -/
theorem slug_and_generated_names (name : String) :
    (∃! runs, IsRuns name.toList runs)
    ∧ (∀ runs, IsRuns name.toList runs → slug name = if runs = [] then "block"
        else String.ofList (['_'].intercalate (runs.map lowered)))
    ∧ slugByCharacters name = slug name
    ∧ slug name ≠ "" ∧ (slug name).toList ∈ slugForm
    ∧ slug (slug name) = slug name
    ∧ (∃ c cs, (handle name).toList = c :: cs ∧ IsAsciiLetter c)
    ∧ ∀ (catalog : Catalog) (claimed claimed' : Claimed) (b : Block) (plan : BlockPlan),
      b.name = name → planBlock catalog claimed b = .ok (plan, claimed') →
        (plan.handle = handle name
          ∨ isIdentifier plan.handle = true ∧ ∃ n, plan.handle = numbered (handle name) n)
        ∧ (∀ wires, isIdentifier (BlockView.mk plan wires).stateName = true)
        ∧ ∀ field ∈ plan.fields, isIdentifier field = true := by
  have form := toList_slug_mem_slugForm name
  refine ⟨existsUnique_isRuns _, fun _ => slug_of_isRuns, slugByCharacters_eq name,
    slug_ne_empty name, form, slug_of_mem_slugForm form, exists_toList_handle name, ?_⟩
  rintro catalog claimed claimed' b plan rfl planned
  have named := (claims_of_planBlock planned).isNamed
  refine ⟨?_, fun wires => ?_, fun field mem => ?_⟩
  · rw [handle_of_planBlock planned]
    rcases freshName_eq claimed.handles (handle b.name) with same | ⟨n, same⟩
    · exact .inl same
    · exact .inr ⟨by rw [same]; exact isIdentifier_numbered_handle b.name n, n, same⟩
  · have state : IsFieldName 's' ("s_" ++ plan.handle) :=
      ⟨by decide, plan.handle.toList, by simp, named.handle⟩
    exact state.isIdentifier
  · obtain ⟨letter, isField⟩ := named.exists_letter mem
    exact isField.isIdentifier

/-- A block with a reserved word for a name. -/
def matchBlock : Block where
  id := "match"
  type := "log"
  category := .output
  name := "Match"
  description := ""
  position := .origin
  size := .usual
  inputs := []
  outputs := [⟨"match:out:match", "Match", .number⟩]
  properties := [⟨"as", "As", .string, some (.text "seen"), true, none, none, []⟩]

/-- A handle that would be a keyword is taken, and numbered it is an identifier. -/
theorem generated_names_matchBlock : ∃ plan claimed',
    planBlock ⟨[]⟩ ⟨["match"], [], []⟩ matchBlock = .ok (plan, claimed')
    ∧ isIdentifier "match" = false ∧ plan.handle = "match_2" ∧ isIdentifier "match_2" = true
    ∧ plan.fields = ["p_match_2_as", "o_match_2_match"]
    ∧ ∀ field ∈ plan.fields, isIdentifier field = true := by
  obtain ⟨⟨plan, claimed'⟩, h⟩ := exists_planBlock ⟨[]⟩ ⟨["match"], [], []⟩ (b := matchBlock)
    ⟨⟨.log, by decide⟩, by decide⟩
  have given : (planBlock ⟨[]⟩ ⟨["match"], [], []⟩ matchBlock).toOption.map
      (fun r => (r.1.handle, r.1.fields))
        = some ("match_2", ["p_match_2_as", "o_match_2_match"]) := by
    decide +kernel
  rw [h] at given
  obtain ⟨named, fields⟩ := Prod.mk.inj (Option.some.inj given)
  have names := (slug_and_generated_names "Match").2.2.2.2.2.2.2
  obtain ⟨handle | ⟨identifier, -⟩, -, identifiers⟩ := names _ _ _ matchBlock plan rfl h
  · have other : "match_2" ≠ Text.handle "Match" := by decide +kernel
    exact absurd (named.symm.trans handle) other
  · refine ⟨plan, claimed', h, by decide, named, ?_, fields, identifiers⟩
    rwa [named] at identifier

end StrategyCanvas.Code
