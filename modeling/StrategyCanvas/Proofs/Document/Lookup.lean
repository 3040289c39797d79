import Mathlib.Data.List.Nodup
import StrategyCanvas.Document.Definition

/-!
# Looking up by a key

Blocks, connections, ports and properties are looked up by a key, and the first one that has it
counts. Where keys are distinct the first one is the only one.
-/

namespace StrategyCanvas

section Key

variable {α β κ : Type} {key : α → κ} {as : List α} {a : α} {k : κ}

/-- If keys are distinct, no other element has the key of an element. -/
theorem exists_split_of_key (distinct : (as.map key).Nodup) (mem : a ∈ as) :
    ∃ front back, as = front ++ a :: back ∧ (∀ b ∈ front, key b ≠ key a)
      ∧ ∀ b ∈ back, key b ≠ key a := by
  obtain ⟨front, back, rfl⟩ := List.append_of_mem mem
  rw [List.map_append, List.map_cons, List.nodup_middle, List.nodup_cons, List.mem_append,
    not_or] at distinct
  obtain ⟨⟨before, after⟩, -⟩ := distinct
  exact ⟨front, back, rfl, fun b hb same => before (same ▸ List.mem_map_of_mem hb),
    fun b hb same => after (same ▸ List.mem_map_of_mem hb)⟩

/-- If only elements with one key give anything, the element with the key gives all there is. -/
theorem flatMap_eq_of_key (distinct : (as.map key).Nodup) (mem : a ∈ as) {f : α → List β}
    (nothing : ∀ b, key b ≠ key a → f b = []) : as.flatMap f = f a := by
  obtain ⟨front, back, rfl, before, after⟩ := exists_split_of_key distinct mem
  rw [List.flatMap_append, List.flatMap_cons,
    List.flatMap_eq_nil_iff.mpr fun b hb => nothing b (before b hb),
    List.flatMap_eq_nil_iff.mpr fun b hb => nothing b (after b hb), List.nil_append,
    List.append_nil]

variable [DecidableEq κ]

theorem filter_key_eq_singleton (distinct : (as.map key).Nodup) (mem : a ∈ as) :
    as.filter (fun b => key b = key a) = [a] := by
  obtain ⟨front, back, rfl, before, after⟩ := exists_split_of_key distinct mem
  rw [List.filter_append, List.filter_cons_of_pos (by simp),
    List.filter_eq_nil_iff.mpr (by simpa using before),
    List.filter_eq_nil_iff.mpr (by simpa using after), List.nil_append]

theorem key_of_find? (h : as.find? (fun a => key a = k) = some a) : key a = k := by
  simpa using List.find?_some h

theorem find?_key_eq_none_iff : as.find? (fun a => key a = k) = none ↔ k ∉ as.map key := by
  rw [List.find?_eq_none, List.mem_map]
  simp

theorem find?_key_eq_some_iff (distinct : (as.map key).Nodup) :
    as.find? (fun a => key a = k) = some a ↔ a ∈ as ∧ key a = k := by
  constructor
  · intro h
    exact ⟨List.mem_of_find?_eq_some h, key_of_find? h⟩
  · intro h
    obtain ⟨mem, same⟩ := h
    cases found : as.find? fun a => key a = k with
    | none =>
      have absent := find?_key_eq_none_iff.mp found
      rw [← same] at absent
      exact absurd (List.mem_map_of_mem mem) absent
    | some b =>
      have key' : key b = key a := (key_of_find? found).trans same.symm
      rw [List.inj_on_of_nodup_map distinct (List.mem_of_find?_eq_some found) mem key']

/-- Where keys are distinct, what is found does not depend on the order. -/
theorem find?_key_perm {bs : List α} (distinct : (as.map key).Nodup) (perm : as.Perm bs) (k : κ) :
    as.find? (fun a => key a = k) = bs.find? (fun a => key a = k) := by
  have distinct' : (bs.map key).Nodup := (perm.map key).nodup_iff.mp distinct
  refine Option.ext fun a => ?_
  rw [find?_key_eq_some_iff distinct, find?_key_eq_some_iff distinct', perm.mem_iff]

end Key

namespace Definition

variable {d : Definition} {id : String}

theorem block?_eq_none_iff : d.block? id = none ↔ id ∉ d.blocks.map (·.id) :=
  find?_key_eq_none_iff

theorem connection?_eq_none_iff : d.connection? id = none ↔ id ∉ d.connections.map (·.id) :=
  find?_key_eq_none_iff

end Definition

end StrategyCanvas
