import Mathlib.Order.Bounds.Basic
import StrategyCanvas.Proofs.Code.Naming

/-!
# Claiming names

For a name that is in use, one number after the other is tried until one makes the name new, and
nothing bounds this search. It ends with the least such number if there is one (`searchEnds_iff`),
and there is one, as names with different numbers differ and only finitely many names are in use
(`isFirstNew_freshName`). So claims always end, and with the fresh names (`claimsEnd_iff`).
-/

namespace StrategyCanvas.Code

/-! ## The table of names in use -/

/-- The search that tries one number after the other, from `n` on, ends with a name. -/
inductive SearchEnds (taken : List String) (base : String) : Nat → String → Prop
  | new {n : Nat} (h : numbered base n ∉ taken) : SearchEnds taken base n (numbered base n)
  | used {n : Nat} {name : String} (h : numbered base n ∈ taken)
    (rest : SearchEnds taken base (n + 1) name) : SearchEnds taken base n name

/-- A claim ends with a name: the one that is asked for, or the one that the search from two on ends
with. -/
inductive ClaimEnds (taken : List String) (base : String) : String → Prop
  | new (h : base ∉ taken) : ClaimEnds taken base base
  | used {name : String} (h : base ∈ taken) (search : SearchEnds taken base 2 name) :
    ClaimEnds taken base name

/-- Claims that are made one after the other end with names, each of which is in use afterwards. -/
inductive ClaimsEnd : List String → List String → List String → Prop
  | nil {taken : List String} : ClaimsEnd taken [] []
  | cons {taken rest names : List String} {base name : String} (first : ClaimEnds taken base name)
    (later : ClaimsEnd (name :: taken) rest names) : ClaimsEnd taken (base :: rest) (name :: names)

/-! ## One claim -/

/-- The numbers from `start` on that make a name new. -/
def newNumbers (taken : List String) (base : String) (start : Nat) : Set Nat :=
  {n | start ≤ n ∧ numbered base n ∉ taken}

/-- What a claim has to give when some names are in use: the name that is asked for if it is new,
and else the one with the least number from two on that makes it new. -/
def IsFirstNew (taken : List String) (base name : String) : Prop :=
  base ∉ taken ∧ name = base
  ∨ base ∈ taken ∧ ∃ n, IsLeast (newNumbers taken base 2) n ∧ name = numbered base n

section

variable {taken : List String} {base name : String} {start n : Nat}

/-- A number that does not make the name new leaves the least one that does as it is. -/
theorem isLeast_newNumbers_succ_iff (used : numbered base start ∈ taken) :
    IsLeast (newNumbers taken base (start + 1)) n ↔ IsLeast (newNumbers taken base start) n := by
  have same : newNumbers taken base (start + 1) = newNumbers taken base start := by
    ext m
    refine ⟨fun mem => ⟨Nat.le_of_succ_le mem.1, mem.2⟩, fun mem => ⟨?_, mem.2⟩⟩
    refine Nat.lt_of_le_of_ne mem.1 fun eq => mem.2 ?_
    rwa [← eq]
  rw [same]

/-- The search ends if it can reach the least number that makes the name new, and only there. -/
theorem searchEnds_iff : SearchEnds taken base start name
    ↔ ∃ n, IsLeast (newNumbers taken base start) n ∧ name = numbered base n := by
  constructor
  · intro ends
    induction ends with
    | @new n h => exact ⟨n, ⟨⟨Nat.le_refl n, h⟩, fun m mem => mem.1⟩, rfl⟩
    | used h rest ih =>
      obtain ⟨n, least, same⟩ := ih
      exact ⟨n, (isLeast_newNumbers_succ_iff h).mp least, same⟩
  · rintro ⟨n, least, rfl⟩
    obtain ⟨steps, rfl⟩ := Nat.exists_eq_add_of_le least.1.1
    -- by induction on the number of tries that are still to be made
    induction steps generalizing start with
    | zero => exact .new least.1.2
    | succ steps ih =>
      have used : numbered base start ∈ taken := by
        by_contra new
        have := least.2 ⟨Nat.le_refl start, new⟩
        omega
      rw [← isLeast_newNumbers_succ_iff used] at least
      have next : start + (steps + 1) = start + 1 + steps := by omega
      rw [next] at least ⊢
      exact .used used (ih least)

theorem claimEnds_iff : ClaimEnds taken base name ↔ IsFirstNew taken base name := by
  constructor
  · intro ends
    cases ends with
    | new h => exact .inl ⟨h, rfl⟩
    | used h search => exact .inr ⟨h, searchEnds_iff.mp search⟩
  · rintro (⟨h, rfl⟩ | ⟨h, search⟩)
    · exact .new h
    · exact .used h (searchEnds_iff.mpr search)

theorem IsFirstNew.unique {other : String} (h : IsFirstNew taken base name)
    (h' : IsFirstNew taken base other) : name = other := by
  rcases h with ⟨new, rfl⟩ | ⟨used, n, least, rfl⟩
  · rcases h' with ⟨-, rfl⟩ | ⟨used, -⟩
    · rfl
    · contradiction
  · rcases h' with ⟨new, -⟩ | ⟨-, m, least', rfl⟩
    · contradiction
    · rw [least.unique least']

/-- It does not matter in which order the names in use are looked at. -/
theorem isFirstNew_reverse_iff :
    IsFirstNew taken.reverse base name ↔ IsFirstNew taken base name := by
  simp only [IsFirstNew, newNumbers, List.mem_reverse]

/-- The bounded search for a fresh name finds the least number that makes it new. -/
theorem isFirstNew_freshName (taken : List String) (base : String) :
    IsFirstNew taken base (freshName taken base) := by
  by_cases used : base ∈ taken
  · refine .inr ⟨used, ?_⟩
    have new := freshName_not_mem taken base
    rw [freshName, if_pos used, candidates, List.find?_map] at new ⊢
    cases found : (List.range (taken.length + 1)).find?
        ((fun name => decide (name ∉ taken)) ∘ fun i => numbered base (i + 2)) with
    | none =>
      rw [found] at new
      exact absurd used new
    | some i =>
      obtain ⟨isNew, -, before⟩ := List.find?_range_eq_some.mp found
      refine ⟨i + 2, ⟨⟨Nat.le_add_left 2 i, of_decide_eq_true isNew⟩, fun m mem => ?_⟩, rfl⟩
      -- a lesser number would have been found first
      by_contra lesser
      have known := before (m - 2) (by have := mem.1; omega)
      have : m - 2 + 2 = m := Nat.sub_add_cancel mem.1
      simp [this, mem.2] at known
  · exact .inl ⟨used, if_neg used⟩

theorem claimEnds_iff_eq : ClaimEnds taken base name ↔ name = freshName taken base := by
  have fresh := isFirstNew_freshName taken base
  rw [claimEnds_iff]
  exact ⟨fun h => h.unique fresh, fun same => same ▸ fresh⟩

end

/-! ## All claims -/

theorem claimsEnd_iff {taken bases names : List String} :
    ClaimsEnd taken bases names ↔ names = freshNames taken bases := by
  constructor
  · intro ends
    induction ends with
    | nil => rfl
    | cons first later ih =>
      obtain rfl := claimEnds_iff_eq.mp first
      rw [ih]
      rfl
  · rintro rfl
    induction bases generalizing taken with
    | nil => exact .nil
    | cons base rest ih => exact .cons (claimEnds_iff_eq.mpr rfl) ih

/-- A name is fresh beside those that were taken at first and those that were claimed before it. -/
theorem getElem?_freshNames (taken bases : List String) (k : Nat) :
    (freshNames taken bases)[k]? = bases[k]?.map
      (freshName (((freshNames taken bases).take k).reverse ++ taken)) := by
  induction bases generalizing taken k with
  | nil => rfl
  | cons base rest ih =>
    cases k with
    | zero => rfl
    | succ k =>
      rw [freshNames, List.getElem?_cons_succ, List.getElem?_cons_succ, ih, List.take_succ_cons,
        List.reverse_cons, List.append_assoc, List.singleton_append]

/-- Whatever names are claimed from a new table, the claims end, and with the fresh names only: no
two of them are the same, and each is the first new one beside those given before it. -/
theorem claimsEnd_new (bases : List String) :
    (∀ names, ClaimsEnd [] bases names ↔ names = freshNames [] bases)
    ∧ (freshNames [] bases).Nodup
    ∧ ∀ k : Fin bases.length, IsFirstNew ((freshNames [] bases).take k) (bases.get k)
      ((freshNames [] bases).get (k.cast (length_freshNames [] bases).symm)) := by
  refine ⟨fun names => claimsEnd_iff, nodup_freshNames [] bases, fun k => ?_⟩
  let earlier := (freshNames [] bases).take k
  have given : (freshNames [] bases)[(k : Nat)]?
      = some (freshName earlier.reverse (bases.get k)) := by
    rw [getElem?_freshNames, List.getElem?_eq_getElem k.isLt, List.append_nil]
    rfl
  have same : (freshNames [] bases).get (k.cast (length_freshNames [] bases).symm)
      = freshName earlier.reverse (bases.get k) :=
    (List.getElem?_eq_some_iff.mp given).2
  rw [same, ← isFirstNew_reverse_iff]
  exact isFirstNew_freshName earlier.reverse (bases.get k)

end StrategyCanvas.Code
