import Mathlib.Data.List.Induction
import StrategyCanvas.Catalog.Indexed
import StrategyCanvas.Proofs.Catalog.Standard

/-!
# What registration leaves

After any series of registrations a catalog holds one template for each registered type, the last
one of it, in the order in which the types were registered first. A catalog with an index holds the
same (`IsExact.toList_register`), because its index stays exact: the place of a type is the one
place in the table where a template of that type stands (`IsExact.register`).
-/

namespace StrategyCanvas

/-- Each type is read from its own tag alone. -/
theorem BlockType.ofTag?_eq_some_iff {tag : String} {type : BlockType} :
    ofTag? tag = some type ↔ type.tag = tag := by
  constructor
  · intro known
    have named : ∀ entry ∈ tags, entry.2.tag = entry.1 := by decide +kernel
    obtain ⟨before, after, split, -⟩ := List.lookup_eq_some_iff.mp known
    exact named (tag, type) (by simp [split])
  · rintro rfl
    exact ofTag?_tag type

/-! ## Series of registrations -/

/-- The types of the templates, in the order of their first registrations. -/
def registeredTypes (ts : List Template) : List BlockType := (ts.map (·.type)).eraseDups

/-- The template of a type that was registered last. -/
def lastOfType? (ts : List Template) (type : BlockType) : Option Template :=
  ts.reverse.find? (·.type = type)

section

variable (ts : List Template) (t : Template) (type : BlockType)

/-- A template of a type that is registered brings no new type. -/
theorem registeredTypes_append_singleton :
    registeredTypes (ts ++ [t]) =
      if t.type ∈ registeredTypes ts then registeredTypes ts
      else registeredTypes ts ++ [t.type] := by
  unfold registeredTypes
  rw [List.map_append, List.map_singleton, List.eraseDups_append]
  by_cases known : t.type ∈ ts.map (·.type)
  · have nothing : [t.type].removeAll (ts.map (·.type)) = [] := by
      simpa [List.removeAll] using known
    rw [nothing, if_pos (List.mem_eraseDups.mpr known), List.eraseDups_nil, List.append_nil]
  · have new : [t.type].removeAll (ts.map (·.type)) = [t.type] := by
      simpa [List.removeAll] using known
    rw [new, if_neg (fun mem => known (List.mem_eraseDups.mp mem))]
    rfl

/-- Every type is listed once. -/
theorem nodup_registeredTypes : (registeredTypes ts).Nodup := by
  induction ts using List.reverseRecOn with
  | nil => exact List.nodup_nil
  | append_singleton ts t ih =>
    rw [registeredTypes_append_singleton]
    split
    · exact ih
    · rename_i new
      simpa using ih.concat new

/-- The template that comes last counts for its own type. -/
theorem lastOfType?_append_singleton :
    lastOfType? (ts ++ [t]) type = if t.type = type then some t else lastOfType? ts type := by
  by_cases same : t.type = type <;> simp [lastOfType?, same]

/-- The last template of a type has no template of that type behind it. -/
theorem lastOfType?_eq_some_iff : lastOfType? ts type = some t ↔
    ∃ before after, ts = before ++ t :: after ∧ t.type = type ∧ ∀ u ∈ after, u.type ≠ type := by
  rw [lastOfType?, List.find?_eq_some_iff_append]
  constructor
  · rintro ⟨same, front, back, split, others⟩
    refine ⟨back.reverse, front.reverse, ?_, of_decide_eq_true same, ?_⟩
    · rw [← List.reverse_reverse ts, split]
      simp
    · intro u mem
      simpa using others u (List.mem_reverse.mp mem)
  · rintro ⟨before, after, rfl, same, others⟩
    refine ⟨decide_eq_true same, after.reverse, before.reverse, by simp, ?_⟩
    intro u mem
    simpa using others u (List.mem_reverse.mp mem)

/-- There is no last template of a type if there is none at all. -/
theorem lastOfType?_eq_none_iff : lastOfType? ts type = none ↔ ∀ t ∈ ts, t.type ≠ type := by
  simp [lastOfType?]

end

/-! ## Lists of templates -/

namespace Catalog

section

variable (t : Template) (us : List Template)

/-- An inserted template is found under its type, and all others as before. -/
theorem find?_insert (type : BlockType) :
    (insert t us).find? (·.type = type)
      = if t.type = type then some t else us.find? (·.type = type) := by
  induction us with
  | nil => by_cases same : t.type = type <;> simp [insert, same]
  | cons u us ih =>
    unfold insert
    split
    · rename_i replaced
      by_cases same : t.type = type <;> simp [same, replaced]
    · rename_i kept
      by_cases here : u.type = type
      · have other : t.type ≠ type := fun same => kept (here.trans same.symm)
        simp [here, other]
      · simp [here, ih]

/-- An inserted template takes the place of the one of its type, or goes to the end. -/
theorem map_type_insert :
    (insert t us).map (·.type) =
      if t.type ∈ us.map (·.type) then us.map (·.type) else us.map (·.type) ++ [t.type] := by
  induction us with
  | nil => rfl
  | cons u us ih =>
    unfold insert
    split
    · rename_i replaced
      simp [replaced]
    · rename_i kept
      have other : t.type ≠ u.type := fun same => kept same.symm
      rw [List.map_cons, ih, List.map_cons]
      by_cases known : t.type ∈ us.map (·.type)
      · rw [if_pos known, if_pos (List.mem_cons_of_mem _ known)]
      · have new : t.type ∉ u.type :: us.map (·.type) :=
          fun mem => (List.mem_cons.mp mem).elim other known
        rw [if_neg known, if_neg new, List.cons_append]

/-- The first template of the type is the one that is replaced. -/
theorem insert_eq_set {place : Nat} (h : us[place]?.map Template.type = some t.type)
    (first : ∀ i < place, us[i]?.map Template.type ≠ some t.type) :
    insert t us = us.set place t := by
  induction us generalizing place with
  | nil => simp at h
  | cons u us ih =>
    unfold insert
    cases place with
    | zero =>
      have same : u.type = t.type := by simpa using h
      rw [if_pos same, List.set_cons_zero]
    | succ place =>
      have other : u.type ≠ t.type := by simpa using first 0 (by omega)
      rw [if_neg other, List.set_cons_succ, ih (by simpa using h)]
      intro i less
      simpa using first (i + 1) (by omega)

/-- A template of a new type goes to the end. -/
theorem insert_eq_append (h : ∀ i : Nat, us[i]?.map Template.type ≠ some t.type) :
    insert t us = us ++ [t] := by
  induction us with
  | nil => rfl
  | cons u us ih =>
    have other : u.type ≠ t.type := by simpa using h 0
    rw [insert, if_neg other, ih fun i => by simpa using h (i + 1), List.cons_append]

end

/-- A catalog has a template of a type exactly if it finds one. -/
theorem hasTemplate_eq (c : Catalog) (type : BlockType) :
    c.hasTemplate type = (c.template? type).isSome := by
  rw [Bool.eq_iff_iff, hasTemplate, template?, List.find?_isSome, List.any_eq_true]

variable (ts : List Template)

theorem ofList_append_singleton (t : Template) : ofList (ts ++ [t]) = (ofList ts).register t := by
  rw [ofList, List.foldl_append]
  rfl

/-- The types are listed in the order of their first templates. -/
theorem map_type_ofList : (ofList ts).templates.map (·.type) = registeredTypes ts := by
  induction ts using List.reverseRecOn with
  | nil => rfl
  | append_singleton ts t ih =>
    rw [ofList_append_singleton, registeredTypes_append_singleton, register, map_type_insert, ih]

/-- Of several templates of a type the last one is found. -/
theorem template?_ofList (type : BlockType) : (ofList ts).template? type = lastOfType? ts type := by
  induction ts using List.reverseRecOn with
  | nil => rfl
  | append_singleton ts t ih =>
    rw [ofList_append_singleton, lastOfType?_append_singleton, ← ih]
    exact find?_insert t _ type

/-- A list of templates with distinct types can be built up from its types again. -/
theorem templates_eq_filterMap {us : List Template} (h : (us.map (·.type)).Nodup) :
    us = (us.map (·.type)).filterMap fun type => us.find? (·.type = type) := by
  have found : ∀ u ∈ us, us.find? (·.type = u.type) = some u := fun u mem =>
    (find?_key_eq_some_iff h).mpr ⟨mem, rfl⟩
  rw [List.filterMap_map]
  exact ((List.filterMap_congr found).trans List.filterMap_some).symm

/-- The templates are the last ones of their types, listed in the order of the first ones. -/
theorem templates_ofList :
    (ofList ts).templates = (registeredTypes ts).filterMap (lastOfType? ts) := by
  have distinct : ((ofList ts).templates.map (·.type)).Nodup := by
    rw [map_type_ofList]
    exact nodup_registeredTypes ts
  rw [templates_eq_filterMap distinct, map_type_ofList]
  exact List.filterMap_congr fun type _ => template?_ofList ts type

end Catalog

/-! ## Exact indices -/

namespace IndexedCatalog

/-- A place belongs to a type exactly if a template of that type stands there. -/
def IsExact (c : IndexedCatalog) : Prop :=
  ∀ type place, c.places[type]? = some place ↔ c.templates[place]?.map Template.type = some type

variable {c : IndexedCatalog}

/-- In an empty catalog the index points nowhere. -/
theorem isExact_empty : empty.IsExact := by
  intro type place
  simp [empty]

/-- No place has the type if the index does not know it. -/
theorem IsExact.type_ne (h : c.IsExact) {type : BlockType} (unknown : c.places[type]? = none)
    (place : Nat) : c.templates[place]?.map Template.type ≠ some type := by
  intro stands
  rw [(h type place).mpr stands] at unknown
  contradiction

/-- Whether a template is replaced or added, the index still points at the template of each type. -/
theorem IsExact.register (h : c.IsExact) (t : Template) : (c.register t).IsExact := by
  intro type place
  unfold IndexedCatalog.register
  split
  · -- the new template has the type of the one in whose place it is put
    rename_i old known
    have stands := (h t.type old).mp known
    have inside : old < c.templates.size := by
      by_contra outside
      simp [Array.getElem?_eq_none (Nat.le_of_not_lt outside)] at stands
    rw [h type place, Array.getElem?_setIfInBounds]
    by_cases here : old = place
    · subst here
      rw [if_pos rfl, if_pos inside, stands, Option.map_some]
    · rw [if_neg here]
  · -- a new type, whose place is the one behind all others
    rename_i unknown
    have new := h.type_ne unknown
    dsimp only
    rw [Std.HashMap.getElem?_insert, Array.getElem?_push]
    by_cases same : t.type = type
    · subst same
      by_cases here : place = c.templates.size
      · simp [here]
      · simp [here, new place, Ne.symm here]
    · rw [if_neg (by simpa using same), h type place]
      by_cases here : place = c.templates.size
      · simp [here, same]
      · rw [if_neg here]

/-- A template is put where a search from the front would put it. -/
theorem IsExact.toList_register (h : c.IsExact) (t : Template) :
    (c.register t).templates.toList = Catalog.insert t c.templates.toList := by
  unfold IndexedCatalog.register
  split
  · rename_i place known
    have stands := (h t.type place).mp known
    rw [Array.toList_setIfInBounds]
    refine (Catalog.insert_eq_set t _ (by simpa using stands) fun i less => ?_).symm
    intro also
    have other := (h t.type i).mpr (by simpa using also)
    rw [known, Option.some.injEq] at other
    omega
  · rename_i unknown
    rw [Array.toList_push]
    exact (Catalog.insert_eq_append t _ fun i => by simpa using h.type_ne unknown i).symm

/-- What the index points at is what a search of the templates finds. -/
theorem IsExact.template?_eq (h : c.IsExact) (distinct : (c.templates.toList.map (·.type)).Nodup)
    (type : BlockType) : c.template? type = c.templates.toList.find? (·.type = type) := by
  unfold template?
  cases known : c.places[type]? with
  | none =>
    refine (List.find?_eq_none.mpr fun u mem same => ?_).symm
    obtain ⟨place, stands⟩ := List.mem_iff_getElem?.mp mem
    refine h.type_ne known place ?_
    rw [← Array.getElem?_toList, stands, Option.map_some, of_decide_eq_true same]
  | some place =>
    obtain ⟨t, stands, same⟩ := Option.map_eq_some_iff.mp ((h type place).mp known)
    have mem : t ∈ c.templates.toList := by
      rw [← Array.getElem?_toList] at stands
      exact List.mem_of_getElem? stands
    rw [(find?_key_eq_some_iff distinct).mpr ⟨mem, same⟩]
    exact stands

/-! ## After a series of registrations -/

variable (ts : List Template)

/-- Templates can be registered in two goes. -/
theorem ofList_append (us : List Template) :
    ofList (ts ++ us) = us.foldl IndexedCatalog.register (ofList ts) :=
  List.foldl_append

/-- The index is exact after any registrations. -/
theorem isExact_ofList : (ofList ts).IsExact := by
  induction ts using List.reverseRecOn with
  | nil => exact isExact_empty
  | append_singleton ts t ih =>
    rw [ofList_append]
    exact ih.register t

/-- The index changes nothing about the templates. -/
theorem toList_ofList : (ofList ts).templates.toList = (Catalog.ofList ts).templates := by
  induction ts using List.reverseRecOn with
  | nil => rfl
  | append_singleton ts t ih =>
    rw [ofList_append, Catalog.ofList_append_singleton, Catalog.register, ← ih]
    exact (isExact_ofList ts).toList_register t

theorem map_type_ofList : (ofList ts).templates.toList.map (·.type) = registeredTypes ts := by
  rw [toList_ofList, Catalog.map_type_ofList]

theorem template?_ofList (type : BlockType) : (ofList ts).template? type = lastOfType? ts type := by
  have distinct : ((ofList ts).templates.toList.map (·.type)).Nodup := by
    rw [map_type_ofList]
    exact nodup_registeredTypes ts
  rw [(isExact_ofList ts).template?_eq distinct, toList_ofList]
  exact Catalog.template?_ofList ts type

/-- There is a template of a type if one has been registered. -/
theorem hasTemplate_ofList (type : BlockType) :
    (ofList ts).hasTemplate type = (lastOfType? ts type).isSome := by
  rw [← template?_ofList, template?, hasTemplate, Std.HashMap.contains_eq_isSome_getElem?]
  cases known : (ofList ts).places[type]? with
  | none => rfl
  | some place =>
    obtain ⟨t, stands, -⟩ := Option.map_eq_some_iff.mp ((isExact_ofList ts type place).mp known)
    simp [stands]

/-- After any series of registrations, also one that continues the standard catalog, there is one
template for each registered type, in the order of the first registrations of the types, namely the
one that was registered last. Looking up by type and by tag finds it, and nothing for other types,
and a category lists those of its templates that are left, in the same order. The index belongs to
exactly the places that are taken, and a catalog without an index gives the same answers. -/
theorem answers_ofList (ts : List Template) :
    let c := ofList ts
    let plain := Catalog.ofList ts
    (c.templates.toList.map (·.type) = registeredTypes ts ∧ (registeredTypes ts).Nodup
      ∧ c.templates.toList = (registeredTypes ts).filterMap (lastOfType? ts))
    ∧ (∀ type t, c.template? type = some t ↔ ∃ before after,
        ts = before ++ t :: after ∧ t.type = type ∧ ∀ u ∈ after, u.type ≠ type)
    ∧ (∀ type, c.template? type = none ↔ ∀ t ∈ ts, t.type ≠ type)
    ∧ (∀ type, c.hasTemplate type = (c.template? type).isSome)
    ∧ (∀ tag t, c.templateForTag? tag = some t
        ↔ ∃ type : BlockType, type.tag = tag ∧ c.template? type = some t)
    ∧ (∀ category, c.byCategory category
        = ((registeredTypes ts).filterMap (lastOfType? ts)).filter (·.category = category))
    ∧ c.IsExact
    ∧ (plain.templates = c.templates.toList ∧ plain.template? = c.template?
      ∧ plain.hasTemplate = c.hasTemplate ∧ plain.templateForTag? = c.templateForTag?
      ∧ plain.byCategory = c.byCategory)
    ∧ ts.foldl register standard = ofList (Catalog.standardTemplates ++ ts) := by
  intro c plain
  have templates : c.templates.toList = (registeredTypes ts).filterMap (lastOfType? ts) := by
    rw [toList_ofList, Catalog.templates_ofList]
  have same : plain.template? = c.template? := by
    funext type
    rw [template?_ofList, Catalog.template?_ofList]
  refine ⟨⟨map_type_ofList ts, nodup_registeredTypes ts, templates⟩, fun type t => ?_,
    fun type => ?_, fun type => ?_, fun tag t => ?_, fun category => ?_, isExact_ofList ts,
    ⟨(toList_ofList ts).symm, same, ?_, ?_, ?_⟩, (ofList_append _ ts).symm⟩
  · rw [template?_ofList, lastOfType?_eq_some_iff]
  · rw [template?_ofList, lastOfType?_eq_none_iff]
  · rw [template?_ofList, hasTemplate_ofList]
  · rw [templateForTag?, Option.bind_eq_some_iff]
    simp only [BlockType.ofTag?_eq_some_iff]
  · rw [byCategory, templates]
  · funext type
    rw [Catalog.hasTemplate_eq, same, template?_ofList, hasTemplate_ofList]
  · funext tag
    rw [Catalog.templateForTag?, same, templateForTag?]
  · funext category
    rw [Catalog.byCategory, byCategory, toList_ofList]

end IndexedCatalog

end StrategyCanvas
