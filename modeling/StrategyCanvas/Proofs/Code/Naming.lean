import Mathlib.Data.List.Nodup
import Mathlib.Data.List.Perm.Subperm
import StrategyCanvas.Proofs.Code.Field
import StrategyCanvas.Proofs.Code.Plan

/-!
# Names in plans

A fresh name is the name that was asked for, or that name with a number, and it differs from all
names that are taken. Whatever blocks and their ports and properties are called, the names in plans
are therefore words (`isNamed_of_planBlocks`), and handles, fields and keys are given once each
(`nodup_handles_of_planBlocks`, `nodup_fields_of_planBlocks`, `nodup_keys_of_planBlocks`).
-/

namespace StrategyCanvas.Code

open Text

/-! ## Fresh names -/

section Fresh

variable {taken bases : List String} {base name : String}

/-- A fresh name is the wanted name, or it is numbered. -/
theorem freshName_eq (taken : List String) (base : String) :
    freshName taken base = base ∨ ∃ n, freshName taken base = numbered base n := by
  unfold freshName
  split
  · cases found : (candidates base (taken.length + 1)).find? (· ∉ taken) with
    | none => exact .inl rfl
    | some candidate =>
      obtain ⟨i, -, rfl⟩ := List.mem_map.mp (List.mem_of_find?_eq_some found)
      exact .inr ⟨i + 2, rfl⟩
  · exact .inl rfl

/-- Every one of the fresh names comes from one of the wanted names. -/
theorem exists_of_mem_freshNames (h : name ∈ freshNames taken bases) :
    ∃ base ∈ bases, ∃ known, name = freshName known base := by
  induction bases generalizing taken with
  | nil => contradiction
  | cons base rest ih =>
    rcases List.mem_cons.mp h with rfl | later
    · exact ⟨base, List.mem_cons_self, taken, rfl⟩
    · obtain ⟨other, mem, known, same⟩ := ih later
      exact ⟨other, List.mem_cons_of_mem _ mem, known, same⟩

/-- A number does not make a word into something else. -/
theorem isWord_freshName (h : IsWord base) (taken : List String) :
    IsWord (freshName taken base) := by
  rcases freshName_eq taken base with same | ⟨n, same⟩
  · rwa [same]
  · rw [same, numbered, isWord_append, isWord_append]
    exact ⟨⟨h, by decide⟩, isWord_toString n⟩

/-- A number leaves the front of a name as it is. -/
theorem isFieldName_freshName {letter : Char} (h : IsFieldName letter base) (taken : List String) :
    IsFieldName letter (freshName taken base) := by
  rcases freshName_eq taken base with same | ⟨n, same⟩
  · rwa [same]
  · rw [same]
    exact (h.append (by decide)).append (isWord_toString n)

/-- Different numbers make different names. -/
theorem numbered_injective (base : String) : Function.Injective (numbered base) := by
  intro m n same
  have digits : (toString m).toList = (toString n).toList := by
    simpa [numbered, String.ext_iff] using same
  rw [Nat.toString_eq_ofList_toDigits, Nat.toString_eq_ofList_toDigits] at digits
  have values := congrArg (Nat.ofDigitChars 10 · 0) digits
  simpa [Nat.ofDigitChars_toDigits] using values

/-- More names are tried than there are taken, and no two of them are the same, so that one of them
is new. -/
theorem freshName_not_mem (taken : List String) (base : String) : freshName taken base ∉ taken := by
  unfold freshName
  split
  · cases found : (candidates base (taken.length + 1)).find? (· ∉ taken) with
    | some name => simpa using List.find?_some found
    | none =>
      have known : ∀ name ∈ candidates base (taken.length + 1), name ∈ taken := by
        simpa [List.find?_eq_none] using found
      have distinct : (candidates base (taken.length + 1)).Nodup := by
        refine List.Nodup.map (fun m n same => ?_) List.nodup_range
        simpa using numbered_injective base same
      have few := (distinct.subperm known).length_le
      have many : (candidates base (taken.length + 1)).length = taken.length + 1 := by
        simp [candidates]
      omega
  · assumption

/-- None of the fresh names was taken before. -/
theorem disjoint_freshNames (taken bases : List String) :
    (freshNames taken bases).Disjoint taken := by
  induction bases generalizing taken with
  | nil => exact List.disjoint_nil_left taken
  | cons base rest ih =>
    rw [freshNames, List.disjoint_cons_left]
    exact ⟨freshName_not_mem taken base, List.disjoint_of_disjoint_cons_right (ih _)⟩

/-- No two fresh names are the same. -/
theorem nodup_freshNames (taken bases : List String) : (freshNames taken bases).Nodup := by
  induction bases generalizing taken with
  | nil => exact List.nodup_nil
  | cons base rest ih =>
    rw [freshNames, List.nodup_cons]
    exact ⟨fun mem => disjoint_freshNames _ rest mem List.mem_cons_self, ih _⟩

end Fresh

/-! ## Plans -/

/-- The names of the fields of a plan. -/
def BlockPlan.fields (plan : BlockPlan) : List String :=
  plan.params.map (·.field) ++ plan.outputs.map (·.field)

/-- What a field can ask for: a letter for parameters or outputs, an underscore, and a word. -/
def IsFieldBase (s : String) : Prop := IsFieldName 'p' s ∨ IsFieldName 'o' s

theorem IsFieldBase.exists_letter {s : String} (h : IsFieldBase s) :
    ∃ letter, IsFieldName letter s :=
  h.elim (⟨'p', ·⟩) (⟨'o', ·⟩)

/-- A plan whose names are words, so that they can stand in code. -/
structure BlockPlan.IsNamed (plan : BlockPlan) : Prop where
  handle : IsWord plan.handle
  fields : ∀ f ∈ plan.fields, IsFieldBase f

namespace BlockPlan.IsNamed

variable {plan : BlockPlan}

/-- Every field of a plan has a name with one of the letters in front. -/
theorem exists_letter (h : plan.IsNamed) {f : String} (mem : f ∈ plan.fields) :
    ∃ letter, IsFieldName letter f :=
  (h.fields f mem).exists_letter

/-- The field of a parameter has such a name. -/
theorem exists_param (h : plan.IsNamed) {p : Param} (mem : p ∈ plan.params) :
    ∃ letter, IsFieldName letter p.field :=
  h.exists_letter (List.mem_append_left _ (List.mem_map_of_mem mem))

/-- The field of an output has such a name. -/
theorem exists_output (h : plan.IsNamed) {o : OutputField} (mem : o ∈ plan.outputs) :
    ∃ letter, IsFieldName letter o.field :=
  h.exists_letter (List.mem_append_right _ (List.mem_map_of_mem mem))

theorem isWord_param (h : plan.IsNamed) {p : Param} (mem : p ∈ plan.params) : IsWord p.field :=
  (h.exists_param mem).elim fun _ => (·.isWord)

theorem isWord_output (h : plan.IsNamed) {o : OutputField} (mem : o ∈ plan.outputs) :
    IsWord o.field :=
  (h.exists_output mem).elim fun _ => (·.isWord)

end BlockPlan.IsNamed

/-- How a plan gets its names: each is fresh when it is claimed, and is taken afterwards. -/
structure BlockPlan.Claims (plan : BlockPlan) (claimed claimed' : Claimed) : Prop where
  handle : ∃ base, IsWord base ∧ plan.handle = freshName claimed.handles base
  fields : ∃ bases, (∀ base ∈ bases, IsFieldBase base)
    ∧ plan.fields = freshNames claimed.fields bases
  keys : ∃ bases, plan.params.map (·.key) = freshNames claimed.keys bases
  after : claimed' = ⟨plan.handle :: claimed.handles, plan.fields.reverse ++ claimed.fields,
    (plan.params.map (·.key)).reverse ++ claimed.keys⟩

/-- Whatever is put behind the front part of a field's name, it is a name if all of it are words. -/
theorem isFieldName_base {letter : Char} {front handle : String} (first : IsFieldName letter front)
    (word : IsWord handle) (name : String) :
    IsFieldName letter (front ++ handle ++ "_" ++ slug name) :=
  ((first.append word).append (by decide)).append (isWord_slug name)

/-- The keys and fields that were claimed are those of the parameters, in their order. -/
theorem map_field_paramsOf {settings : List Setting} {keys fields : List String}
    (hkeys : keys.length = settings.length) (hfields : fields.length = settings.length) :
    (paramsOf settings keys fields).map (·.key) = keys
    ∧ (paramsOf settings keys fields).map (·.field) = fields := by
  have pairs : ((settings.zip (keys.zip fields)).map Prod.snd) = keys.zip fields :=
    List.map_snd_zip (by rw [List.length_zip]; omega)
  constructor
  · calc (paramsOf settings keys fields).map (·.key)
        = ((settings.zip (keys.zip fields)).map Prod.snd).map Prod.fst := by
          rw [paramsOf, List.map_map, List.map_map]
          rfl
      _ = keys := by rw [pairs, List.map_fst_zip (by omega)]
  · calc (paramsOf settings keys fields).map (·.field)
        = ((settings.zip (keys.zip fields)).map Prod.snd).map Prod.snd := by
          rw [paramsOf, List.map_map, List.map_map]
          rfl
      _ = fields := by rw [pairs, List.map_snd_zip (by omega)]

/-- The fields that were claimed are those of the outputs, in their order. -/
theorem map_field_outputsOf {ports : List OutputPort} {fields : List String}
    (hfields : fields.length = ports.length) : (outputsOf ports fields).map (·.field) = fields := by
  have names : (outputsOf ports fields).map (·.field) = (ports.zip fields).map Prod.snd := by
    rw [outputsOf, List.map_map]
    rfl
  rw [names, List.map_snd_zip (by omega)]

section

variable {catalog : Catalog} {claimed claimed' : Claimed} {plan : BlockPlan}

/-- The plan of a block claims names that were free, and leaves them taken. -/
theorem claims_of_planBlock {b : Block}
    (h : planBlock catalog claimed b = .ok (plan, claimed')) : plan.Claims claimed claimed' := by
  unfold planBlock at h
  split at h
  · contradiction
  · rename_i type parsed
    dsimp only at h
    split at h
    · contradiction
    · obtain ⟨same, after⟩ := Prod.mk.inj (Except.ok.inj h)
      set handle := freshName claimed.handles (Text.handle b.name)
      set settings := settings (catalog.template? type) b
      set keys := freshNames claimed.keys (settings.map (keyBase b)) with hkeys
      set bases := settings.map (paramFieldBase handle) ++ b.outputs.map (outputFieldBase handle)
        with hbases
      have count : (freshNames claimed.fields bases).length
          = settings.length + b.outputs.length := by
        simp [hbases]
      -- parameters and outputs take their fields from one list of fresh names
      have keyCount : keys.length = settings.length := by simp [hkeys]
      have frontCount : ((freshNames claimed.fields bases).take settings.length).length
          = settings.length := by
        rw [List.length_take]
        omega
      have backCount : ((freshNames claimed.fields bases).drop settings.length).length
          = b.outputs.length := by
        rw [List.length_drop]
        omega
      obtain ⟨keys_eq, front⟩ := map_field_paramsOf keyCount frontCount
      have back := map_field_outputsOf backCount
      have params : plan.params.map (·.key) = keys := by rw [← same, keys_eq]
      have fields : plan.fields = freshNames claimed.fields bases := by
        rw [← same, BlockPlan.fields, front, back, List.take_append_drop]
      have named : plan.handle = handle := by rw [← same]
      refine ⟨⟨_, isWord_handle b.name, named⟩, ⟨bases, ?_, fields⟩, ⟨_, params⟩, ?_⟩
      · have word : IsWord handle := isWord_freshName (isWord_handle b.name) _
        rw [hbases, List.forall_mem_append, List.forall_mem_map, List.forall_mem_map]
        exact ⟨fun s _ => .inl (isFieldName_base ⟨by decide, [], rfl, by simp⟩ word s.name),
          fun p _ => .inr (isFieldName_base ⟨by decide, [], rfl, by simp⟩ word p.name)⟩
      · rw [← after, named, fields, params]

/-- All fields that a plan claims are names of fields. -/
theorem BlockPlan.Claims.isNamed (h : plan.Claims claimed claimed') : plan.IsNamed := by
  obtain ⟨base, word, handle⟩ := h.handle
  obtain ⟨bases, fit, fields⟩ := h.fields
  constructor
  · rw [handle]
    exact isWord_freshName word _
  · intro f mem
    rw [fields] at mem
    obtain ⟨base, known, taken, rfl⟩ := exists_of_mem_freshNames mem
    exact (fit base known).imp (isFieldName_freshName · taken) (isFieldName_freshName · taken)

/-- The fields of a plan differ from each other and from all that were taken. -/
theorem BlockPlan.Claims.fields_new (h : plan.Claims claimed claimed') :
    plan.fields.Nodup ∧ plan.fields.Disjoint claimed.fields := by
  obtain ⟨bases, -, fields⟩ := h.fields
  rw [fields]
  exact ⟨nodup_freshNames _ bases, disjoint_freshNames _ bases⟩

/-- The keys of a plan differ from each other and from all that were taken. -/
theorem BlockPlan.Claims.keys_new (h : plan.Claims claimed claimed') :
    (plan.params.map (·.key)).Nodup ∧ (plan.params.map (·.key)).Disjoint claimed.keys := by
  obtain ⟨bases, keys⟩ := h.keys
  rw [keys]
  exact ⟨nodup_freshNames _ bases, disjoint_freshNames _ bases⟩

/-- The handle of a plan is new. -/
theorem BlockPlan.Claims.handle_new (h : plan.Claims claimed claimed') :
    plan.handle ∉ claimed.handles := by
  obtain ⟨base, -, handle⟩ := h.handle
  rw [handle]
  exact freshName_not_mem _ base

end

/-! ## All blocks -/

section

variable {catalog : Catalog} {claimed : Claimed} {blocks : List Block} {plans : List BlockPlan}

/-- The fields of all plans are names of fields. -/
theorem isNamed_of_planBlocks (h : planBlocks catalog claimed blocks = .ok plans) :
    ∀ plan ∈ plans, plan.IsNamed := by
  induction blocks generalizing claimed plans with
  | nil =>
    obtain rfl := Except.ok.inj h
    simp
  | cons b rest ih =>
    obtain ⟨⟨plan, claimed'⟩, here, h⟩ := bind_eq_ok_iff.mp h
    obtain ⟨plans, there, h⟩ := bind_eq_ok_iff.mp h
    obtain rfl := Except.ok.inj h
    rw [List.forall_mem_cons]
    exact ⟨(claims_of_planBlock here).isNamed, ih there⟩

/-- Names of a kind are distinct, and none of them was taken before, if this holds of every single
plan and each plan takes its own. -/
theorem nodup_of_planBlocks (names : BlockPlan → List String) (taken : Claimed → List String)
    (new : ∀ {plan : BlockPlan} {claimed claimed' : Claimed}, plan.Claims claimed claimed' →
      (names plan).Nodup ∧ (names plan).Disjoint (taken claimed))
    (after : ∀ {plan : BlockPlan} {claimed claimed' : Claimed}, plan.Claims claimed claimed' →
      taken claimed' = (names plan).reverse ++ taken claimed)
    (h : planBlocks catalog claimed blocks = .ok plans) :
    (plans.flatMap names).Nodup ∧ (plans.flatMap names).Disjoint (taken claimed) := by
  induction blocks generalizing claimed plans with
  | nil =>
    obtain rfl := Except.ok.inj h
    simp
  | cons b rest ih =>
    obtain ⟨⟨plan, claimed'⟩, here, h⟩ := bind_eq_ok_iff.mp h
    obtain ⟨plans, there, h⟩ := bind_eq_ok_iff.mp h
    obtain rfl := Except.ok.inj h
    obtain ⟨distinct, apart⟩ := new (claims_of_planBlock here)
    obtain ⟨others, elsewhere⟩ := ih there
    rw [after (claims_of_planBlock here), List.disjoint_append_right] at elsewhere
    rw [List.flatMap_cons, List.nodup_append', List.disjoint_append_left]
    have separate : (plans.flatMap names).Disjoint (names plan) :=
      List.disjoint_reverse_right.mp elsewhere.1
    exact ⟨⟨distinct, others, List.disjoint_symm separate⟩, apart, elsewhere.2⟩

/-- No two fields of all plans have the same name. -/
theorem nodup_fields_of_planBlocks (h : planBlocks catalog claimed blocks = .ok plans) :
    (plans.flatMap (·.fields)).Nodup :=
  (nodup_of_planBlocks BlockPlan.fields Claimed.fields (fun c => c.fields_new)
    (fun c => by rw [c.after]) h).1

/-- No two parameters of all plans have the same key. -/
theorem nodup_keys_of_planBlocks (h : planBlocks catalog claimed blocks = .ok plans) :
    (plans.flatMap fun p => p.params.map (·.key)).Nodup :=
  (nodup_of_planBlocks (fun p => p.params.map (·.key)) Claimed.keys (fun c => c.keys_new)
    (fun c => by rw [c.after]) h).1

/-- No two plans have the same handle. -/
theorem nodup_handles_of_planBlocks (h : planBlocks catalog claimed blocks = .ok plans) :
    (plans.map (·.handle)).Nodup := by
  have handles := (nodup_of_planBlocks (fun p => [p.handle]) Claimed.handles
    (fun c => ⟨List.nodup_singleton _, List.singleton_disjoint.mpr c.handle_new⟩)
    (fun c => by rw [c.after]; rfl) h).1
  rwa [← List.map_eq_flatMap] at handles

end

end StrategyCanvas.Code
