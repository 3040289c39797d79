import StrategyCanvas.Json.Record
import StrategyCanvas.Proofs.Json.Written

/-!
# Decoding what was written

A value with containers nested in each other is decoded wherever a text has room for them. What is
known of the decoder of a part holds in the lists, options and records that the part stands in.
-/

namespace StrategyCanvas.Json

/-- Where a text has room for more than `depth` containers, the value is decoded as `a`. -/
def Reads {α : Type} (decode : Decoder α) (depth : Nat) (v : Json) (a : α) : Prop :=
  ∀ room, depth < room → decode (.text room) (.ofValue v) = .ok a

/-- The text of a legible value is read as what the value is decoded as. -/
theorem decodeText_of_reads {α : Type} {decode : Decoder α} {depth : Nat} {v : Json} {a : α}
    (h : Reads decode depth v a) (shallow : depth < 128) (legible : v.IsLegible) :
    decodeText decode v.pretty = .ok a := by
  rw [decodeText_pretty decode legible]
  exact h 128 shallow

theorem enter_text {room : Nat} (h : 1 < room) :
    (Origin.text room).enter = .ok (.text (room - 1)) := if_neg (by omega)

/-! ## Scalars -/

theorem reads_text (s : String) : Reads .text 0 (.text s) s := fun _ _ => rfl

theorem reads_bool (b : Bool) : Reads .bool 0 (.bool b) b := fun _ _ => rfl

theorem reads_number (x : Float) : Reads .number 0 (.float x) x := fun _ _ => rfl

theorem reads_word32 (n : UInt32) : Reads .word32 0 (.int n.toNat) n := by
  intro room _
  have bound : (n.toNat : Int) < (Nat.pow 2 32 : Nat) := by exact_mod_cast n.toNat_lt
  simp only [Decoder.word32, Outline.ofValue, Decoder.natural]
  rw [if_pos ⟨Int.natCast_nonneg _, bound⟩]
  simp [Except.map]

/-! ## Options and lists -/

section

variable {α : Type} {decode : Decoder α} {encode : α → Json} {depth : Nat}

/-- A value that may be absent is read, as no value is written like an absent one. -/
theorem reads_option (x : Option α) (h : ∀ a ∈ x, Reads decode depth (encode a) a)
    (solid : ∀ a ∈ x, encode a ≠ .null) : Reads (.option decode) depth (option encode x) x := by
  intro room enough
  cases x with
  | none => rfl
  | some a =>
    have outline : Outline.ofValue (encode a) ≠ .null := by
      have value := solid a rfl
      unfold Outline.ofValue
      split <;> simp_all
    rw [option, Decoder.option, h a rfl room enough]
    · rfl
    · exact outline

theorem items_ofItems {o : Origin} {as : List α}
    (h : ∀ a ∈ as, decode o (.ofValue (encode a)) = .ok a) :
    Decoder.items decode o (Outline.ofItems (as.map encode)) = .ok as := by
  induction as with
  | nil => rfl
  | cons a as ih =>
    rw [List.forall_mem_cons] at h
    simp only [List.map_cons, Outline.ofItems, Decoder.items, h.1, ih h.2]
    rfl

/-- A list is read item by item, one level deeper. -/
theorem reads_list (as : List α) (h : ∀ a ∈ as, Reads decode depth (encode a) a) :
    Reads (.list decode) (depth + 1) (.list (as.map encode)) as := by
  intro room enough
  have read := items_ofItems (o := .text (room - 1)) fun a mem => h a mem (room - 1) (by omega)
  simp only [Decoder.list, Outline.ofValue, enter_text (show 1 < room by omega), bind, Except.bind,
    read, check]

end

/-! ## Records -/

namespace Record

variable {T : Type} {r : Record T} {depth : Nat} {members more : List (String × Json)} {t u w : T}

/-- Members that are fields of a record, one after the other, take the record from `t` to `u`. -/
inductive Sets (r : Record T) (depth : Nat) : List (String × Json) → T → T → Prop
  | nil (t : T) : Sets r depth [] t t
  | cons {α : Type} {name : String} {presence : Presence} {decode : Decoder α} {update : α → T → T}
      {d : Nat} {v : Json} {a : α} {members : List (String × Json)} {t u : T}
      (field : (r.fields.find? fun f => f.name = name) = some (.of name presence decode update))
      (read : Reads decode d v a) (shallow : d ≤ depth)
      (more : Sets r depth members (update a t) u) :
      Sets r depth ((name, v) :: members) t u

theorem Sets.append (h : Sets r depth members t u) (h' : Sets r depth more u w) :
    Sets r depth (members ++ more) t w := by
  induction h with
  | nil => exact h'
  | cons field read shallow _ ih => exact .cons field read shallow (ih h')

/-- An optional member that is left out leaves a field as it was. -/
theorem sets_optionalMember {α : Type} {name : String} {presence : Presence} {decode : Decoder α}
    {encode : α → Json} {update : Option α → T → T} {d : Nat} {x : Option α}
    (field : (r.fields.find? fun f => f.name = name)
      = some (.of name presence (.option decode) update))
    (read : Reads (.option decode) d (option encode x) x) (shallow : d ≤ depth)
    (absent : update none t = t) :
    Sets r depth (optionalMember name encode x) t (update x t) := by
  cases x with
  | none =>
    rw [absent]
    exact .nil t
  | some a => exact .cons field read shallow (.nil _)

/-- Members with distinct names are set one after the other. -/
theorem setMembers_of_sets (h : Sets r depth members t u) {seen : List String}
    (fresh : (members.map Prod.fst).Disjoint seen) (distinct : (members.map Prod.fst).Nodup)
    {room : Nat} (enough : depth < room) :
    r.setMembers (.text room) (Outline.ofMembers members) seen t
      = .ok ((members.map Prod.fst).reverse ++ seen, u) := by
  induction h generalizing seen with
  | nil => rfl
  | @cons _ name _ _ _ _ v _ members t _ field read shallow _ ih =>
    rw [List.map_cons, List.nodup_cons] at distinct
    rw [List.map_cons, List.disjoint_cons_left] at fresh
    have others : (members.map Prod.fst).Disjoint (name :: seen) :=
      List.disjoint_cons_right.mpr ⟨distinct.1, fresh.2⟩
    have new : seen.contains name = false := by simpa using fresh.1
    rw [Outline.ofMembers, setMembers, field]
    simp only [new, RecordField.of, read room (by omega), Except.map, bind, Except.bind]
    rw [if_neg (by simp), ih others distinct.2]
    simp

/-- A record is read back from its members: no two of one name, and none missing. -/
theorem reads_object (h : Sets r depth members r.blank t)
    (distinct : (members.map Prod.fst).Nodup)
    (complete : ∀ f ∈ r.fields, f.presence = .required → f.name ∈ members.map Prod.fst) :
    Reads r.decode (depth + 1) (.object members) t := by
  intro room enough
  have all := setMembers_of_sets h (List.disjoint_nil_right _) distinct
    (show depth < room - 1 by omega)
  have present : r.firstMissing ((members.map Prod.fst).reverse ++ []) = none := by
    simp only [firstMissing, Option.map_eq_none_iff, List.find?_eq_none]
    intro f mem
    simpa using complete f mem
  simp only [decode, Outline.ofValue, enter_text (show 1 < room by omega), bind, Except.bind,
    all, check, present]

end Record

end StrategyCanvas.Json
