import Mathlib.Data.List.Nodup

/-!
# JSON objects of records

A record is marshalled field by field under fixed names, and a field may be left out when it holds
its zero value.  An object keeps the names, so whatever is left out can be told from what is there:
a record type whose fields have distinct names is determined by its object as soon as every field is
determined by its value.
-/

namespace ChainLab

inductive Json where
  | null
  | bool (value : Bool)
  | num (value : Int)
  | str (value : String)
  | arr (items : List Json)
  | obj (members : List (String × Json))

namespace Json

variable {α : Type}

/-! ## Fields -/

abbrev Field := String × Option Json

def field (name : String) (marshal : α → Json) (value : α) : Field :=
  (name, some (marshal value))

/-- A field that is left out when it holds the zero value (`omitempty`). -/
def omitZero [DecidableEq α] (name : String) (zero : α) (marshal : α → Json) (value : α) : Field :=
  (name, if value = zero then none else some (marshal value))

def pointer (name : String) (marshal : α → Json) (value : Option α) : Field :=
  (name, value.map marshal)

def omitNil (name : String) (marshal : α → Json) (items : List α) : Field :=
  (name, if items.isEmpty then none else some (.arr (items.map marshal)))

def nat (value : Nat) : Json :=
  .num value

def list (marshal : α → Json) (items : List α) : Json :=
  .arr (items.map marshal)

def members (fields : List Field) : List (String × Json) :=
  fields.filterMap fun f => f.2.map fun value => (f.1, value)

def object (fields : List Field) : Json :=
  .obj (members fields)

@[simp] lemma members_none (name : String) (fields : List Field) :
    members ((name, none) :: fields) = members fields := rfl

@[simp] lemma members_some (name : String) (value : Json) (fields : List Field) :
    members ((name, some value) :: fields) = (name, value) :: members fields := rfl

/-! ## Injectivity -/

lemma str_injective : Function.Injective str :=
  fun _ _ h => str.inj h

lemma bool_injective : Function.Injective bool :=
  fun _ _ h => bool.inj h

lemma num_injective : Function.Injective num :=
  fun _ _ h => num.inj h

lemma nat_injective : Function.Injective nat :=
  fun _ _ h => Int.ofNat.inj (num.inj h)

variable {marshal : α → Json} {a b : α} {name : String}

section

variable (h : Function.Injective marshal)

include h

lemma list_injective : Function.Injective (list marshal) :=
  fun _ _ heq => List.map_injective_iff.2 h (arr.inj heq)

lemma field_eq : field name marshal a = field name marshal b ↔ a = b := by
  simp [field, h.eq_iff]

lemma omitZero_eq [DecidableEq α] {zero : α} :
    omitZero name zero marshal a = omitZero name zero marshal b ↔ a = b := by
  constructor
  · intro heq
    have hval := (Prod.mk.inj heq).2
    by_cases ha : a = zero <;> by_cases hb : b = zero
    · exact ha.trans hb.symm
    · simp [ha, hb] at hval
    · simp [ha, hb] at hval
    · simpa [ha, hb, h.eq_iff] using hval
  · exact fun heq => heq ▸ rfl

lemma pointer_eq {a b : Option α} : pointer name marshal a = pointer name marshal b ↔ a = b := by
  simp [pointer, (Option.map_injective h).eq_iff]

lemma omitNil_eq {a b : List α} : omitNil name marshal a = omitNil name marshal b ↔ a = b := by
  constructor
  · intro heq
    have hval := (Prod.mk.inj heq).2
    cases a with
    | nil =>
      cases b with
      | nil => rfl
      | cons y b => simp at hval
    | cons x a =>
      cases b with
      | nil => simp at hval
      | cons y b => exact list_injective h (Option.some.inj hval)
  · exact fun heq => heq ▸ rfl

end

@[simp] lemma field_str {a b : String} :
    field name str a = field name str b ↔ a = b := field_eq str_injective

@[simp] lemma field_num {a b : Int} :
    field name num a = field name num b ↔ a = b := field_eq num_injective

@[simp] lemma field_nat {a b : Nat} :
    field name nat a = field name nat b ↔ a = b := field_eq nat_injective

@[simp] lemma omitZero_str {a b : String} :
    omitZero name "" str a = omitZero name "" str b ↔ a = b := omitZero_eq str_injective

@[simp] lemma omitZero_num {a b : Int} :
    omitZero name 0 num a = omitZero name 0 num b ↔ a = b := omitZero_eq num_injective

@[simp] lemma omitZero_nat {a b : Nat} :
    omitZero name 0 nat a = omitZero name 0 nat b ↔ a = b := omitZero_eq nat_injective

@[simp] lemma omitZero_bool {a b : Bool} :
    omitZero name false bool a = omitZero name false bool b ↔ a = b := omitZero_eq bool_injective

lemma name_mem {fields : List Field} {value : Json} (h : (name, value) ∈ members fields) :
    name ∈ fields.map Prod.fst := by
  obtain ⟨f, hf, hmember⟩ := List.mem_filterMap.1 h
  obtain ⟨_, -, hpair⟩ := Option.map_eq_some_iff.1 hmember
  exact List.mem_map.2 ⟨f, hf, (Prod.mk.inj hpair).1⟩

lemma object_inj {fields fields' : List Field}
    (hnames : fields.map Prod.fst = fields'.map Prod.fst) (hnd : (fields.map Prod.fst).Nodup)
    (heq : object fields = object fields') : fields = fields' := by
  injection heq with heq
  induction fields generalizing fields' with
  | nil => exact (List.map_eq_nil_iff.1 hnames.symm).symm
  | cons f fields ih =>
    cases fields' with
    | nil => cases hnames
    | cons f' fields' =>
      obtain ⟨name, value⟩ := f
      obtain ⟨name', value'⟩ := f'
      obtain ⟨hname, hrest⟩ := List.cons.inj hnames
      obtain ⟨hfresh, hdist⟩ := List.nodup_cons.1 hnd
      change name = name' at hname
      subst hname
      -- A name that only one of the objects has would come again among its later fields.
      cases value with
      | none =>
        cases value' with
        | none => rw [ih hrest hdist heq]
        | some v' =>
          have hmem : (name, v') ∈ members fields := by
            rw [members_none, members_some] at heq
            exact heq ▸ List.mem_cons_self
          exact absurd (name_mem hmem) hfresh
      | some v =>
        cases value' with
        | none =>
          have hmem : (name, v) ∈ members fields' := by
            rw [members_none, members_some] at heq
            exact heq ▸ List.mem_cons_self
          exact absurd (hrest ▸ name_mem hmem) hfresh
        | some v' =>
          obtain ⟨hhead, htail⟩ := List.cons.inj heq
          rw [(Prod.mk.inj hhead).2, ih hrest hdist htail]

/-- The objects of a record type: the names of its fields do not depend on the record, so it is
enough to look at one record to see that they are distinct. -/
lemma object_fields (fields : α → List Field) (sample : α)
    (hnames : ∀ a, (fields a).map Prod.fst = (fields sample).map Prod.fst)
    (hnd : ((fields sample).map Prod.fst).Nodup) (heq : object (fields a) = object (fields b)) :
    fields a = fields b :=
  object_inj ((hnames a).trans (hnames b).symm) (hnames a ▸ hnd) heq

end Json
end ChainLab
