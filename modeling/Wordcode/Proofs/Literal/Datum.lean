import Wordcode.Literal.Value

/-! # Data

A datum is a value without the identities of its objects: what is left of a value when only its contents
count. Values with the same datum are equal by contents, unless a not-a-number is among them
(`eqv_of_datum_eq`). -/

namespace Wordcode

theorem Double.eqv_self {x : Double} (h : x ≠ .nan) : x.eqv x = true := by
  cases x with
  | nan => exact absurd rfl h
  | signed negative rank => simp [Double.eqv]

theorem Double.neg_ne_nan {x : Double} (h : x ≠ .nan) : x.neg ≠ .nan := by
  cases x with
  | nan => exact absurd rfl h
  | signed negative rank => exact Double.noConfusion

namespace Literal

/-- A value without identities. -/
inductive Datum
  | nil
  | int (value : Int64)
  | float (value : Double)
  | string (text : String)
  | vector (type : TypeIndex) (elements : List Datum)

namespace Datum

/-- The kind of a datum; structs are vectors. -/
def kind : Datum → TypeKind
  | nil => .nil
  | int _ => .int
  | float _ => .float
  | string _ => .string
  | vector .. => .vector

/-- The number of opposite sign; the least integer stays as it is. -/
def negate? : Datum → Option Datum
  | int value => some (int (-value))
  | float value => some (float value.neg)
  | _ => none

mutual

/-- The data a datum is built of, itself included. -/
def parts : Datum → List Datum
  | vector type elements => vector type elements :: partsOfAll elements
  | datum => [datum]

/-- The parts of each of the data. -/
def partsOfAll : List Datum → List Datum
  | [] => []
  | datum :: data => parts datum ++ partsOfAll data

end

theorem mem_parts_self : ∀ datum : Datum, datum ∈ datum.parts
  | nil | int _ | float _ | string _ | vector .. => by simp [parts]

theorem mem_partsOfAll {part : Datum} : ∀ {data : List Datum},
    part ∈ partsOfAll data ↔ ∃ datum ∈ data, part ∈ datum.parts
  | [] => by simp [partsOfAll]
  | datum :: data => by simp [partsOfAll, mem_partsOfAll]

theorem forall_parts_vector {p : Datum → Prop} {type : TypeIndex} {elements : List Datum} :
    (∀ part ∈ (vector type elements).parts, p part) ↔
      p (vector type elements) ∧ ∀ element ∈ elements, ∀ part ∈ element.parts, p part := by
  simp only [parts, List.forall_mem_cons, mem_partsOfAll]
  exact and_congr_right fun _ => ⟨fun h e he part hp => h part ⟨e, he, hp⟩,
    fun h part ⟨e, he, hp⟩ => h e he part hp⟩

end Datum

namespace Value

mutual

/-- The contents of a value. -/
def datum : Value → Datum
  | nil => .nil
  | int value => .int value
  | float value => .float value
  | string _ text => .string text
  | vector _ type elements => .vector type (data elements)

/-- The contents of each of the values. -/
def data : List Value → List Datum
  | [] => []
  | value :: values => datum value :: data values

end

theorem data_eq_map : ∀ values : List Value, data values = values.map datum
  | [] => rfl
  | value :: values => by rw [data, data_eq_map values, List.map_cons]

theorem negate?_datum : ∀ value : Value, value.datum.negate? = value.negate?.map datum
  | nil | int _ | float _ | string .. | vector .. => rfl

/-! ### Equality of contents -/

mutual

/-- **Values of one datum are equal**, unless a not-a-number is among its parts. -/
theorem eqv_of_datum_eq : ∀ {a b : Value}, a.datum = b.datum →
    (∀ part ∈ a.datum.parts, part ≠ .float .nan) → a.eqv b = true
  | nil, b, h, _ => by cases b <;> simp [datum] at h; rfl
  | int x, b, h, _ => by cases b <;> simp [datum] at h; simp [eqv, h]
  | float x, b, h, hn => by
    cases b <;> simp [datum] at h
    subst h
    exact Double.eqv_self fun hx => hn _ (Datum.mem_parts_self _) (by rw [hx]; rfl)
  | string i s, b, h, _ => by cases b <;> simp [datum] at h; simp [eqv, h]
  | vector i t as, b, h, hn => by
    cases b <;> simp [datum] at h
    obtain ⟨rfl, h⟩ := h
    rw [datum, Datum.forall_parts_vector] at hn
    simp [eqv, eqvAll_of_data_eq h hn.2]

theorem eqvAll_of_data_eq : ∀ {as bs : List Value}, data as = data bs →
    (∀ d ∈ data as, ∀ part ∈ d.parts, part ≠ .float .nan) → eqvAll as bs = true
  | [], bs, h, _ => by cases bs <;> simp [data] at h; rfl
  | a :: as, bs, h, hn => by
    cases bs <;> simp [data] at h
    rw [data, List.forall_mem_cons] at hn
    simp [eqvAll, eqv_of_datum_eq h.1 hn.1, eqvAll_of_data_eq h.2 hn.2]

end

end Value

end Literal

end Wordcode
