import Wordcode.Proofs.Literal.Datum
import Wordcode.Proofs.Literal.Runs

/-! # Equality of values

A vector equals itself without a look at its elements, so a vector with a not-a-number in it equals itself
and no vector that is made like it. Identities still mean what they should: of the values that registers reach, two
with one identity are one object (`Registers.run_coherent`). Among such values equality is symmetric
(`Value.eqv_comm`) and transitive (`Value.eqv_trans`), whatever they share, and without a not-a-number it is the
equality of what they contain (`Value.eqv_eq_datum_eqv`). -/

namespace Wordcode

namespace Double

theorem eqv_comm (x y : Double) : x.eqv y = y.eqv x := by
  cases x with
  | nan => cases y <;> rfl
  | signed s r =>
    cases y with
    | nan => rfl
    | signed t q =>
      rw [Bool.eq_iff_iff]
      simp only [eqv, Bool.and_eq_true, Bool.or_eq_true, beq_iff_eq]
      constructor
      · rintro ⟨rfl, hsign⟩
        exact ⟨rfl, hsign.imp_left Eq.symm⟩
      · rintro ⟨rfl, hsign⟩
        exact ⟨rfl, hsign.imp_left Eq.symm⟩

theorem eqv_trans {x y z : Double} (hxy : x.eqv y = true) (hyz : y.eqv z = true) : x.eqv z = true := by
  cases x <;> cases y <;> cases z <;> simp only [eqv, Bool.and_eq_true, Bool.or_eq_true, beq_iff_eq,
    Bool.false_eq_true] at hxy hyz ⊢
  obtain ⟨rfl, hxy⟩ := hxy
  obtain ⟨rfl, hyz⟩ := hyz
  refine ⟨rfl, ?_⟩
  rcases hxy with rfl | hzero
  · exact hyz
  · exact .inr hzero

end Double

namespace Literal

/-! ### Contents -/

namespace Datum

mutual

/-- Equality of data, part by part: numbers and texts by what they are, vectors by their types and elements. -/
def eqv : Datum → Datum → Bool
  | nil, nil => true
  | int a, int b => a == b
  | float a, float b => a.eqv b
  | string a, string b => a == b
  | vector t as, vector u bs => t == u && eqvAll as bs
  | _, _ => false

/-- Equality of data, one by one. -/
def eqvAll : List Datum → List Datum → Bool
  | [], [] => true
  | a :: as, b :: bs => a.eqv b && eqvAll as bs
  | _, _ => false

end

/-- No part is a not-a-number. -/
def Numerical (datum : Datum) : Prop := ∀ part ∈ datum.parts, part ≠ .float .nan

mutual

theorem eqv_self : ∀ {a : Datum}, a.Numerical → a.eqv a = true
  | nil, _ => rfl
  | int _, _ => beq_self_eq_true _
  | string _, _ => beq_self_eq_true _
  | float x, hn => Double.eqv_self fun hx => hn (float x) (mem_parts_self _) (by rw [hx])
  | vector t as, hn => by
    rw [eqv, beq_self_eq_true, eqvAll_self (forall_parts_vector.mp hn).2]
    rfl

theorem eqvAll_self : ∀ {as : List Datum}, (∀ a ∈ as, a.Numerical) → eqvAll as as = true
  | [], _ => rfl
  | a :: as, hn => by
    rw [List.forall_mem_cons] at hn
    rw [eqvAll, eqv_self hn.1, eqvAll_self hn.2]
    rfl

end

end Datum

/-- Two parts of the values with one identity are one object. -/
def Coherent (values : List Value) : Prop :=
  ∀ v ∈ Value.partsOfAll values, ∀ w ∈ Value.partsOfAll values,
    v.objectId? ≠ none → v.objectId? = w.objectId? → v = w

namespace Registers

/-- **Registers reach one object for each identity**, after any run. -/
theorem run_coherent (operations : List Operation) : Coherent (run operations).held := by
  intro v hv w hw hobject hsame
  obtain ⟨n, h⟩ := run_inOrder operations
  have hbalanced := h.balanced
  have hmem {u : Value} (hu : u ∈ Value.partsOfAll (run operations).held) (hne : u.objectId? ≠ none) :
      u ∈ (run operations).objects := (hbalanced.reached u).mpr ⟨hne, Value.mem_partsOfAll.mp hu⟩
  have hsymm : Std.Symm fun v w : Value => v.objectId? ≠ w.objectId? := ⟨fun _ _ => Ne.symm⟩
  by_contra hne
  exact hbalanced.distinct.forall (hmem hv hobject) (hmem hw (hsame ▸ hobject)) hne hsame

theorem get_copy {r r' : Registers} {source name : String} (h : r.copy source name = .ok r') :
    ∃ value, r.get source = .ok value ∧ r'.get name = .ok value := by
  unfold copy at h
  cases hvalue : r.get source with
  | error fault =>
    rw [hvalue] at h
    cases h
  | ok value =>
    rw [hvalue] at h
    cases h
    refine ⟨value, rfl, ?_⟩
    simp [putShared, put, get]

end Registers

namespace Value

variable {values : List Value}

theorem mem_partsOfAll_of_mem_elements {u w : Value} (hw : w ∈ partsOfAll values) (hu : u ∈ w.elements) :
    u ∈ partsOfAll values := by
  obtain ⟨v, hv, hwv⟩ := mem_partsOfAll.mp hw
  exact mem_partsOfAll.mpr ⟨v, hv, mem_parts_of_mem_elements hu v hwv⟩

/-! ### Symmetry -/

mutual

/-- **Equality is symmetric.** -/
theorem eqv_comm : ∀ a b : Value, a.eqv b = b.eqv a
  | vector i t as, vector j u bs => by
    simp only [eqv]
    rw [eqvAll_comm as bs, Bool.beq_comm (a := i), Bool.beq_comm (a := t)]
  | int x, int y => Bool.beq_comm
  | string _ x, string _ y => Bool.beq_comm
  | float x, float y => x.eqv_comm y
  | nil, b => by cases b <;> rfl
  | int x, nil | int x, float _ | int x, string .. | int x, vector .. => rfl
  | float x, nil | float x, int _ | float x, string .. | float x, vector .. => rfl
  | string .., nil | string .., int _ | string .., float _ | string .., vector .. => rfl
  | vector .., nil | vector .., int _ | vector .., float _ | vector .., string .. => rfl

theorem eqvAll_comm : ∀ as bs : List Value, eqvAll as bs = eqvAll bs as
  | [], [] | [], _ :: _ | _ :: _, [] => rfl
  | a :: as, b :: bs => by rw [eqvAll, eqvAll, eqv_comm a b, eqvAll_comm as bs]

end

/-! ### Transitivity -/

/-- A vector is equal to what is one object with it, or else has its type and equal elements. -/
theorem eqv_vector_cases (h : Coherent values) {a : Value} {j : ObjectId} {u : TypeIndex} {bs : List Value}
    (ha : a ∈ partsOfAll values) (hb : vector j u bs ∈ partsOfAll values)
    (hab : a.eqv (vector j u bs) = true) :
    a = vector j u bs ∨ ∃ i as, a = vector i u as ∧ eqvAll as bs = true := by
  cases a with
  | vector i t as =>
    simp only [eqv, Bool.or_eq_true, Bool.and_eq_true, beq_iff_eq] at hab
    rcases hab with rfl | ⟨rfl, hall⟩
    · exact .inl (h _ ha _ hb (by simp [objectId?]) rfl)
    · exact .inr ⟨i, as, rfl, hall⟩
  | _ => cases hab

mutual

/-- **Equality is transitive**: a shortcut leads from an object to itself. -/
theorem eqv_trans (h : Coherent values) : ∀ {a b c : Value}, a ∈ partsOfAll values →
    b ∈ partsOfAll values → c ∈ partsOfAll values → a.eqv b = true → b.eqv c = true → a.eqv c = true
  | a, vector j u bs, c, ha, hb, hc, hab, hbc => by
    rcases eqv_vector_cases h ha hb hab with rfl | ⟨i, as, rfl, has⟩
    · exact hbc
    rw [eqv_comm] at hbc
    rcases eqv_vector_cases h hc hb hbc with rfl | ⟨k, cs, rfl, hcs⟩
    · exact hab
    rw [eqvAll_comm] at hcs
    have hall : eqvAll as cs = true :=
      eqvAll_trans h (fun _ he => mem_partsOfAll_of_mem_elements ha he)
        (fun _ he => mem_partsOfAll_of_mem_elements hb he)
        (fun _ he => mem_partsOfAll_of_mem_elements hc he) has hcs
    simp [eqv, hall]
  | a, nil, c, _, _, _, hab, hbc => by cases a <;> cases hab; exact hbc
  | a, int y, c, _, _, _, hab, hbc => by
    cases a <;> simp only [eqv, beq_iff_eq, Bool.false_eq_true] at hab
    rwa [hab]
  | a, float y, c, _, _, _, hab, hbc => by
    cases a <;> cases c <;> simp only [eqv, Bool.false_eq_true] at hab hbc ⊢
    exact Double.eqv_trans hab hbc
  | a, string j y, c, _, _, _, hab, hbc => by
    cases a <;> cases c <;> simp only [eqv, beq_iff_eq, Bool.false_eq_true] at hab hbc ⊢
    exact hab.trans hbc

theorem eqvAll_trans (h : Coherent values) : ∀ {as bs cs : List Value},
    (∀ a ∈ as, a ∈ partsOfAll values) → (∀ b ∈ bs, b ∈ partsOfAll values) →
      (∀ c ∈ cs, c ∈ partsOfAll values) → eqvAll as bs = true → eqvAll bs cs = true →
        eqvAll as cs = true
  | [], [], _, _, _, _, _, h' => h'
  | [], _ :: _, _, _, _, _, h', _ => by cases h'
  | _ :: _, [], _, _, _, _, h', _ => by cases h'
  | _ :: _, _ :: _, [], _, _, _, _, h' => by cases h'
  | a :: as, b :: bs, c :: cs, ha, hb, hc, hab, hbc => by
    rw [List.forall_mem_cons] at ha hb hc
    simp only [eqvAll, Bool.and_eq_true] at hab hbc ⊢
    exact ⟨eqv_trans h ha.1 hb.1 hc.1 hab.1 hbc.1, eqvAll_trans h ha.2 hb.2 hc.2 hab.2 hbc.2⟩

end

/-! ### Values without not-a-numbers -/

mutual

/-- **Without a not-a-number** equality is that of the contents. -/
theorem eqv_eq_datum_eqv (h : Coherent values) : ∀ {a b : Value}, a ∈ partsOfAll values →
    b ∈ partsOfAll values → a.datum.Numerical → a.eqv b = a.datum.eqv b.datum
  | vector i t as, vector j u bs, ha, hb, hn => by
    by_cases hid : i = j
    · -- one object, and its contents are equal to themselves
      have hsame : vector i t as = vector j u bs :=
        h _ ha _ hb (by simp [objectId?]) (congrArg some hid)
      rw [← hsame, Datum.eqv_self hn]
      simp [eqv]
    · have hall : eqvAll as bs = Datum.eqvAll (data as) (data bs) :=
        eqvAll_eq_data_eqvAll h (fun _ he => mem_partsOfAll_of_mem_elements ha he)
          (fun _ he => mem_partsOfAll_of_mem_elements hb he) (Datum.forall_parts_vector.mp hn).2
      simp [eqv, hid, datum, Datum.eqv, hall]
  | int _, int _, _, _, _ | float _, float _, _, _, _ | string .., string .., _, _, _ => rfl
  | nil, b, _, _, _ => by cases b <;> rfl
  | int _, nil, _, _, _ | int _, float _, _, _, _ | int _, string .., _, _, _ | int _, vector .., _, _, _ => rfl
  | float _, nil, _, _, _ | float _, int _, _, _, _ | float _, string .., _, _, _
  | float _, vector .., _, _, _ => rfl
  | string .., nil, _, _, _ | string .., int _, _, _, _ | string .., float _, _, _, _
  | string .., vector .., _, _, _ => rfl
  | vector .., nil, _, _, _ | vector .., int _, _, _, _ | vector .., float _, _, _, _
  | vector .., string .., _, _, _ => rfl

theorem eqvAll_eq_data_eqvAll (h : Coherent values) : ∀ {as bs : List Value},
    (∀ a ∈ as, a ∈ partsOfAll values) → (∀ b ∈ bs, b ∈ partsOfAll values) →
      (∀ d ∈ data as, d.Numerical) → eqvAll as bs = Datum.eqvAll (data as) (data bs)
  | [], [], _, _, _ | [], _ :: _, _, _, _ | _ :: _, [], _, _, _ => rfl
  | a :: as, b :: bs, ha, hb, hn => by
    rw [List.forall_mem_cons] at ha hb
    rw [data, List.forall_mem_cons] at hn
    rw [eqvAll, data, data, Datum.eqvAll, eqv_eq_datum_eqv h ha.1 hb.1 hn.1,
      eqvAll_eq_data_eqvAll h ha.2 hb.2 hn.2]

end

theorem eqv_self_iff (a : Value) : a.eqv a = true ↔ a ≠ .float .nan := by
  cases a with
  | float x => cases x <;> simp [eqv, Double.eqv]
  | _ => simp [eqv]

/-- **Equality of values** is symmetric and transitive, among parts of any values in which an identity stands for one
object, as it does in registers after any run. A value equals its copy unless it is a not-a-number itself. Without
a not-a-number equality is that of the contents, whatever is shared. -/
theorem eqv_partial_equivalence :
    (∀ operations, Coherent (Registers.run operations).held) ∧
    (∀ (r r' : Registers) (source name : String), r.copy source name = .ok r' →
      ∃ value, r.get source = .ok value ∧ r'.get name = .ok value) ∧
    ∀ values, Coherent values →
      ∀ a ∈ partsOfAll values, ∀ b ∈ partsOfAll values, ∀ c ∈ partsOfAll values,
        a.eqv b = b.eqv a ∧ (a.eqv b = true → b.eqv c = true → a.eqv c = true) ∧
        (a.eqv a = true ↔ a ≠ .float .nan) ∧
        (a.datum.Numerical → b.datum.Numerical → a.eqv b = a.datum.eqv b.datum) :=
  ⟨Registers.run_coherent, fun _ _ _ _ => Registers.get_copy, fun _ h a ha b hb _ hc =>
    ⟨eqv_comm a b, eqv_trans h ha hb hc, eqv_self_iff a, fun hn _ => eqv_eq_datum_eqv h ha hb hn⟩⟩

/-- Three vectors around one vector with a not-a-number: the first and the last are equal since the second is equal
to both, in each case by the shortcut one level down. -/
theorem eqv_partial_equivalence_shared :
    let shared := vector ⟨0⟩ .vectorAny [.float .nan]
    let around (n : Nat) := vector ⟨n⟩ .vectorAny [.int 1, shared]
    Coherent [around 1, around 2, around 3] ∧ (around 1).eqv (around 2) = true ∧
      (around 2).eqv (around 3) = true ∧ (around 1).eqv (around 3) = true := by
  intro shared around
  have hcoherent : Coherent [around 1, around 2, around 3] := by
    intro v hv w hw hobject hsame
    simp only [partsOfAll, parts, around, shared, List.append_nil, List.cons_append, List.nil_append,
      List.mem_cons, List.not_mem_nil, or_false] at hv hw
    rcases hv with rfl | rfl | rfl | rfl | rfl | rfl | rfl | rfl | rfl | rfl | rfl | rfl <;>
      rcases hw with rfl | rfl | rfl | rfl | rfl | rfl | rfl | rfl | rfl | rfl | rfl | rfl <;>
        simp_all [objectId?]
  have hmem (n : Nat) (hn : around n ∈ [around 1, around 2, around 3]) :
      around n ∈ partsOfAll [around 1, around 2, around 3] := mem_partsOfAll.mpr ⟨_, hn, mem_parts_self _⟩
  have hchain := (eqv_partial_equivalence.2.2 _ hcoherent _ (hmem 1 (by simp)) _ (hmem 2 (by simp)) _
    (hmem 3 (by simp))).2.1
  exact ⟨hcoherent, by decide, by decide, hchain (by decide) (by decide)⟩

/-- A vector with a not-a-number equals itself, and not one that is made like it. -/
example : (vector ⟨0⟩ .vectorAny [.float .nan]).eqv (vector ⟨0⟩ .vectorAny [.float .nan]) = true ∧
    (vector ⟨0⟩ .vectorAny [.float .nan]).eqv (vector ⟨1⟩ .vectorAny [.float .nan]) = false := by decide

end Value

end Literal

end Wordcode
