import Wordcode.Module.Verify
import Wordcode.Proofs.Walk

/-! # Valid modules

What verification asks of a module, said without the order in which it looks: every index in a table
or in the code is one of an entry that exists, and the code is whole instructions from its start to its
end (`Module.Valid`). Verification accepts exactly the valid modules (`verify_ok_iff_valid`). Each check
of a table has a lemma of its own; that of the code goes through the splitting of the stream
(`Walk.fault?_eq_none_iff_splits`). -/

namespace Wordcode

open Instruction (decode)

/-! ### Streams of whole instructions -/

namespace Walk

/-- The stream from an offset on is these instructions, each starting where the one before it ends and
the last one ending with the stream. -/
inductive Splits (code : List Word) : Nat → List Located → Prop
  | finished : Splits code code.length []
  | next {p : Nat} {i : Instruction} {c : Cursor} {rest : List Located}
    (decoded : decode (.at code p) = .ok i c) (splits : Splits code c.pos rest) :
    Splits code p (⟨p, i, c.pos⟩ :: rest)

variable {code : List Word} {p : Nat} {instructions : List Located}

theorem Splits.within_eq (h : Splits code p instructions) : ∀ bound, code.length ≤ p + bound →
    within bound (.at code p) = ⟨instructions, .finished code.length⟩ := by
  induction h with
  | finished => exact fun bound _ => within_end (Nat.le_refl _) bound
  | @next p i c rest decoded splits ih =>
    intro bound hbound
    obtain ⟨hlt, hle, -⟩ := decode_ok decoded
    obtain ⟨bound, rfl⟩ : ∃ n, bound = n + 1 := ⟨bound - 1, by omega⟩
    rw [within_ok decoded, ih bound (by omega)]

/-- A walk without a fault splits the stream, since it goes on until no word is left. -/
theorem splits_of_fault?_eq_none : ∀ (bound : Nat) {p : Nat}, p ≤ code.length →
    code.length ≤ p + bound → (within bound (.at code p)).fault? = none →
      Splits code p (within bound (.at code p)).instructions
  | 0, p, hp, hbound, _ => by
    obtain rfl : p = code.length := Nat.le_antisymm hp hbound
    exact .finished
  | bound + 1, p, hp, hbound, hfault => by
    rcases Nat.lt_or_eq_of_le hp with hlt | rfl
    · cases hd : decode (.at code p) with
      | error fault c => rw [within_error hlt hd] at hfault; cases hfault
      | ok i c =>
        obtain ⟨hpos, hle, -⟩ := decode_ok hd
        rw [within_ok hd] at hfault ⊢
        exact .next hd (splits_of_fault?_eq_none bound hle (by omega) hfault)
    · rw [within_end (Nat.le_refl _)]
      exact .finished

/-- **A walk ends without a fault** exactly if the stream splits into instructions, which are those it
visits. -/
theorem fault?_eq_none_iff_splits :
    (ofCode code 0).fault? = none ↔ Splits code 0 (ofCode code 0).instructions := by
  constructor
  · exact splits_of_fault?_eq_none _ (Nat.zero_le _) (by omega)
  · intro h
    rw [ofCode, h.within_eq code.length (by omega)]
    rfl

theorem Splits.eq_instructions (h : Splits code 0 instructions) :
    instructions = (ofCode code 0).instructions := by
  rw [ofCode, h.within_eq code.length (by omega)]

end Walk

namespace Module

variable {m : Module} {natives : Option NativeRegistry}

/-! ### Validity -/

/-- A descriptor is of a kind without contents, or its indices are in their tables; a struct has one
type for each of its fields. -/
def DescriptorValid (m : Module) : TypeDescriptor → Prop
  | .scalar kind => kind ≠ .vector ∧ kind ≠ .struct
  | .vector element => element.toNat < m.types.size
  | .struct id fields => ∃ info, m.structs[id.toNat]? = some info ∧
      fields.length = info.fields.length ∧ ∀ field ∈ fields, field.toNat < m.types.size

/-- A specialized identifier names an identifier and a type that exist. -/
def SpecIdentValid (m : Module) (spec : SpecIdent) : Prop :=
  spec.ident.toNat < m.idents.size ∧ spec.type.toNat < m.types.size

/-- What an instruction refers to exists; native functions are looked up only in a given registry. -/
def OperandsValid (m : Module) (natives : Option NativeRegistry) : Instruction → Prop
  | .call _ _ function _ _ => function.toNat < m.functions.size
  | .ret function _ _ => 0 ≤ function → function.toInt < m.functions.size
  | .ident _ _ spec => spec.toNat < m.specIdents.size
  | .prologue params returns _ => ∀ spec ∈ params ++ returns, spec.toNat < m.specIdents.size
  | .newVector type count => ((∃ element, m.types.get? type = some (.vector element)) ∨
      ∃ id fields, m.types.get? type = some (.struct id fields)) ∧ 0 ≤ count
  | .callNative native => ∀ registry, natives = some registry → (registry.name? native).isSome
  | _ => True

/-- **A valid module**: its tables and its code refer only to what exists, and its code is whole
instructions. -/
structure Valid (m : Module) (natives : Option NativeRegistry) : Prop where
  types : ∀ descriptor ∈ m.types.entries, m.DescriptorValid descriptor
  specIdents : ∀ spec ∈ m.specIdents, m.SpecIdentValid spec
  files : m.files = #[] ∨ ∀ info ∈ m.lines.entries, info.file.toNat < m.files.size
  code : ∃ instructions, Walk.Splits m.code 0 instructions ∧
    ∀ l ∈ instructions, m.OperandsValid natives l.instruction

/-! ### Tables -/

theorem toNat_ofNat_le {table : Table} (n : Nat) : (Index.ofNat n : Index table).toNat ≤ n := by
  rw [Index.toNat, Index.ofNat, UInt32.toNat_ofNat']
  exact Nat.mod_le _ _

theorem descriptorFault?_eq_none_iff {descriptor : TypeDescriptor} :
    m.descriptorFault? descriptor = none ↔ m.DescriptorValid descriptor := by
  cases descriptor with
  | scalar kind => simp [descriptorFault?, DescriptorValid]
  | vector element => simp [descriptorFault?, DescriptorValid, hasType]
  | struct id fields =>
    simp only [descriptorFault?, DescriptorValid, Index.entry?]
    cases m.structs[id.toNat]? with
    | none => simp
    | some info =>
      simp only [Option.some.injEq, exists_eq_left']
      split_ifs with hlength
      · exact iff_of_false (by simp) fun h => hlength h.1.symm
      · have heq : fields.length = info.fields.length := by omega
        simp [heq, hasType]

instance (m : Module) (descriptor : TypeDescriptor) : Decidable (m.DescriptorValid descriptor) :=
  decidable_of_iff _ descriptorFault?_eq_none_iff

instance (m : Module) (spec : SpecIdent) : Decidable (m.SpecIdentValid spec) :=
  inferInstanceAs (Decidable (_ ∧ _))

/-- The first fault among entries with their positions is none exactly if no entry has one. -/
theorem findSome?_zipIdx_eq_none_iff {α β : Type} {f : α × Nat → Option β} {p : α → Prop}
    (h : ∀ a i, f (a, i) = none ↔ p a) (entries : Array α) :
    entries.toList.zipIdx.findSome? f = none ↔ ∀ a ∈ entries, p a := by
  rw [List.findSome?_eq_none_iff]
  constructor
  · intro hall a ha
    obtain ⟨i, hi⟩ := List.mem_iff_getElem?.mp (Array.mem_def.mp ha)
    exact (h a i).mp (hall (a, i) (List.mem_zipIdx_iff_getElem?.mpr hi))
  · rintro hall ⟨a, i⟩ hmem
    have ha : a ∈ entries.toList := List.mem_of_getElem? (List.mem_zipIdx_iff_getElem?.mp hmem)
    exact (h a i).mpr (hall a (Array.mem_def.mpr ha))

theorem typesFault?_eq_none_iff :
    m.typesFault? = none ↔ ∀ descriptor ∈ m.types.entries, m.DescriptorValid descriptor := by
  unfold typesFault? TypeTable.indexed
  rw [List.findSome?_map]
  refine findSome?_zipIdx_eq_none_iff (fun descriptor i => ?_) _
  simp [descriptorFault?_eq_none_iff]

theorem identsFault?_eq_none_iff :
    m.identsFault? = none ↔ ∀ spec ∈ m.specIdents, m.SpecIdentValid spec := by
  refine findSome?_zipIdx_eq_none_iff (fun spec i => ?_) _
  simp [resolves, hasType, SpecIdentValid]

theorem linesFault?_eq_none_iff :
    m.linesFault? = none ↔
      m.files = #[] ∨ ∀ info ∈ m.lines.entries, info.file.toNat < m.files.size := by
  unfold linesFault?
  split_ifs with hfiles
  · exact iff_of_true rfl (.inl (by simpa using hfiles))
  · have hne : m.files ≠ #[] := by simpa using hfiles
    simp [hne]

/-! ### Code -/

theorem missingIdent?_eq_none_iff {specs : List SpecIdentIndex} :
    m.missingIdent? specs = none ↔ ∀ spec ∈ specs, spec.toNat < m.specIdents.size := by
  simp [missingIdent?]

theorem operandFault?_eq_none_iff {i : Instruction} :
    m.operandFault? natives i = none ↔ m.OperandsValid natives i := by
  cases i with
  | call op argc function target typeMask => simp [operandFault?, OperandsValid]
  | ident op lval spec => simp [operandFault?, OperandsValid, missingIdent?_eq_none_iff]
  | prologue params returns logLength =>
    simp only [operandFault?, OperandsValid, missingIdent?_eq_none_iff]
  | ret function count type =>
    simp only [operandFault?, OperandsValid, Word.toCount?]
    split_ifs with hneg
    · exact iff_of_true rfl fun hpos => absurd hneg (Int32.not_lt.mpr hpos)
    · have hpos : 0 ≤ function := Int32.not_lt.mp hneg
      have hint : 0 ≤ function.toInt := by simpa [Int32.le_iff_toInt_le] using hpos
      simp only [hpos, forall_const]
      split_ifs with h
      · exact iff_of_true rfl (by omega)
      · exact iff_of_false (by simp) (by omega)
  | newVector type count =>
    simp only [operandFault?, OperandsValid]
    cases m.types.get? type with
    | none => simp
    | some descriptor => cases descriptor <;> simp [TypeDescriptor.isAggregate]
  | callNative native =>
    cases natives with
    | none => simp [operandFault?, OperandsValid]
    | some registry =>
      simp only [operandFault?, OperandsValid, NativeRegistry.name?, NativeRegistry.size]
      split_ifs with h <;> simp [h]
  | _ => simp [operandFault?, OperandsValid]

theorem codeFault?_eq_none_iff :
    m.codeFault? natives = none ↔
      (∀ l ∈ (Walk.ofCode m.code 0).instructions,
        m.operandFault? natives l.instruction = none) ∧ (Walk.ofCode m.code 0).fault? = none := by
  have hcheck : ∀ l, (∃ u, m.checkOperands natives l = .ok u) ↔
      m.operandFault? natives l.instruction = none := by
    intro l
    unfold checkOperands
    cases m.operandFault? natives l.instruction <;> simp
  have hvisit := Walk.visit_ok_iff (.ofCode m.code 0) (m.checkOperands natives)
  simp only [hcheck] at hvisit
  rw [← hvisit]
  unfold codeFault?
  cases (Walk.ofCode m.code 0).visit (m.checkOperands natives) <;> simp

theorem verify_ok_iff :
    m.verify natives = .ok () ↔ m.typesFault? = none ∧ m.identsFault? = none ∧
      m.linesFault? = none ∧ m.codeFault? natives = none := by
  have hfault : m.verify natives = .ok () ↔ m.fault? natives = none := by
    unfold verify
    cases m.fault? natives <;> simp
  rw [hfault, fault?]
  cases m.typesFault? <;> cases m.identsFault? <;> cases m.linesFault? <;> simp

/-- The code has no fault exactly if it is whole instructions that refer to what exists. -/
theorem codeFault?_eq_none_iff_splits :
    m.codeFault? natives = none ↔ ∃ instructions, Walk.Splits m.code 0 instructions ∧
      ∀ l ∈ instructions, m.OperandsValid natives l.instruction := by
  simp only [codeFault?_eq_none_iff, operandFault?_eq_none_iff, Walk.fault?_eq_none_iff_splits]
  constructor
  · rintro ⟨hvalid, hsplits⟩
    exact ⟨_, hsplits, hvalid⟩
  · rintro ⟨instructions, hsplits, hvalid⟩
    obtain rfl := hsplits.eq_instructions
    exact ⟨hvalid, hsplits⟩

theorem Valid.verify_ok (h : m.Valid natives) : m.verify natives = .ok () :=
  verify_ok_iff.mpr ⟨typesFault?_eq_none_iff.mpr h.types, identsFault?_eq_none_iff.mpr h.specIdents,
    linesFault?_eq_none_iff.mpr h.files, codeFault?_eq_none_iff_splits.mpr h.code⟩

/-- **Verification accepts exactly the valid modules**, with a registry of native functions or without
one. -/
theorem verify_ok_iff_valid (m : Module) (natives : Option NativeRegistry) :
    m.verify natives = .ok () ↔ m.Valid natives := by
  rw [verify_ok_iff, typesFault?_eq_none_iff, identsFault?_eq_none_iff, linesFault?_eq_none_iff,
    codeFault?_eq_none_iff_splits]
  constructor
  · rintro ⟨htypes, hidents, hfiles, hcode⟩
    exact ⟨htypes, hidents, hfiles, hcode⟩
  · rintro ⟨htypes, hidents, hfiles, hcode⟩
    exact ⟨htypes, hidents, hfiles, hcode⟩

end Module

end Wordcode
