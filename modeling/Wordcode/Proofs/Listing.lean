import Wordcode.Module.Listing
import Wordcode.Proofs.Validity

/-! # Listings of verified modules

A listing fails where an operand has no name. In a module whose tables are in order an operand that
passes its check has one, up to native functions, which are only checked against a registry
(`operandsText_ok_iff`). So the listing of a verified module exists if the registry knows the native
functions that the code calls (`verified_listing`). -/

namespace Wordcode.Module

open Instruction

variable {m : Module} {natives : NativeRegistry}

/-! ### Names -/

theorem nameAt_ok_iff {offset : Nat} {cause : OperandFault} {name? : Option String} :
    (∃ t, nameAt offset cause name? = .ok t) ↔ name?.isSome := by
  cases name? <;> simp [nameAt]

theorem functionName_ok {f : FunctionIndex} (h : f.toNat < m.functions.size) (offset : Nat) :
    ∃ t, m.functionName offset f = .ok t := by
  refine nameAt_ok_iff.mpr ?_
  simp [Index.entry?, h]

theorem identName_ok (hm : m.identsFault? = none) {i : SpecIdentIndex}
    (h : i.toNat < m.specIdents.size) (offset : Nat) : ∃ t, m.identName offset i = .ok t := by
  refine nameAt_ok_iff.mpr ?_
  have hident : (m.specIdents[i.toNat]).ident.toNat < m.idents.size :=
    (identsFault?_eq_none_iff.mp hm _ (Array.getElem_mem h)).1
  simp [identName?, Index.entry?, h, hident]

theorem constructedName_ok (hm : m.typesFault? = none) {i : TypeIndex}
    {descriptor : TypeDescriptor} (h : m.types.get? i = some descriptor) (offset : Nat) :
    ∃ t, m.constructedName offset i = .ok t := by
  unfold constructedName
  rw [h]
  cases descriptor with
  | scalar kind => exact ⟨_, rfl⟩
  | vector element => exact ⟨_, rfl⟩
  | struct id fields =>
    refine nameAt_ok_iff.mpr ?_
    obtain ⟨info, hinfo, -⟩ := typesFault?_eq_none_iff.mp hm _ (Array.mem_of_getElem? h)
    simp [Index.entry?, hinfo]

/-! ### Operands and lines -/

/-- **An operand that passes its check has a text**, native functions apart: they need a name. -/
theorem operandsText_ok_iff (htypes : m.typesFault? = none) (hidents : m.identsFault? = none)
    {i : Instruction} (h : m.OperandsValid none i) (offset : Nat) :
    (∃ t, m.operandsText natives offset i = .ok t) ↔
      ∀ native, i = .callNative native → (natives.name? native).isSome := by
  cases i with
  | callNative native =>
    show (∃ t, nameAt _ _ _ = .ok t) ↔ _
    rw [nameAt_ok_iff]
    simp
  | ret function count type =>
    refine iff_of_true ?_ (by simp)
    simp only [operandsText, Index.ofWord?, Word.toCount?]
    split_ifs with hneg
    · exact ⟨_, rfl⟩
    · have hpos : 0 ≤ function := Int32.not_lt.mp hneg
      have hlt : function.toInt < m.functions.size := h hpos
      refine functionName_ok (Nat.lt_of_le_of_lt (toNat_ofNat_le _) ?_) offset
      have hint : 0 ≤ function.toInt := by simpa [Int32.le_iff_toInt_le] using hpos
      omega
  | call op argc function target typeMask =>
    refine iff_of_true ?_ (by simp)
    obtain ⟨t, ht⟩ := functionName_ok (m := m) h offset
    simp [operandsText, ht, bind, Except.bind, pure, Except.pure]
  | newVector type count =>
    refine iff_of_true ?_ (by simp)
    obtain ⟨descriptor, hd⟩ : ∃ descriptor, m.types.get? type = some descriptor := by
      rcases h.1 with ⟨element, hd⟩ | ⟨id, fields, hd⟩ <;> exact ⟨_, hd⟩
    obtain ⟨t, ht⟩ := constructedName_ok htypes hd offset
    simp [operandsText, ht, bind, Except.bind, pure, Except.pure]
  | ident op lval spec =>
    refine iff_of_true ?_ (by simp)
    obtain ⟨t, ht⟩ := identName_ok hidents h offset
    simp [operandsText, ht, bind, Except.bind, pure, Except.pure]
  | prologue params returns logLength =>
    refine iff_of_true ?_ (by simp)
    have hname : ∀ i ∈ params ++ returns, ∃ t, m.identName offset i = .ok t := fun i hi =>
      identName_ok hidents (h i hi) offset
    obtain ⟨ps, hps⟩ := Walk.mapM_ok_iff.mpr fun i hi => hname i (List.mem_append_left _ hi)
    obtain ⟨rs, hrs⟩ := Walk.mapM_ok_iff.mpr fun i hi => hname i (List.mem_append_right _ hi)
    simp [operandsText, hps, hrs, bind, Except.bind, pure, Except.pure]
  | _ => simp [operandsText]

/-- With a registry the check asks for the names of native functions, and for nothing else. -/
theorem operandFault?_some {i : Instruction} :
    m.operandFault? (some natives) i = none ↔ m.operandFault? none i = none ∧
      ∀ native, i = .callNative native → (natives.name? native).isSome := by
  cases i with
  | callNative native =>
    simp only [operandFault?, NativeRegistry.name?, NativeRegistry.size]
    split_ifs with h <;> simp [h]
  | _ => simp [operandFault?]

theorem listingLine_ok_iff {l : Located} :
    (∃ line, m.listingLine natives l = .ok line) ↔
      ∃ t, m.operandsText natives l.start l.instruction = .ok t := by
  unfold listingLine
  cases m.operandsText natives l.start l.instruction <;>
    simp [bind, Except.bind, pure, Except.pure]

theorem listing_ok_iff :
    (∃ text, m.listing natives = .ok text) ↔
      ∃ lines, (Walk.ofCode m.code 0).visit (m.listingLine natives) = .ok lines := by
  unfold listing
  cases (Walk.ofCode m.code 0).visit (m.listingLine natives) <;>
    simp [bind, Except.bind, pure, Except.pure]

/-! ### Verified modules -/

/-- A module that is verified with a registry is verified, and the registry knows each native
function that an instruction of the walk calls. -/
theorem verify_some_iff :
    m.verify (some natives) = .ok () ↔ m.verify none = .ok () ∧
      ∀ l ∈ (Walk.ofCode m.code 0).instructions, ∀ native,
        l.instruction = .callNative native → (natives.name? native).isSome := by
  simp only [verify_ok_iff, codeFault?_eq_none_iff, operandFault?_some]
  constructor
  · rintro ⟨ht, hi, hl, hop, hf⟩
    exact ⟨⟨ht, hi, hl, fun l h => (hop l h).1, hf⟩, fun l h => (hop l h).2⟩
  · rintro ⟨⟨ht, hi, hl, hop, hf⟩, hnat⟩
    exact ⟨ht, hi, hl, fun l h => ⟨hop l h, hnat l h⟩, hf⟩

section Verified
variable (h : m.verify none = .ok ())
include h

theorem walk_fault?_eq_none : (Walk.ofCode m.code 0).fault? = none :=
  (codeFault?_eq_none_iff.mp (verify_ok_iff.mp h).2.2.2).2

/-- In a verified module a line fails only for want of the name of a native function. -/
theorem listingLine_ok_iff_of_verify {l : Located}
    (hl : l ∈ (Walk.ofCode m.code 0).instructions) :
    (∃ line, m.listingLine natives l = .ok line) ↔
      ∀ native, l.instruction = .callNative native → (natives.name? native).isSome := by
  obtain ⟨ht, hi, -, hc⟩ := verify_ok_iff.mp h
  rw [listingLine_ok_iff]
  have hvalid := operandFault?_eq_none_iff.mp ((codeFault?_eq_none_iff.mp hc).1 l hl)
  exact operandsText_ok_iff ht hi hvalid l.start

theorem listing_ok_iff_of_verify :
    (∃ text, m.listing natives = .ok text) ↔
      ∀ l ∈ (Walk.ofCode m.code 0).instructions, ∀ native,
        l.instruction = .callNative native → (natives.name? native).isSome := by
  rw [listing_ok_iff, Walk.visit_ok_iff]
  refine ⟨fun hv l hl => (listingLine_ok_iff_of_verify h hl).mp (hv.1 l hl), fun hn => ⟨?_, ?_⟩⟩
  · exact fun l hl => (listingLine_ok_iff_of_verify h hl).mpr (hn l hl)
  · exact walk_fault?_eq_none h

theorem forall_instructions_iff (P : Instruction → Prop) :
    (∀ l ∈ (Walk.ofCode m.code 0).instructions, P l.instruction) ↔
      ∀ p i c, Walk.Reaches m.code 0 p → decode (.at m.code p) = .ok i c → P i := by
  constructor
  · intro hP p i c hr hd
    have hp : p < m.code.length := by have := decode_ok hd; omega
    obtain ⟨l, hl, rfl⟩ := Walk.exists_mem_of_reaches (walk_fault?_eq_none h) hr hp
    have hdec := (Walk.reaches_of_mem hl).2
    rw [hd, EStateM.Result.ok.injEq] at hdec
    rw [hdec.1]
    exact hP l hl
  · intro hP l hl
    obtain ⟨hr, hd⟩ := Walk.reaches_of_mem hl
    exact hP l.start l.instruction _ hr hd

end Verified

/-- **A verified module can be listed.** If it was verified with the registry, the listing and the line
of every instruction that the walk from the start reaches exist; if it was verified without one, the
listing exists exactly if the registry knows every native function called on the walk. -/
theorem verified_listing (m : Module) (natives : NativeRegistry) :
    (m.verify (some natives) = .ok () →
      (∃ text, m.listing natives = .ok text) ∧
      ∀ p, Walk.Reaches m.code 0 p → p < m.code.length →
        ∃ line next, m.listingAt natives p = .ok (line, next)) ∧
    (m.verify none = .ok () →
      ((∃ text, m.listing natives = .ok text) ↔
        ∀ p native c, Walk.Reaches m.code 0 p →
          decode (.at m.code p) = .ok (.callNative native) c →
            (natives.name? native).isSome)) := by
  refine ⟨fun h => ?_, fun h => ?_⟩
  · obtain ⟨h, hnat⟩ := verify_some_iff.mp h
    refine ⟨(listing_ok_iff_of_verify h).mpr hnat, fun p hr hp => ?_⟩
    obtain ⟨l, hl, rfl⟩ := Walk.exists_mem_of_reaches (walk_fault?_eq_none h) hr hp
    obtain ⟨line, hline⟩ := (listingLine_ok_iff_of_verify h hl).mpr (hnat l hl)
    refine ⟨line, l.next, ?_⟩
    have hat : (⟨l.start, l.instruction, (Cursor.at m.code l.next).pos⟩ : Located) = l := rfl
    simp only [listingAt, (Walk.reaches_of_mem hl).2, hat, hline]
    rfl
  · have hwalk := forall_instructions_iff h fun i =>
      ∀ native, i = .callNative native → (natives.name? native).isSome
    rw [listing_ok_iff_of_verify h, hwalk]
    exact ⟨fun hn p native c hr hd => hn p _ c hr hd native rfl,
      fun hn p i c hr hd native he => hn p native c hr (he ▸ hd)⟩

/-- A module that makes a struct, calls a native function and returns from its only function. -/
def pointModule : Module where
  code := [22, 1, 0, 0, 0, 26, 8, 2, 17, 0, 25, 0, 0, 0]
  lines := ⟨#[⟨0, 1, ⟨0⟩⟩], by decide, rfl, by simp⟩
  files := #[]
  idents := #[⟨"x", false, false⟩]
  specIdents := #[⟨⟨0⟩, ⟨1⟩⟩]
  functions := #[⟨"main", 0⟩]
  structs := #[⟨"Point", ["x", "y"]⟩]
  types := TypeTable.builtins.push (.struct ⟨0⟩ [⟨1⟩, ⟨2⟩])

/-- With its native function registered the module is listed line by line, without it not at all. -/
theorem verified_listing_pointModule :
    pointModule.verify (some (.ofNames ["print"])) = .ok () ∧ pointModule.verify none = .ok () ∧
      (∃ text, pointModule.listing (.ofNames ["print"]) = .ok text) ∧
      (∃ line next, pointModule.listingAt (.ofNames ["print"]) 5 = .ok (line, next)) ∧
      ¬ ∃ text, pointModule.listing .empty = .ok text := by
  have hsome : pointModule.verify (some (.ofNames ["print"])) = .ok () := by decide
  have hnone : pointModule.verify none = .ok () := by decide
  have h0 : decode (.at pointModule.code 0) =
      .ok (.prologue [⟨0⟩] [] 0) (.at pointModule.code 5) := rfl
  have h5 : decode (.at pointModule.code 5) =
      .ok (.newVector ⟨8⟩ 2) (.at pointModule.code 8) := rfl
  obtain ⟨hlisting, hlines⟩ := (verified_listing pointModule (.ofNames ["print"])).1 hsome
  refine ⟨hsome, hnone, hlisting, hlines 5 (.next h0 (.here 5)) (by decide), fun hl => ?_⟩
  have hcall := ((verified_listing pointModule .empty).2 hnone).mp hl 8 ⟨0⟩ _
    (.next h0 (.next h5 (.here 8))) rfl
  exact absurd hcall (by decide)

end Wordcode.Module
