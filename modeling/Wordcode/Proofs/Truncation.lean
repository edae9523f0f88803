import Wordcode.Proofs.Instruction.Truncation
import Wordcode.Proofs.LineTable

/-! # Modules that are cut short

A stream that is cut short is still whole instructions only if the cut is where one of them ends
(`Walk.Splits.walk_take`). So the verifier notices any other cut in the code of a verified module, and the
fault names the cut (`Module.truncation_noticed`). -/

namespace Wordcode

open Instruction (decode)

namespace Walk

variable {code : List Word} {p : Nat} {instructions : List Located}

theorem Splits.lt_next (h : Splits code p instructions) : ∀ l ∈ instructions, p < l.next := by
  induction h with
  | finished => simp
  | @next p i c rest decoded splits ih =>
    have hlt := (decode_ok decoded).1
    exact List.forall_mem_cons.mpr ⟨hlt, fun l hl => hlt.trans (ih l hl)⟩

/-- **The walk over a stream that is cut short** visits the first of its instructions. It ends without a
fault if the cut is where it starts or where an instruction ends, and with a fault at the cut otherwise. -/
theorem Splits.walk_take (h : Splits code p instructions) {n : Nat} (hp : p ≤ n)
    (hn : n ≤ code.length) : ∀ bound, n ≤ p + bound →
      (within bound (.at (code.take n) p)).instructions <+: instructions ∧
        (within bound (.at (code.take n) p)).fault? =
          if n = p ∨ ∃ l ∈ instructions, l.next = n then none else some (.unexpectedEnd n) := by
  have hlength : (code.take n).length = n := List.length_take_of_le hn
  induction h with
  | finished =>
    intro bound _
    obtain rfl : n = code.length := Nat.le_antisymm hn hp
    rw [within_end (Nat.le_of_eq hlength), if_pos (.inl rfl)]
    exact ⟨List.prefix_rfl, rfl⟩
  | @next p i c rest decoded splits ih =>
    intro bound hbound
    obtain ⟨hlt, hle, -⟩ := decode_ok decoded
    rcases Nat.lt_or_eq_of_le hp with hpn | rfl
    · obtain ⟨bound, rfl⟩ : ∃ k, bound = k + 1 := ⟨bound - 1, by omega⟩
      rcases Nat.lt_or_ge n c.pos with hcut | hcut
      · -- the cut lies within the first instruction, so none of them ends there
        obtain ⟨c', hc'⟩ := Instruction.notices_decode (by omega) decoded n hp hcut
        have hends : ∀ l ∈ (⟨p, i, c.pos⟩ : Located) :: rest, l.next ≠ n :=
          List.forall_mem_cons.mpr ⟨hcut.ne', fun l hl => (hcut.trans (splits.lt_next l hl)).ne'⟩
        rw [within_error (by omega) hc', if_neg]
        · exact ⟨List.nil_prefix, rfl⟩
        · rintro (rfl | ⟨l, hl, he⟩)
          · exact Nat.lt_irrefl _ hpn
          · exact hends l hl he
      · obtain ⟨hfirst, hfault⟩ := ih hcut bound (by omega)
        rw [within_ok (Instruction.reads_decode.take (by omega) decoded hcut)]
        refine ⟨List.cons_prefix_cons.mpr ⟨rfl, hfirst⟩, hfault.trans ?_⟩
        simp only [List.exists_mem_cons_iff, hpn.ne', false_or, eq_comm]
    · rw [within_end (Nat.le_of_eq hlength), if_pos (.inl rfl)]
      exact ⟨List.nil_prefix, rfl⟩

end Walk

namespace Module

variable {m : Module} {natives : Option NativeRegistry} {n : Nat}

/-- The module with its code cut to the first `n` words. -/
def cut (m : Module) (n : Nat) : Module := { m with code := m.code.take n }

/-- The offsets where an instruction of the module ends, and the start of its code. -/
def Boundary (m : Module) (n : Nat) : Prop :=
  n = 0 ∨ ∃ l ∈ (Walk.ofCode m.code 0).instructions, l.next = n

instance (m : Module) (n : Nat) : Decidable (m.Boundary n) :=
  inferInstanceAs (Decidable (_ ∨ _))

/-- If the instructions pass their checks, the fault of the code is the one its walk ends with. -/
theorem codeFault?_eq_fault? (h : ∀ l ∈ (Walk.ofCode m.code 0).instructions,
    m.operandFault? natives l.instruction = none) :
    m.codeFault? natives = (Walk.ofCode m.code 0).fault? := by
  have hcheck : ∀ l ∈ (Walk.ofCode m.code 0).instructions, ∃ u, m.checkOperands natives l = .ok u :=
    fun l hl => ⟨(), by rw [checkOperands, h l hl]⟩
  obtain ⟨results, hresults⟩ := Walk.mapM_ok_iff.mpr hcheck
  unfold codeFault? Walk.visit
  rw [hresults]
  cases (Walk.ofCode m.code 0).fault? <;> rfl

theorem operandFault?_cut (i : Instruction) :
    (m.cut n).operandFault? natives i = m.operandFault? natives i := by
  cases i <;> rfl

/-- **Where the code of a verified module is cut** decides whether the rest passes. -/
theorem fault?_cut (h : m.verify natives = .ok ()) (hn : n ≤ m.code.length) :
    (m.cut n).fault? natives = if m.Boundary n then none else some (.unexpectedEnd n) := by
  obtain ⟨htypes, hidents, hlines, hcode⟩ := verify_ok_iff.mp h
  obtain ⟨hoperands, hwalk⟩ := codeFault?_eq_none_iff.mp hcode
  have hlength : (m.cut n).code.length = n := List.length_take_of_le hn
  have hsplits := Walk.fault?_eq_none_iff_splits.mp hwalk
  obtain ⟨hfirst, hfault⟩ := hsplits.walk_take (Nat.zero_le n) hn (m.cut n).code.length (by omega)
  have hcut : (m.cut n).codeFault? natives = (Walk.ofCode (m.cut n).code 0).fault? :=
    codeFault?_eq_fault? fun l hl => (operandFault?_cut _).trans (hoperands l (hfirst.subset hl))
  have htables : (m.cut n).fault? natives = (m.cut n).codeFault? natives := by
    show (m.typesFault? <|> m.identsFault? <|> m.linesFault? <|> (m.cut n).codeFault? natives) = _
    rw [htypes, hidents, hlines]
    rfl
  rw [htables, hcut]
  exact hfault

/-- **Truncation is noticed at the cut.** A verified module whose code is cut short is verified if and only
if the cut is where an instruction ends, or at the start; anywhere else its fault is the end of the stream at
the cut. So it is for a single instruction, wherever it stands: cut short within its words it cannot be
decoded, for want of the word at the cut. -/
theorem truncation_noticed :
    (∀ (m : Module) natives, m.verify natives = .ok () → ∀ n, n ≤ m.code.length →
      ((m.cut n).verify natives = .ok () ↔ m.Boundary n) ∧
        (¬ m.Boundary n → (m.cut n).verify natives = .error (.unexpectedEnd n))) ∧
    (∀ code p i c, decode (.at code p) = .ok i c → ∀ n, p ≤ n → n < c.pos →
      ∃ c', decode (.at (code.take n) p) = .error (.unexpectedEnd n) c') := by
  refine ⟨fun m natives h n hn => ?_, fun code p i c hread n hpn hn => ?_⟩
  · have hfault := fault?_cut h hn
    unfold verify
    rw [hfault]
    by_cases hb : m.Boundary n <;> simp [hb]
  · have hp := decode_ok hread
    exact Instruction.notices_decode (by omega) hread n hpn hn

/-- A module that calls a native function with a string and a function of its table with one argument. -/
def callModule : Module where
  code := [2, 104, 105, 0, 17, 0, 19, 1, 0, 12, 0, 3]
  lines := .single 1 ⟨0⟩
  files := #[]
  idents := #[]
  specIdents := #[]
  functions := #[⟨"main", 0⟩]
  structs := #[]
  types := .builtins

/-- The string ends at offset 4 and the native call at 6; offsets 3 and 11 lie within a string and within
the argument types of a call. -/
theorem truncation_noticed_callModule :
    callModule.verify (some (.ofNames ["print"])) = .ok () ∧
      (callModule.cut 6).verify (some (.ofNames ["print"])) = .ok () ∧
      (callModule.cut 3).verify (some (.ofNames ["print"])) = .error (.unexpectedEnd 3) ∧
      ∃ c', decode (.at (callModule.code.take 11) 6) = .error (.unexpectedEnd 11) c' := by
  have hverified : callModule.verify (some (.ofNames ["print"])) = .ok () := by decide
  have hcall : decode (.at callModule.code 6) = .ok (.call .callMulti 1 ⟨0⟩ 12 0) (.at callModule.code 12) :=
    rfl
  obtain ⟨hmodules, hinstructions⟩ := truncation_noticed
  exact ⟨hverified, (hmodules _ _ hverified 6 (by decide)).1.mpr (by decide),
    (hmodules _ _ hverified 3 (by decide)).2 (by decide),
    hinstructions _ _ _ _ hcall 11 (by decide) (by decide)⟩

end Module

end Wordcode
