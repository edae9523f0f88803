import Wordcode.Proofs.Instruction.Relocation
import Wordcode.Proofs.LineTable
import Wordcode.Proofs.Validity

/-! # Code in two parts

The walk over two streams, the first one of whole instructions, is the walk over the first one and then that
over the second one, moved by the length of the first (`Walk.Splits.within_append`). So the verifier can look
at the parts one by one: in front of verified code, it finds in the rest what it finds in the rest alone, at
moved offsets (`Module.joined_code_verified`). -/

namespace Wordcode

open Instruction (decode)

namespace Walk

variable {code behind : List Word} {p : Nat} {instructions : List Located}

/-- **The walk over two streams**, of which the first one is whole instructions. -/
theorem Splits.within_append (h : Splits code p instructions) : ∀ bound,
    code.length + behind.length ≤ p + bound →
      within bound (.at (code ++ behind) p) =
        ⟨instructions ++ ((ofCode behind 0).shift code.length).instructions,
          ((ofCode behind 0).shift code.length).ending⟩ := by
  induction h with
  | finished =>
    intro bound hbound
    have hwalk : within bound (.at behind 0) = ofCode behind 0 :=
      within_eq_within (by omega) (by omega)
    have hseam : Cursor.at (code ++ behind) code.length = (Cursor.at behind 0).shift code.length :=
      Cursor.at_append code behind 0
    rw [hseam, within_shift, hwalk]
    rfl
  | @next p i c rest decoded splits ih =>
    intro bound hbound
    obtain ⟨hlt, hle, -⟩ := decode_ok decoded
    obtain ⟨bound, rfl⟩ : ∃ k, bound = k + 1 := ⟨bound - 1, by omega⟩
    have hfirst := Instruction.reads_decode.append (by omega) decoded behind
    have hrest := ih bound (by omega)
    rw [within_ok hfirst]
    show (⟨⟨p, i, c.pos⟩ :: (within bound (.at (code ++ behind) c.pos)).instructions,
      (within bound (.at (code ++ behind) c.pos)).ending⟩ : Walk) = _
    rw [hrest]
    rfl

end Walk

namespace Module

variable {m : Module} {natives : Option NativeRegistry} {code behind : List Word}

/-- The module with other code. -/
def withCode (m : Module) (code : List Word) : Module := { m with code }

/-! ### The fault of a walk -/

/-- What is wrong with a decoded instruction. -/
def faultAt? (m : Module) (natives : Option NativeRegistry) (l : Located) : Option Fault :=
  (m.operandFault? natives l.instruction).map (.invalidOperand l.start)

theorem mapM_checkOperands (m : Module) (natives : Option NativeRegistry) (l : List Located) :
    (∃ r, l.mapM (m.checkOperands natives) = .ok r ∧ l.findSome? (m.faultAt? natives) = none) ∨
      ∃ fault, l.mapM (m.checkOperands natives) = .error fault ∧
        l.findSome? (m.faultAt? natives) = some fault := by
  induction l with
  | nil => exact .inl ⟨[], rfl, rfl⟩
  | cons a l ih =>
    rw [List.mapM_cons, List.findSome?_cons]
    unfold checkOperands faultAt? at ih ⊢
    cases ha : m.operandFault? natives a.instruction with
    | some cause => exact .inr ⟨_, rfl, rfl⟩
    | none =>
      rcases ih with ⟨r, hr, hnone⟩ | ⟨fault, hr, hsome⟩
      · exact .inl ⟨() :: r, by rw [hr]; rfl, hnone⟩
      · exact .inr ⟨fault, by rw [hr]; rfl, hsome⟩

/-- **The fault of the code** is the first one of an instruction, or else the one its walk ends with. -/
theorem codeFault?_eq : m.codeFault? natives =
    ((Walk.ofCode m.code 0).instructions.findSome? (m.faultAt? natives) <|>
      (Walk.ofCode m.code 0).fault?) := by
  unfold codeFault? Walk.visit
  rcases mapM_checkOperands m natives (Walk.ofCode m.code 0).instructions with
    ⟨r, hr, hnone⟩ | ⟨fault, hr, hsome⟩
  · rw [hr, hnone]
    cases (Walk.ofCode m.code 0).fault? <;> rfl
  · rw [hr, hsome]
    rfl

theorem faultAt?_shift (n : Nat) (l : Located) :
    m.faultAt? natives (l.shift n) = (m.faultAt? natives l).map (Fault.shift n) := by
  unfold faultAt? Located.shift
  cases m.operandFault? natives l.instruction <;> rfl

/-! ### Joined code -/

theorem operandFault?_withCode (i : Instruction) :
    (m.withCode code).operandFault? natives i = m.operandFault? natives i := by
  cases i <;> rfl

theorem faultAt?_withCode : (m.withCode code).faultAt? natives = m.faultAt? natives := by
  funext l
  unfold faultAt?
  rw [operandFault?_withCode]

/-- Behind code without a fault, the fault of more code is its own one, moved. -/
theorem codeFault?_append (h : (m.withCode code).codeFault? natives = none) :
    (m.withCode (code ++ behind)).codeFault? natives =
      ((m.withCode behind).codeFault? natives).map (Fault.shift code.length) := by
  obtain ⟨hoperands, hwalk⟩ := codeFault?_eq_none_iff.mp h
  have hsplits : Walk.Splits code 0 (Walk.ofCode code 0).instructions :=
    Walk.fault?_eq_none_iff_splits.mp hwalk
  have hbound : code.length + behind.length ≤ 0 + (code ++ behind).length := by
    rw [List.length_append]
    omega
  have hjoined : Walk.ofCode (code ++ behind) 0 = _ := hsplits.within_append _ hbound
  -- no instruction of the first part has a fault
  have hfirst : (Walk.ofCode code 0).instructions.findSome? (m.faultAt? natives) = none := by
    rw [List.findSome?_eq_none_iff]
    intro l hl
    have hl' := hoperands l hl
    rw [operandFault?_withCode] at hl'
    rw [faultAt?, hl', Option.map_none]
  have hrest : (((Walk.ofCode behind 0).shift code.length).instructions.findSome?
      (m.faultAt? natives)) = ((Walk.ofCode behind 0).instructions.findSome?
        (m.faultAt? natives)).map (Fault.shift code.length) := by
    have hshift : m.faultAt? natives ∘ Located.shift code.length =
        fun l => (m.faultAt? natives l).map (Fault.shift code.length) :=
      funext fun l => faultAt?_shift code.length l
    rw [Walk.shift, List.findSome?_map, hshift, List.map_findSome?]
    rfl
  have hending := Walk.fault?_shift code.length (Walk.ofCode behind 0)
  rw [codeFault?_eq, codeFault?_eq, faultAt?_withCode, faultAt?_withCode]
  show ((Walk.ofCode (code ++ behind) 0).instructions.findSome? (m.faultAt? natives) <|>
    (Walk.ofCode (code ++ behind) 0).fault?) = Option.map _
      ((Walk.ofCode behind 0).instructions.findSome? (m.faultAt? natives) <|>
        (Walk.ofCode behind 0).fault?)
  rw [hjoined, List.findSome?_append, hfirst, hrest]
  show (_ <|> ((Walk.ofCode behind 0).shift code.length).fault?) = _
  rw [hending]
  cases (Walk.ofCode behind 0).instructions.findSome? (m.faultAt? natives) <;> rfl

/-- Behind verified code, the fault of a module is that of the module with the rest of the code. -/
theorem fault?_append (h : (m.withCode code).verify natives = .ok ()) (behind : List Word) :
    (m.withCode (code ++ behind)).fault? natives =
      ((m.withCode behind).fault? natives).map (Fault.shift code.length) := by
  obtain ⟨htypes, hidents, hlines, hcode⟩ := verify_ok_iff.mp h
  -- the checks of the tables do not look at the code
  have htables : ∀ words, (m.withCode words).fault? natives = (m.withCode words).codeFault? natives := by
    intro words
    show (m.typesFault? <|> m.identsFault? <|> m.linesFault? <|> _) = _
    rw [show m.typesFault? = none from htypes, show m.identsFault? = none from hidents,
      show m.linesFault? = none from hlines]
    rfl
  rw [htables, htables, codeFault?_append hcode]

/-- **Code is verified part by part.** If a module passes with some code, then more code behind it passes if
and only if that code passes alone, with the same tables; and if that code alone has a fault, then the joined
code has the same fault, with its offset moved by the length of the first part. -/
theorem joined_code_verified (m : Module) (natives : Option NativeRegistry) (code behind : List Word)
    (h : (m.withCode code).verify natives = .ok ()) :
    ((m.withCode (code ++ behind)).verify natives = .ok () ↔
        (m.withCode behind).verify natives = .ok ()) ∧
      ∀ fault, (m.withCode behind).verify natives = .error fault →
        (m.withCode (code ++ behind)).verify natives = .error (fault.shift code.length) := by
  have hfault := fault?_append h behind
  unfold verify
  rw [hfault]
  cases (m.withCode behind).fault? natives with
  | none => simp
  | some fault => simp

/-- A module with one function and one identifier. -/
def gateModule : Module where
  code := []
  lines := .single 1 ⟨0⟩
  files := #[]
  idents := #[⟨"gate", true, false⟩]
  specIdents := #[⟨⟨0⟩, .any⟩]
  functions := #[⟨"main", 0⟩]
  structs := #[]
  types := .builtins

/-- Behind four words of verified code a string passes; an identifier that is not in the table has its fault
at its instruction, a call that is cut short at the end of the joined code. -/
theorem joined_code_verified_gate :
    (gateModule.withCode [0, 7, 5, 0]).verify none = .ok () ∧
      (gateModule.withCode ([0, 7, 5, 0] ++ [2, 104, 0])).verify none = .ok () ∧
      (gateModule.withCode ([0, 7, 5, 0] ++ [0, 1, 5, 3])).verify none =
        .error (.invalidOperand 6 (.outOfRange .specIdent 3)) ∧
      (gateModule.withCode ([0, 7, 5, 0] ++ [19, 2, 0, 40, 1, 9])).verify none =
        .error (.unexpectedEnd 10) := by
  have hverified : (gateModule.withCode [0, 7, 5, 0]).verify none = .ok () := by decide
  have hstring := joined_code_verified gateModule none _ [2, 104, 0] hverified
  have hident := joined_code_verified gateModule none _ [0, 1, 5, 3] hverified
  have hcall := joined_code_verified gateModule none _ [19, 2, 0, 40, 1, 9] hverified
  exact ⟨hverified, hstring.1.mpr (by decide),
    hident.2 (.invalidOperand 2 (.outOfRange .specIdent 3)) (by decide),
    hcall.2 (.unexpectedEnd 6) (by decide)⟩

end Module

end Wordcode
