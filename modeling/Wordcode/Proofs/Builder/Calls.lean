import Wordcode.Module.Builder
import Wordcode.Proofs.Growing
import Wordcode.Proofs.LineTable

/-! # Runs of a builder

A module is built by calls, one after the other (`Builder.Call`, `Builder.run`). The stream is the words of
the calls in order (`code_run`). A call adds to the tables and changes nothing that they hold, unless it
replaces the types (`extends_apply`). Building fails only on account of the lines (`build_ok_iff`). -/

namespace Wordcode

namespace Builder

/-! ### Calls -/

/-- A call that a builder is changed by. -/
inductive Call
  | setTypes (types : TypeTable)
  | addType (descriptor : TypeDescriptor)
  | addFile (name : String)
  | addIdent (ident : Ident)
  | addSpecIdent (spec : SpecIdent)
  | addVariable (ident : Ident) (type : TypeIndex)
  | addFunction (info : FunctionInfo)
  | addStruct (info : StructInfo)
  | emit (words : List Word)
  | emitAt (line : UInt32) (words : List Word)
  deriving DecidableEq

/-- The builder after a call. -/
def apply (b : Builder) : Call → Builder
  | .setTypes types => b.setTypes types
  | .addType descriptor => (b.addType descriptor).2
  | .addFile name => (b.addFile name).2
  | .addIdent ident => (b.addIdent ident).2
  | .addSpecIdent spec => (b.addSpecIdent spec).2
  | .addVariable ident type => (b.addVariable ident type).2
  | .addFunction info => (b.addFunction info).2
  | .addStruct info => (b.addStruct info).2
  | .emit words => b.emit words
  | .emitAt line words => b.emitAt line words

/-- The builder after calls, the first one first. -/
def run (b : Builder) (calls : List Call) : Builder := calls.foldl apply b

/-- The condition holds of each call and the builder that it is made on. -/
def Along (P : Builder → Call → Prop) : Builder → List Call → Prop
  | _, [] => True
  | b, call :: calls => P b call ∧ Along P (b.apply call) calls

instance Along.decide (P : Builder → Call → Prop) [∀ b call, Decidable (P b call)] :
    ∀ b calls, Decidable (Along P b calls)
  | _, [] => isTrue trivial
  | b, call :: calls =>
    have := Along.decide P (b.apply call) calls
    inferInstanceAs (Decidable (P b call ∧ Along P (b.apply call) calls))

variable {b : Builder} {call : Call} {calls : List Call} {m : Module}

@[simp] theorem run_nil : b.run [] = b := rfl

@[simp] theorem run_cons : b.run (call :: calls) = (b.apply call).run calls := rfl

/-! ### Words -/

/-- The words that a call appends. -/
def Call.words : Call → List Word
  | .emit words | .emitAt _ words => words
  | _ => []

/-- The words that calls append. -/
def emitted (calls : List Call) : List Word := calls.flatMap Call.words

theorem code_apply : (b.apply call).code.toList = b.code.toList ++ call.words := by
  cases call <;> simp [apply, Call.words, setTypes, addType, addFile, addIdent, addSpecIdent, addVariable,
    addFunction, addStruct, emit, emitAt]

/-- **The stream is the words of the calls in order.** -/
theorem code_run : ∀ {b : Builder} {calls : List Call},
    (b.run calls).code.toList = b.code.toList ++ emitted calls
  | b, [] => by simp [emitted]
  | b, call :: calls => by
    rw [run_cons, code_run, code_apply, List.append_assoc]
    rfl

theorem offset_apply : (b.apply call).offset = b.offset + call.words.length := by
  simpa [offset] using congrArg List.length (@code_apply b call)

theorem offset_le_apply : b.offset ≤ (b.apply call).offset := by
  rw [offset_apply]
  exact Nat.le_add_right _ _

/-! ### Modules -/

/-- The module of what was added so far, without the lines of its code. -/
def draft (b : Builder) : Module where
  code := b.code.toList
  lines := .single 0 (.ofNat 0)
  files := b.files
  idents := b.idents
  specIdents := b.specIdents
  functions := b.functions
  structs := b.structs
  types := b.types

/-- **A builder fails to build only on account of its lines.** -/
theorem build_ok_iff : b.build = .ok m ↔
    ∃ lines, LineTable.ofEntries b.lineEntries = .ok lines ∧ m = { b.draft with lines } := by
  unfold build draft
  cases LineTable.ofEntries b.lineEntries with
  | error fault => simp [Except.mapError, bind, Except.bind]
  | ok lines =>
    simp only [Except.mapError, bind, Except.bind, pure, Except.pure, Except.ok.injEq, exists_eq_left']
    exact eq_comm

/-- **What the tables hold stays where it is**, unless the types are replaced. -/
theorem extends_apply (hcall : ∀ types, call ≠ .setTypes types) :
    (b.apply call).draft.Extends b.draft := by
  have hpush : ∀ {α : Type} (entries : Array α) a, entries.toList <+: (entries.push a).toList :=
    fun entries a => by simp
  cases call with
  | setTypes types => exact absurd rfl (hcall types)
  | addType descriptor => exact { Module.Extends.refl b.draft with types := hpush _ _ }
  | addFile name => exact { Module.Extends.refl b.draft with files := hpush _ _ }
  | addIdent ident => exact { Module.Extends.refl b.draft with idents := hpush _ _ }
  | addSpecIdent spec => exact { Module.Extends.refl b.draft with specIdents := hpush _ _ }
  | addVariable ident type =>
    exact { Module.Extends.refl b.draft with idents := hpush _ _, specIdents := hpush _ _ }
  | addFunction info => exact { Module.Extends.refl b.draft with functions := hpush _ _ }
  | addStruct info => exact { Module.Extends.refl b.draft with structs := hpush _ _ }
  | emit words => exact { Module.Extends.refl b.draft with }
  | emitAt line words => exact { Module.Extends.refl b.draft with }

end Builder

end Wordcode
