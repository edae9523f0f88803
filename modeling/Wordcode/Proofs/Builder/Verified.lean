import Wordcode.Proofs.Builder.Lines

/-! # Built modules are valid

A call is proper if what it adds refers only to what was added before it (`Call.Proper`). A proper call keeps
a builder sound: what was added so far is a valid module, and its lines name files of it (`Sound.apply`). So
the verifier accepts what a run of proper calls builds. An index that a call hands out stays the index of what
the call added (`resolves_run`), as tables only grow at their end. -/

namespace Wordcode

namespace Builder

/-! ### Proper calls -/

/-- What the call adds refers only to what was added before, the built-in types included, and to native
functions of the registry, if there is one. The types are not replaced. -/
def Call.Proper (natives : Option NativeRegistry) (b : Builder) : Call → Prop
  | .setTypes _ => False
  | .addType descriptor => b.draft.DescriptorValid descriptor
  | .addSpecIdent spec => b.draft.SpecIdentValid spec
  | .addVariable _ type => type.toNat < b.types.size
  | .emit words | .emitAt _ words => b.draft.CodeValid natives words
  | .addFile _ | .addIdent _ | .addFunction _ | .addStruct _ => True

instance (natives : Option NativeRegistry) (b : Builder) : ∀ call : Call, Decidable (call.Proper natives b)
  | .setTypes _ => isFalse id
  | .addType descriptor => inferInstanceAs (Decidable (b.draft.DescriptorValid descriptor))
  | .addSpecIdent spec => inferInstanceAs (Decidable (b.draft.SpecIdentValid spec))
  | .addVariable _ type => inferInstanceAs (Decidable (type.toNat < b.types.size))
  | .emit words | .emitAt _ words => inferInstanceAs (Decidable (b.draft.CodeValid natives words))
  | .addFile _ | .addIdent _ | .addFunction _ | .addStruct _ => isTrue trivial

variable {natives : Option NativeRegistry} {b : Builder} {call : Call} {calls : List Call} {m : Module}

/-! ### What a proper call adds -/

section Proper
variable (h : call.Proper natives b)
include h

theorem Call.Proper.keepsTypes : ∀ types, call ≠ .setTypes types := by
  rintro types rfl
  exact h

theorem Call.Proper.codeValid_words : b.draft.CodeValid natives call.words := by
  cases call with
  | emit words => exact h
  | emitAt line words => exact h
  | _ => exact Module.codeValid_nil _ _

theorem Call.Proper.mem_types {descriptor : TypeDescriptor}
    (hd : descriptor ∈ (b.apply call).draft.types.entries) :
    descriptor ∈ b.draft.types.entries ∨ b.draft.DescriptorValid descriptor := by
  cases call with
  | setTypes types => exact h.elim
  | addType added =>
    rcases Array.mem_push.mp hd with hd | rfl
    · exact .inl hd
    · exact .inr h
  | _ => exact .inl hd

theorem Call.Proper.mem_specIdents {spec : SpecIdent} (hs : spec ∈ (b.apply call).draft.specIdents) :
    spec ∈ b.draft.specIdents ∨ (b.apply call).draft.SpecIdentValid spec := by
  cases call with
  | setTypes types => exact h.elim
  | addSpecIdent added =>
    rcases Array.mem_push.mp hs with hs | rfl
    · exact .inl hs
    · exact .inr h
  | addVariable ident type =>
    rcases Array.mem_push.mp hs with hs | rfl
    · exact .inl hs
    · have hident : (Index.ofNat b.idents.size : IdentIndex).toNat < (b.idents.push ident).size := by
        rw [Array.size_push]
        exact Nat.lt_succ_of_le (Module.toNat_ofNat_le _)
      exact .inr ⟨hident, h⟩
  | _ => exact .inl hs

end Proper

/-! ### Sound builders -/

/-- The file was added, or none was when it was named. -/
def FileKnown (b : Builder) (file : FileIndex) : Prop := file.toNat = 0 ∨ file.toNat < b.files.size

theorem FileKnown.apply {file : FileIndex} (h : b.FileKnown file) (call : Call) :
    (b.apply call).FileKnown file := by
  refine h.imp_right fun hlt => ?_
  rw [files_size_apply]
  omega

/-- What was added so far is valid. -/
structure Sound (natives : Option NativeRegistry) (b : Builder) : Prop where
  draft : b.draft.Valid natives
  currentFile : b.FileKnown b.currentFile
  lines : ∀ entry ∈ b.lines, b.FileKnown entry.file

theorem sound_empty : Sound natives empty := by
  refine ⟨⟨?_, ?_, .inl rfl, Module.codeValid_nil _ _⟩, .inl rfl, fun _ h => nomatch h⟩
  · decide
  · simp [empty, Builder.draft]

theorem draft_files (b : Builder) : b.draft.files = #[] ∨
    ∀ info ∈ b.draft.lines.entries, info.file.toNat < b.draft.files.size := by
  rcases Nat.eq_zero_or_pos b.files.size with h | h
  · exact .inl (Array.eq_empty_of_size_eq_zero h)
  · refine .inr fun info hinfo => ?_
    rw [Array.mem_singleton.mp hinfo]
    exact h

theorem Sound.currentFile_apply (h : Sound natives b) (call : Call) :
    (b.apply call).FileKnown (b.apply call).currentFile := by
  cases call with
  | addFile name =>
    refine .inr ?_
    rw [files_size_apply]
    exact Nat.lt_succ_of_le (Module.toNat_ofNat_le _)
  | _ => exact h.currentFile.apply _

theorem Sound.lines_apply (h : Sound natives b) (call : Call) :
    ∀ entry ∈ (b.apply call).lines, (b.apply call).FileKnown entry.file := by
  intro entry hentry
  cases call with
  | emitAt line words =>
    rcases mem_noteLine hentry with rfl | hold
    · exact h.currentFile.apply (.emitAt line words)
    · exact (h.lines entry hold).apply (.emitAt line words)
  | _ => exact (h.lines entry hentry).apply _

/-- **A proper call keeps a builder sound.** -/
theorem Sound.apply (h : Sound natives b) (hcall : call.Proper natives b) :
    Sound natives (b.apply call) where
  draft :=
    have hext := extends_apply hcall.keepsTypes
    hext.valid h.draft (fun _ hd => (hcall.mem_types hd).imp_right hext.descriptorValid)
      (fun _ => hcall.mem_specIdents) (draft_files _) ⟨_, code_apply, hcall.codeValid_words⟩
  currentFile := h.currentFile_apply call
  lines := h.lines_apply call

/-- **A run of proper calls keeps a builder sound.** -/
theorem Sound.run : ∀ {b : Builder} {calls : List Call}, Sound natives b →
    Along (Call.Proper natives) b calls → Sound natives (b.run calls)
  | _, [], h, _ => h
  | _, _ :: _, h, hcalls => (h.apply hcalls.1).run hcalls.2

/-! ### Offsets and indices -/

/-- The offset or the indices that the call keeps fit into 32 bits. Larger ones wrap around. -/
def Call.Fits (b : Builder) : Call → Prop
  | .addType _ => b.types.size < UInt32.size
  | .addFile _ => b.files.size < UInt32.size
  | .addIdent _ => b.idents.size < UInt32.size
  | .addSpecIdent _ => b.specIdents.size < UInt32.size
  | .addVariable .. => b.idents.size < UInt32.size ∧ b.specIdents.size < UInt32.size
  | .addFunction _ => b.functions.size < UInt32.size
  | .addStruct _ => b.structs.size < UInt32.size
  | .emitAt .. => b.offset < UInt32.size
  | .setTypes _ | .emit _ => True

instance (b : Builder) : ∀ call : Call, Decidable (call.Fits b)
  | .addType _ | .addFile _ | .addIdent _ | .addSpecIdent _ | .addFunction _ | .addStruct _ | .emitAt .. =>
    inferInstanceAs (Decidable (_ < _))
  | .addVariable .. => inferInstanceAs (Decidable (_ ∧ _))
  | .setTypes _ | .emit _ => isTrue trivial

/-- The index that the call hands out leads to what the call adds. -/
def Call.Resolves (m : Module) (b : Builder) : Call → Prop
  | .addType descriptor => m.types.get? (b.addType descriptor).1 = some descriptor
  | .addFile name => Index.entry? (b.addFile name).1 m.files = some name
  | .addIdent ident => Index.entry? (b.addIdent ident).1 m.idents = some ident
  | .addSpecIdent spec => Index.entry? (b.addSpecIdent spec).1 m.specIdents = some spec
  | .addVariable ident type => ∃ spec, Index.entry? (b.addVariable ident type).1 m.specIdents = some spec ∧
      spec.ident.entry? m.idents = some ident ∧ spec.type = type
  | .addFunction info => Index.entry? (b.addFunction info).1 m.functions = some info
  | .addStruct info => Index.entry? (b.addStruct info).1 m.structs = some info
  | .setTypes _ | .emit _ | .emitAt .. => True

theorem offset_lt_of_mem_marks {mark : Mark} : ∀ {b : Builder} {calls : List Call},
    Along Call.Fits b calls → mark ∈ marks b.offset b.files.size calls → mark.offset < UInt32.size
  | _, [], _, hmark => nomatch hmark
  | b, call :: calls, h, hmark => by
    rw [marks_apply] at hmark
    rcases List.mem_append.mp hmark with hmark | hmark
    · cases call with
      | emitAt line words =>
        rw [List.mem_singleton.mp hmark]
        exact h.1
      | _ => cases hmark
    · exact offset_lt_of_mem_marks h.2 hmark

/-- The index that the next entry gets leads to it, when the table has grown. -/
theorem entry?_ofNat_size {α : Type} {table : Table} {entries entries' : Array α} {a : α}
    (h : (entries.push a).toList <+: entries'.toList) (hsize : entries.size < UInt32.size) :
    Index.entry? (.ofNat entries.size : Index table) entries' = some a := by
  have hindex : (Index.ofNat entries.size : Index table).toNat = entries.size :=
    UInt32.toNat_ofNat_of_lt' hsize
  rw [Index.entry?, hindex]
  exact getElem?_of_prefix_toList h Array.getElem?_push_size

/-- What a call adds is found in each module that its tables grow to. -/
theorem Call.Fits.resolves (h : call.Fits b) (hm : m.Extends (b.apply call).draft) :
    call.Resolves m b := by
  cases call with
  | addType descriptor => exact entry?_ofNat_size hm.types h
  | addFile name => exact entry?_ofNat_size hm.files h
  | addIdent ident => exact entry?_ofNat_size hm.idents h
  | addSpecIdent spec => exact entry?_ofNat_size hm.specIdents h
  | addVariable ident type =>
    exact ⟨_, entry?_ofNat_size hm.specIdents h.2, entry?_ofNat_size hm.idents h.1, rfl⟩
  | addFunction info => exact entry?_ofNat_size hm.functions h
  | addStruct info => exact entry?_ofNat_size hm.structs h
  | _ => trivial

/-- **Tables only grow at their end.** -/
theorem extends_run : ∀ {b : Builder} {calls : List Call}, Along (Call.Proper natives) b calls →
    (b.run calls).draft.Extends b.draft
  | b, [], _ => .refl b.draft
  | _, _ :: _, h => (extends_run h.2).trans (extends_apply h.1.keepsTypes)

/-- **An index leads to what was added** when it was handed out, whatever calls follow. -/
theorem resolves_run : ∀ {b : Builder} {calls : List Call}, Along (Call.Proper natives) b calls →
    Along Call.Fits b calls → m.Extends (b.run calls).draft → Along (Call.Resolves m) b calls
  | _, [], _, _, _ => trivial
  | _, _ :: _, h, hfits, hm =>
    ⟨hfits.1.resolves (hm.trans (extends_run h.2)), resolves_run h.2 hfits.2 hm⟩

/-! ### Built modules -/

theorem mem_lineEntries {entry : LineInfo} (h : entry ∈ b.lineEntries) :
    entry ∈ b.lines ∨ entry = ⟨0, 0, .ofNat 0⟩ := by
  unfold lineEntries at h
  split at h
  · exact .inr (List.mem_singleton.mp h)
  · next first rest heq =>
    have hlines : entry ∈ first :: rest → entry ∈ b.lines := fun hmem => by
      rwa [← heq, List.mem_reverse] at hmem
    split_ifs at h
    · exact .inl (hlines h)
    · exact (List.mem_cons.mp h).symm.imp_left hlines

theorem Sound.verify (h : Sound natives b) (hbuild : b.build = .ok m) : m.verify natives = .ok () := by
  obtain ⟨lines, hlines, rfl⟩ := build_ok_iff.mp hbuild
  have hfiles : b.files = #[] ∨ ∀ info ∈ lines.entries, info.file.toNat < b.files.size := by
    refine (draft_files b).imp_right fun hdraft info hinfo => ?_
    have hpos : 0 < b.files.size := hdraft _ (Array.mem_singleton.mpr rfl)
    rw [Array.mem_def, LineTable.ofEntries_ok_iff.mp hlines] at hinfo
    have hknown : b.FileKnown info.file := by
      rcases mem_lineEntries hinfo with hmem | rfl
      · exact h.lines info hmem
      · exact .inl rfl
    rcases hknown with hzero | hlt
    · exact hzero ▸ hpos
    · exact hlt
  exact Module.Valid.verify_ok ⟨h.draft.types, h.draft.specIdents, hfiles, h.draft.code⟩

/-- **What proper calls build is verified**, with a registry of native functions or without one. If the
offsets of lines and the indices fit into 32 bits, it is built, and each index that was handed out leads to
what was added with it. -/
theorem proper_build (calls : List Call) (natives : Option NativeRegistry)
    (h : Along (Call.Proper natives) empty calls) :
    (∀ m, (empty.run calls).build = .ok m → m.verify natives = .ok ()) ∧
      (Along Call.Fits empty calls → ∃ m, (empty.run calls).build = .ok m ∧
        m.verify natives = .ok () ∧ Along (Call.Resolves m) empty calls) := by
  have hsound : Sound natives (empty.run calls) := sound_empty.run h
  refine ⟨fun m hbuild => hsound.verify hbuild, fun hfits => ?_⟩
  have hrun : Attributed (empty.run calls) (marks 0 0 calls) :=
    attributed_empty.run fun mark hmark => offset_lt_of_mem_marks hfits hmark
  obtain ⟨m, hbuild⟩ := hrun.exists_build
  refine ⟨m, hbuild, hsound.verify hbuild, ?_⟩
  obtain ⟨lines, -, rfl⟩ := build_ok_iff.mp hbuild
  exact resolves_run h hfits { Module.Extends.refl (empty.run calls).draft with }

/-- A function that makes a point, prints it and returns. -/
def pointCalls : List Call :=
  [.addFile "main", .addStruct ⟨"Point", ["x", "y"]⟩, .addType (.struct ⟨0⟩ [⟨1⟩, ⟨1⟩]),
    .addVariable ⟨"p", false, false⟩ ⟨8⟩, .addFunction ⟨"main", 0⟩,
    .emitAt 1 [Opcode.funStart.toWord, 0, 1, 0, 0],
    .emitAt 2 [Opcode.pushInt.toWord, 3, Opcode.pushInt.toWord, 4, Opcode.newVec.toWord, 8, 2],
    .emit [Opcode.lvalVar.toWord, LvalOp.write.toWord, 0],
    .emitAt 3 [Opcode.pushVar.toWord, 0, Opcode.bCall.toWord, 0], .emit [Opcode.ret.toWord, 0, 0, 0]]

theorem proper_build_pointCalls : ∃ m, (empty.run pointCalls).build = .ok m ∧
    m.verify (some (.ofNames ["print"])) = .ok () ∧ Along (Call.Resolves m) empty pointCalls :=
  (proper_build pointCalls (some (.ofNames ["print"])) (by decide +kernel)).2 (by decide +kernel)

end Builder

end Wordcode
