import Mathlib.Data.List.Nodup
import Wordcode.Module.Payload
import Wordcode.Proofs.Json.Reading
import Wordcode.Proofs.LineTable

/-! # Reading written payloads

Every module is read from its payload (`Module.ofPayload_toPayload`). Each table entry is read from its
written form (`ReadsBack`): a record by its fields, a table entry by entry. -/

namespace Wordcode

namespace Json

variable {α β γ : Type}

/-- Every value is read from its written form. -/
abbrev ReadsBack (toJson : α → Json) (ofJson? : Json → Option α) : Prop :=
  ∀ x, ofJson? (toJson x) = some x

theorem mapM_map_of_forall {f : β → Option γ} {g : α → β} {k : α → γ} : ∀ {xs : List α},
    (∀ x ∈ xs, f (g x) = some (k x)) → (xs.map g).mapM f = some (xs.map k)
  | [], _ => rfl
  | x :: xs, h => by
    obtain ⟨hx, hxs⟩ := List.forall_mem_cons.mp h
    rw [List.map_cons, List.mapM_cons, hx, mapM_map_of_forall hxs]
    rfl

/-! ### Records -/

theorem named?_members (members : List (String × Json)) :
    named? (members.map fun (name, value) => (bytesOf name, value)) = some members := by
  rw [named?, mapM_map_of_forall (k := id) fun m _ => by dsimp only; rw [textOf?_bytesOf]; rfl,
    List.map_id]

theorem field?_of_mem {name : String} {value : Json} : ∀ {members : List (String × Json)},
    (members.map (·.1)).Nodup → (name, value) ∈ members → field? members name = some (some value)
  | m :: members, hnodup, hmem => by
    obtain ⟨hnot, hnodup⟩ := List.nodup_cons.mp hnodup
    rcases List.mem_cons.mp hmem with rfl | hmem
    · have hnone : members.filter (·.1 == name) = [] := by
        refine List.filter_eq_nil_iff.mpr fun m hm he => hnot ?_
        exact List.mem_map.mpr ⟨m, hm, by simpa using he⟩
      rw [field?, List.filter_cons_of_pos (by simp), hnone]
    · have hne : m.1 ≠ name := fun he => hnot (List.mem_map.mpr ⟨_, hmem, he.symm⟩)
      rw [field?, List.filter_cons_of_neg (by simpa using hne)]
      exact field?_of_mem hnodup hmem

/-- **A record of different names is read from its members.** -/
theorem record?_ofMembers {members : List (String × Json)} {names : List String}
    (hnames : members.map (·.1) = names) (hnodup : names.Nodup) :
    (ofMembers members).record? names = some (members.map (·.2)) := by
  subst hnames
  have hfields : (members.map (·.1)).mapM (field? members) = some (members.map (some ·.2)) :=
    mapM_map_of_forall fun m hm => field?_of_mem hnodup hm
  have hvalues : (members.map (some ·.2)).mapM id = some (members.map (·.2)) :=
    mapM_map_of_forall fun _ _ => rfl
  rw [record?, ofMembers, partial?, named?_members]
  dsimp only [Option.bind_eq_bind, Option.bind_some]
  rw [hfields]
  exact hvalues

@[simp] theorem choice?_ofMembers (name : String) (contents : Json) :
    (ofMembers [(name, contents)]).choice? = some (name, contents) := by
  rw [ofMembers, List.map_singleton, choice?, textOf?_bytesOf, Option.map_some]

/-! ### Values -/

theorem list?_jsonOfList {toJson : α → Json} {ofJson? : Json → Option α}
    (h : ReadsBack toJson ofJson?) : ReadsBack (jsonOfList toJson) (·.list? ofJson?) := by
  intro entries
  simpa [jsonOfList, list?] using mapM_map_of_forall (k := id) fun x (_ : x ∈ entries) => h x

@[simp] theorem text?_ofText : ReadsBack ofText text? := textOf?_bytesOf

@[simp] theorem uint32?_jsonOfUInt32 : ReadsBack jsonOfUInt32 uint32? := by
  intro n
  have hn := n.toNat_lt
  have hrange : (0 : Int) ≤ n.toNat ∧ (n.toNat : Int) ≤ UInt32.size - 1 := by
    constructor
    · omega
    · simp only [UInt32.size] at *
      omega
  rw [jsonOfUInt32, uint32?, integerIn?, if_pos hrange, Option.map_some, Int.toNat_natCast,
    UInt32.ofNat_toNat]

@[simp] theorem word?_toJson : ReadsBack Word.toJson word? := by
  intro word
  have hrange : Int32.minValue.toInt ≤ word.toInt ∧ word.toInt ≤ Int32.maxValue.toInt :=
    ⟨word.minValue_le_toInt, word.toInt_le⟩
  rw [Word.toJson, word?, integerIn?, if_pos hrange, Option.map_some, Int32.ofInt_toInt]

end Json

open Json

variable {table : Table}

@[simp] theorem Index.ofJson?_toJson : ReadsBack Index.toJson (Index.ofJson? : Json → Option (Index table)) := by
  intro i
  rw [Index.toJson, Index.ofJson?, uint32?_jsonOfUInt32, Option.map_some]

/-! ### Table entries -/

theorem LineInfo.ofJson?_toJson : ReadsBack LineInfo.toJson LineInfo.ofJson? := by
  intro info
  have hrecord : info.toJson.record? ["bytecode_start", "line", "file"] =
      some [jsonOfUInt32 info.start, jsonOfUInt32 info.line, info.file.toJson] :=
    record?_ofMembers rfl (by decide)
  simp [LineInfo.ofJson?, hrecord]

theorem Ident.ofJson?_toJson : ReadsBack Ident.toJson Ident.ofJson? := by
  intro ident
  have hrecord : ident.toJson.record? ["name", "global", "readonly"] =
      some [.ofText ident.name, .bool ident.isGlobal, .bool ident.isReadonly] :=
    record?_ofMembers rfl (by decide)
  simp [Ident.ofJson?, hrecord, bool?]

theorem SpecIdent.ofJson?_toJson : ReadsBack SpecIdent.toJson SpecIdent.ofJson? := by
  intro spec
  have hrecord : spec.toJson.record? ["ident", "ty"] = some [spec.ident.toJson, spec.type.toJson] :=
    record?_ofMembers rfl (by decide)
  simp [SpecIdent.ofJson?, hrecord]

theorem FunctionInfo.ofJson?_toJson : ReadsBack FunctionInfo.toJson FunctionInfo.ofJson? := by
  intro info
  have hrecord : info.toJson.record? ["name", "bytecode_start"] =
      some [.ofText info.name, jsonOfUInt32 info.start] :=
    record?_ofMembers rfl (by decide)
  simp [FunctionInfo.ofJson?, hrecord]

theorem StructInfo.ofJson?_toJson : ReadsBack StructInfo.toJson StructInfo.ofJson? := by
  intro info
  have hrecord : info.toJson.record? ["name", "fields"] =
      some [.ofText info.name, jsonOfList .ofText info.fields] :=
    record?_ofMembers rfl (by decide)
  simp [StructInfo.ofJson?, hrecord, list?_jsonOfList text?_ofText info.fields]

theorem TypeKind.ofName?_name (kind : TypeKind) : TypeKind.ofName? kind.name = some kind := by
  cases kind <;> decide

theorem TypeDescriptor.ofJson?_toJson : ReadsBack TypeDescriptor.toJson TypeDescriptor.ofJson? := by
  intro descriptor
  cases descriptor with
  | scalar kind =>
    have hname : (ofText kind.name).plainChoice? = some kind.name := textOf?_bytesOf kind.name
    simp [TypeDescriptor.ofJson?, TypeDescriptor.toJson, hname, TypeKind.ofName?_name]
  | vector element =>
    have hrecord : (ofMembers [("element", element.toJson)]).record? ["element"] =
        some [element.toJson] := record?_ofMembers rfl (by decide)
    simp [TypeDescriptor.ofJson?, TypeDescriptor.toJson, hrecord]
  | struct id fields =>
    have hrecord : (ofMembers [("struct_id", id.toJson), ("fields", jsonOfList Index.toJson fields)]).record?
        ["struct_id", "fields"] = some [id.toJson, jsonOfList Index.toJson fields] :=
      record?_ofMembers rfl (by decide)
    simp [TypeDescriptor.ofJson?, TypeDescriptor.toJson, hrecord,
      list?_jsonOfList Index.ofJson?_toJson fields]

theorem TypeTable.ofJson?_toJson : ReadsBack TypeTable.toJson TypeTable.ofJson? := by
  intro types
  have hrecord : types.toJson.record? ["entries"] =
      some [jsonOfList TypeDescriptor.toJson types.entries.toList] :=
    record?_ofMembers rfl (by decide)
  simp [TypeTable.ofJson?, hrecord, list?_jsonOfList TypeDescriptor.ofJson?_toJson types.entries.toList]

/-! ### Line tables -/

namespace LineTable

theorem ofJson?_toJson : ReadsBack toJson ofJson? := by
  intro table
  simp [ofJson?, toJson, list?_jsonOfList LineInfo.ofJson?_toJson table.entries.toList, ofEntries_toList,
    Except.toOption]

end LineTable

/-! ### Modules -/

namespace Module

theorem ofJson?_toJson : ReadsBack toJson ofJson? := by
  intro m
  have hrecord : m.toJson.record? ["instructions", "line_table", "filenames", "idents", "spec_idents",
      "functions", "structs", "types"] =
      some [jsonOfList Word.toJson m.code, m.lines.toJson, jsonOfList .ofText m.files.toList,
        jsonOfList Ident.toJson m.idents.toList, jsonOfList SpecIdent.toJson m.specIdents.toList,
        jsonOfList FunctionInfo.toJson m.functions.toList, jsonOfList StructInfo.toJson m.structs.toList,
        m.types.toJson] :=
    record?_ofMembers rfl (by decide)
  simp [ofJson?, hrecord, list?_jsonOfList word?_toJson m.code, LineTable.ofJson?_toJson m.lines,
    list?_jsonOfList text?_ofText m.files.toList, list?_jsonOfList Ident.ofJson?_toJson m.idents.toList,
    list?_jsonOfList SpecIdent.ofJson?_toJson m.specIdents.toList,
    list?_jsonOfList FunctionInfo.ofJson?_toJson m.functions.toList,
    list?_jsonOfList StructInfo.ofJson?_toJson m.structs.toList, TypeTable.ofJson?_toJson m.types]

/-- **Every module is read from its payload.** -/
theorem ofPayload_toPayload (m : Module) : ofPayload m.toPayload = .ok m := by
  rw [ofPayload, toPayload, parse?_render, Option.bind_some, ofJson?_toJson]

end Module

end Wordcode
