import Wordcode.Proofs.Instruction.Placement

/-! # Modules that grow

A module extends another one if the tables of that one are the first entries of its own, whatever their code
and lines are (`Module.Extends`). An entry keeps its index when tables grow, so what was valid stays valid:
descriptors, specialized identifiers and code. New entries and further words then make a valid module if they
are valid themselves (`Extends.valid`). -/

namespace Wordcode

theorem getElem?_of_prefix_toList {α : Type} {entries entries' : Array α}
    (h : entries.toList <+: entries'.toList) {i : Nat} {a : α} (ha : entries[i]? = some a) :
    entries'[i]? = some a := by
  rw [← Array.getElem?_toList] at ha ⊢
  obtain ⟨hi, rfl⟩ := List.getElem?_eq_some_iff.mp ha
  exact List.prefix_iff_getElem?.mp h i hi

theorem size_le_of_prefix_toList {α : Type} {entries entries' : Array α}
    (h : entries.toList <+: entries'.toList) : entries.size ≤ entries'.size := by
  simpa using h.length_le

namespace Module

/-- The tables of `m` are the first entries of those of `m'`. -/
structure Extends (m' m : Module) : Prop where
  files : m.files.toList <+: m'.files.toList
  idents : m.idents.toList <+: m'.idents.toList
  specIdents : m.specIdents.toList <+: m'.specIdents.toList
  functions : m.functions.toList <+: m'.functions.toList
  structs : m.structs.toList <+: m'.structs.toList
  types : m.types.entries.toList <+: m'.types.entries.toList

variable {m m' m'' : Module}

theorem Extends.refl (m : Module) : m.Extends m :=
  ⟨List.prefix_rfl, List.prefix_rfl, List.prefix_rfl, List.prefix_rfl, List.prefix_rfl, List.prefix_rfl⟩

theorem Extends.trans (h' : m''.Extends m') (h : m'.Extends m) : m''.Extends m :=
  ⟨h.files.trans h'.files, h.idents.trans h'.idents, h.specIdents.trans h'.specIdents,
    h.functions.trans h'.functions, h.structs.trans h'.structs, h.types.trans h'.types⟩

/-- The words are whole instructions that refer to what exists. -/
def CodeValid (m : Module) (natives : Option NativeRegistry) (code : List Word) : Prop :=
  ∃ instructions, Walk.Splits code 0 instructions ∧
    ∀ l ∈ instructions, m.OperandsValid natives l.instruction

instance (m : Module) (natives : Option NativeRegistry) (code : List Word) :
    Decidable (m.CodeValid natives code) :=
  decidable_of_iff ({ m with code }.codeFault? natives = none) codeFault?_eq_none_iff_splits

theorem codeValid_nil (m : Module) (natives : Option NativeRegistry) : m.CodeValid natives [] :=
  ⟨[], .finished, fun _ hl => nomatch hl⟩

theorem CodeValid.append {natives : Option NativeRegistry} {code words : List Word}
    (hcode : m.CodeValid natives code) (hwords : m.CodeValid natives words) :
    m.CodeValid natives (code ++ words) := by
  obtain ⟨instructions, hsplits, hvalid⟩ := hcode
  obtain ⟨rest, hrest, hvalid'⟩ := hwords
  refine ⟨_, hsplits.append hrest, fun l hl => ?_⟩
  rcases List.mem_append.mp hl with hl | hl
  · exact hvalid l hl
  · obtain ⟨l, hmem, rfl⟩ := List.mem_map.mp hl
    exact hvalid' l hmem

section Valid
variable (h : m'.Extends m)
include h

theorem Extends.types_size_le : m.types.size ≤ m'.types.size := size_le_of_prefix_toList h.types

theorem Extends.descriptorValid {descriptor : TypeDescriptor} (hd : m.DescriptorValid descriptor) :
    m'.DescriptorValid descriptor := by
  cases descriptor with
  | scalar kind => exact hd
  | vector element => exact Nat.lt_of_lt_of_le hd h.types_size_le
  | struct id fields =>
    obtain ⟨info, hinfo, hlength, hfields⟩ := hd
    exact ⟨info, getElem?_of_prefix_toList h.structs hinfo, hlength,
      fun field hf => Nat.lt_of_lt_of_le (hfields field hf) h.types_size_le⟩

theorem Extends.specIdentValid {spec : SpecIdent} (hs : m.SpecIdentValid spec) : m'.SpecIdentValid spec :=
  ⟨Nat.lt_of_lt_of_le hs.1 (size_le_of_prefix_toList h.idents), Nat.lt_of_lt_of_le hs.2 h.types_size_le⟩

theorem Extends.operandsValid {natives : Option NativeRegistry} {i : Instruction}
    (hi : m.OperandsValid natives i) : m'.OperandsValid natives i := by
  have hfunctions : m.functions.size ≤ m'.functions.size := size_le_of_prefix_toList h.functions
  have hspecs : m.specIdents.size ≤ m'.specIdents.size := size_le_of_prefix_toList h.specIdents
  have htypes : ∀ {type : TypeIndex} {descriptor}, m.types.get? type = some descriptor →
      m'.types.get? type = some descriptor := getElem?_of_prefix_toList h.types
  cases i with
  | call op argc function target typeMask => exact Nat.lt_of_lt_of_le hi hfunctions
  | ret function count type => exact fun hpos => by have := hi hpos; omega
  | ident op lval spec => exact Nat.lt_of_lt_of_le hi hspecs
  | prologue params returns logLength => exact fun spec hspec => Nat.lt_of_lt_of_le (hi spec hspec) hspecs
  | newVector type count =>
    exact ⟨hi.1.imp (fun ⟨element, hd⟩ => ⟨element, htypes hd⟩)
      fun ⟨id, fields, hd⟩ => ⟨id, fields, htypes hd⟩, hi.2⟩
  | _ => exact hi

theorem Extends.codeValid {natives : Option NativeRegistry} {code : List Word}
    (hc : m.CodeValid natives code) : m'.CodeValid natives code := by
  obtain ⟨instructions, hsplits, hvalid⟩ := hc
  exact ⟨instructions, hsplits, fun l hl => h.operandsValid (hvalid l hl)⟩

/-- **A valid module stays valid when it grows**, if what is new is valid. -/
theorem Extends.valid {natives : Option NativeRegistry} (hm : m.Valid natives)
    (htypes : ∀ descriptor ∈ m'.types.entries,
      descriptor ∈ m.types.entries ∨ m'.DescriptorValid descriptor)
    (hspecs : ∀ spec ∈ m'.specIdents, spec ∈ m.specIdents ∨ m'.SpecIdentValid spec)
    (hfiles : m'.files = #[] ∨ ∀ info ∈ m'.lines.entries, info.file.toNat < m'.files.size)
    (hcode : ∃ words, m'.code = m.code ++ words ∧ m.CodeValid natives words) : m'.Valid natives := by
  obtain ⟨words, hwords, hnew⟩ := hcode
  refine ⟨fun descriptor hd => ?_, fun spec hspec => ?_, hfiles, ?_⟩
  · exact (htypes descriptor hd).elim (fun hold => h.descriptorValid (hm.types descriptor hold)) id
  · exact (hspecs spec hspec).elim (fun hold => h.specIdentValid (hm.specIdents spec hold)) id
  · rw [hwords]
    exact h.codeValid (CodeValid.append hm.code hnew)

end Valid

end Module

end Wordcode
