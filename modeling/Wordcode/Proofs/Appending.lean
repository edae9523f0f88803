import Wordcode.Proofs.Listing
import Wordcode.Proofs.Literal.Widening

/-! # Entries behind the tables of a module

Entries that are appended to the tables of a verified module leave it verified if they are in order themselves
(`Extends.verify_ok`). What an operand of verified code names is an entry that was there before, so the listing
stays the same, with every registry (`Extends.listing_eq`); and the texts of literals go on to parse
(`Extends.typeContext`). The main statement, `append_harmless`, says all of this of one module. -/

namespace Wordcode

theorem Index.entry?_of_prefix_toList {α : Type} {table : Table} {i : Index table} {entries entries' : Array α}
    (h : entries.toList <+: entries'.toList) (hi : i.toNat < entries.size) :
    i.entry? entries' = i.entry? entries := by
  have hentry : entries[i.toNat]? = some entries[i.toNat] := Array.getElem?_eq_getElem hi
  rw [Index.entry?, Index.entry?, hentry]
  exact getElem?_of_prefix_toList h hentry

namespace Module

open Instruction (decode)

variable {m m' : Module}

/-! ### Names -/

section Names
variable (h : m'.Extends m) {natives : NativeRegistry} (offset : Nat)
include h

theorem Extends.functionName_eq {f : FunctionIndex} (hf : f.toNat < m.functions.size) :
    m'.functionName offset f = m.functionName offset f := by
  rw [functionName, functionName, Index.entry?_of_prefix_toList h.functions hf]

theorem Extends.identName_eq (hm : m.identsFault? = none) {i : SpecIdentIndex}
    (hi : i.toNat < m.specIdents.size) : m'.identName offset i = m.identName offset i := by
  have hspec := getElem?_of_prefix_toList h.specIdents (Array.getElem?_eq_getElem hi)
  have hident := (identsFault?_eq_none_iff.mp hm _ (Array.getElem_mem hi)).1
  rw [identName, identName, identName?, identName?, Index.entry?, Index.entry?, hspec,
    Array.getElem?_eq_getElem hi, Option.bind_eq_bind, Option.bind_some, Option.bind_some,
    Index.entry?_of_prefix_toList h.idents hident]

theorem Extends.constructedName_eq (hm : m.typesFault? = none) {i : TypeIndex} {descriptor : TypeDescriptor}
    (hd : m.types.get? i = some descriptor) : m'.constructedName offset i = m.constructedName offset i := by
  have hd' : m'.types.get? i = some descriptor := getElem?_of_prefix_toList h.types hd
  unfold constructedName
  rw [hd, hd']
  cases descriptor with
  | scalar kind => rfl
  | vector element => rfl
  | struct id fields =>
    obtain ⟨info, hinfo, -⟩ := typesFault?_eq_none_iff.mp hm _ (Array.mem_of_getElem? hd)
    have hid : id.toNat < m.structs.size := (Array.getElem?_eq_some_iff.mp hinfo).1
    simp only [Index.entry?_of_prefix_toList h.structs hid]

/-- **An operand that passes its check has the same text** when the tables grow. -/
theorem Extends.operandsText_eq (htypes : m.typesFault? = none) (hidents : m.identsFault? = none)
    {i : Instruction} (hi : m.OperandsValid none i) :
    m'.operandsText natives offset i = m.operandsText natives offset i := by
  cases i with
  | ret function count type =>
    simp only [operandsText, Index.ofWord?, Word.toCount?]
    split_ifs with hneg
    · rfl
    · have hpos : 0 ≤ function := Int32.not_lt.mp hneg
      have hlt : function.toInt < m.functions.size := hi hpos
      have hint : 0 ≤ function.toInt := by simpa [Int32.le_iff_toInt_le] using hpos
      exact h.functionName_eq offset (Nat.lt_of_le_of_lt (toNat_ofNat_le _) (by omega))
  | call op argc function target typeMask => rw [operandsText, operandsText, h.functionName_eq offset hi]
  | newVector type count =>
    obtain ⟨descriptor, hd⟩ : ∃ descriptor, m.types.get? type = some descriptor := by
      rcases hi.1 with ⟨element, hd⟩ | ⟨id, fields, hd⟩ <;> exact ⟨_, hd⟩
    rw [operandsText, operandsText, h.constructedName_eq offset htypes hd]
  | ident op lval spec => rw [operandsText, operandsText, h.identName_eq offset hidents hi]
  | prologue params returns logLength =>
    have hname : ∀ i ∈ params ++ returns, m'.identName offset i = m.identName offset i :=
      fun i hmem => h.identName_eq offset hidents (hi i hmem)
    rw [operandsText, operandsText, Walk.mapM_congr fun i hmem => hname i (List.mem_append_left _ hmem),
      Walk.mapM_congr fun i hmem => hname i (List.mem_append_right _ hmem)]
  | _ => rfl

end Names

/-! ### Listings -/

theorem verify_none {natives : Option NativeRegistry} (h : m.verify natives = .ok ()) :
    m.verify none = .ok () := by
  cases natives with
  | none => exact h
  | some natives => exact (verify_some_iff.mp h).1

section Listings
variable (h : m'.Extends m) (hcode : m'.code = m.code) (hlines : m'.lines = m.lines)
  (hm : m.verify none = .ok ()) (natives : NativeRegistry)
include h hlines hm

theorem Extends.listingLine_eq {l : Located} (hl : l ∈ (Walk.ofCode m.code 0).instructions) :
    m'.listingLine natives l = m.listingLine natives l := by
  obtain ⟨htypes, hidents, -, hfault⟩ := verify_ok_iff.mp hm
  have hvalid := operandFault?_eq_none_iff.mp ((codeFault?_eq_none_iff.mp hfault).1 l hl)
  rw [listingLine, listingLine, h.operandsText_eq l.start htypes hidents hvalid, hlines]

include hcode

/-- **The listing stays the same**, whether there is one or not. -/
theorem Extends.listing_eq : m'.listing natives = m.listing natives := by
  rw [listing, listing, hcode, Walk.visit_congr fun l hl => h.listingLine_eq hlines hm natives hl]

theorem Extends.listingAt_eq {p : Nat} (hp : Walk.Reaches m.code 0 p) :
    m'.listingAt natives p = m.listingAt natives p := by
  rw [listingAt, listingAt, hcode]
  by_cases hlt : p < m.code.length
  · obtain ⟨l, hl, rfl⟩ := Walk.exists_mem_of_reaches (walk_fault?_eq_none hm) hp hlt
    have hat : (⟨l.start, l.instruction, (Cursor.at m.code l.next).pos⟩ : Located) = l := rfl
    simp only [(Walk.reaches_of_mem hl).2, hat, h.listingLine_eq hlines hm natives hl]
  · rw [decode_at_nil (by omega)]

end Listings

/-! ### Appending -/

theorem Extends.typeContext (h : m'.Extends m) : m'.typeContext.Extends m.typeContext := ⟨h.types, h.structs⟩

/-- Entries for the tables of a module. -/
structure Entries where
  idents : Array Ident
  specIdents : Array SpecIdent
  functions : Array FunctionInfo
  structs : Array StructInfo
  types : Array TypeDescriptor

/-- The module with further entries behind those of its tables. -/
def append (m : Module) (new : Entries) : Module :=
  { m with
    idents := m.idents ++ new.idents
    specIdents := m.specIdents ++ new.specIdents
    functions := m.functions ++ new.functions
    structs := m.structs ++ new.structs
    types := ⟨m.types.entries ++ new.types⟩ }

theorem extends_append (m : Module) (new : Entries) : (m.append new).Extends m where
  files := List.prefix_rfl
  idents := by simp [append]
  specIdents := by simp [append]
  functions := by simp [append]
  structs := by simp [append]
  types := by simp [append]

/-- **A verified module stays verified** if the new types and specialized identifiers are in order in the
module that has them. -/
theorem verify_append {natives : Option NativeRegistry} (hm : m.verify natives = .ok ()) {new : Entries}
    (htypes : ∀ descriptor ∈ new.types, (m.append new).DescriptorValid descriptor)
    (hspecs : ∀ spec ∈ new.specIdents, (m.append new).SpecIdentValid spec) :
    (m.append new).verify natives = .ok () := by
  obtain ⟨ht, hi, hl, hc⟩ := verify_ok_iff.mp hm
  have hvalid : m.Valid natives := ⟨typesFault?_eq_none_iff.mp ht, identsFault?_eq_none_iff.mp hi,
    linesFault?_eq_none_iff.mp hl, codeFault?_eq_none_iff_splits.mp hc⟩
  refine ((m.extends_append new).valid hvalid (fun descriptor hd => ?_) (fun spec hs => ?_) hvalid.files
    ⟨[], (List.append_nil _).symm, codeValid_nil m natives⟩).verify_ok
  · exact (Array.mem_append.mp hd).imp_right (htypes descriptor)
  · exact (Array.mem_append.mp hs).imp_right (hspecs spec)

/-- **Entries behind the tables of a verified module change nothing**: with new functions, identifiers and
structs, and with new types and specialized identifiers that are in order, also such that have the names of old
ones, the module is verified, it is listed as before with every registry, and every text that parsed at a type
parses there as an equal value, at the same limit. -/
theorem append_harmless (m : Module) (natives : Option NativeRegistry) (new : Entries)
    (hm : m.verify natives = .ok ())
    (htypes : ∀ descriptor ∈ new.types, (m.append new).DescriptorValid descriptor)
    (hspecs : ∀ spec ∈ new.specIdents, (m.append new).SpecIdentValid spec) :
    (m.append new).verify natives = .ok () ∧
    (∀ registry, (m.append new).listing registry = m.listing registry ∧
      ∀ p, Walk.Reaches m.code 0 p → (m.append new).listingAt registry p = m.listingAt registry p) ∧
    ∀ heap depth type text store value,
      (Literal.parse m.typeContext heap depth type text store).1 = .ok value →
        ∀ heap' store', ∃ value',
          (Literal.parse (m.append new).typeContext heap' depth type text store').1 = .ok value' ∧
            value'.datum = value.datum ∧ value'.eqv value = true := by
  have hext := m.extends_append new
  have hnone := verify_none hm
  refine ⟨verify_append hm htypes hspecs, fun registry => ⟨?_, fun p hp => ?_⟩, ?_⟩
  · exact hext.listing_eq rfl rfl hnone registry
  · exact hext.listingAt_eq rfl rfl hnone registry hp
  · intro heap depth type text store value hparse heap' store'
    exact Literal.parse_widened hext.typeContext hparse heap' store'

/-- A second struct of the name `Point` with one field, a type for it, and a variable of that type. -/
def secondPoint : Entries where
  idents := #[⟨"y", false, false⟩]
  specIdents := #[⟨⟨1⟩, ⟨9⟩⟩]
  functions := #[⟨"main", 7⟩]
  structs := #[⟨"Point", ["x"]⟩]
  types := #[.struct ⟨1⟩ [⟨10⟩], .vector ⟨9⟩]

/-- With a second `Point` behind the first one, the literal of a point is read as one of the first. -/
theorem append_harmless_secondPoint :
    (pointModule.append secondPoint).verify none = .ok () ∧
    (pointModule.append secondPoint).listing .empty = pointModule.listing .empty ∧
    ∃ value, (Literal.parse (pointModule.append secondPoint).typeContext ⟨0⟩ 2 .any "Point\x7b3\x7d"
        .empty).1 = .ok value ∧
      value.datum = .vector ⟨8⟩ [.int 3, .float .zero] := by
  obtain ⟨hverify, hlisting, hparse⟩ := append_harmless pointModule none secondPoint (by decide) (by decide)
    (by decide)
  have hnamed : pointModule.typeContext.structTypeNamed? "Point" = some ⟨8⟩ := by decide +kernel
  have hliteral : Literal.IsLiteral pointModule.typeContext 2 .any "Point\x7b3\x7d"
      (.vector ⟨8⟩ [.int 3, .float .zero]) :=
    ⟨[.name "Point", .leftCurly, .int 3, .rightCurly],
      Literal.Rule.aggregate (.anyStruct rfl (.inr rfl) hnamed rfl)
        (.items (.last (.kept rfl (Literal.Rule.scalar rfl rfl (.inl rfl))))) rfl,
      .inl (Literal.Lexed.ofText_iff.mpr ⟨rfl, 1, rfl⟩)⟩
  obtain ⟨point, hpoint, hdatum⟩ := Literal.exists_parse_of_isLiteral ⟨0⟩ .empty hliteral
  obtain ⟨value, hvalue, hsame, -⟩ := hparse _ _ _ _ _ _ hpoint ⟨0⟩ .empty
  exact ⟨hverify, (hlisting .empty).1, value, hvalue, hsame.trans hdatum⟩

end Module

end Wordcode
