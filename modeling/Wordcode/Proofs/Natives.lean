import Mathlib.Data.Finset.Card
import Wordcode.Proofs.Listing

/-! # Registering native functions

A program that registers names keeps them in two places: in a list, in the order of their indices, and in a
map from each name to its index (`NativeTables`). After any calls both hold what the registry holds
(`NativeTables.agrees_ofNames`), so they are inverse to each other. A registry only ever grows at its end, so
an index keeps its name, and what was verified or listed with it stays so
(`NativeTables.registrations_consistent`). -/

namespace Wordcode

open Instruction (decode)

namespace NativeRegistry

variable {natives natives' : NativeRegistry} {name other : String} {i : NativeIndex}

/-! ### Names and indices -/

theorem lookup?_of_not_mem (h : name ∉ natives.names) : natives.lookup? name = none := by
  rw [lookup?, List.idxOf?_eq_none_iff.mpr h, Option.map_none]

theorem lookup?_of_mem (h : name ∈ natives.names) : natives.lookup? name = some (natives.indexOf name) := by
  obtain ⟨n, hn⟩ := Option.isSome_iff_exists.mp (List.isSome_idxOf?.mpr h)
  rw [lookup?, indexOf, List.idxOf_eq_getD_idxOf?, hn]
  rfl

theorem isSome_lookup?_iff : (natives.lookup? name).isSome ↔ name ∈ natives.names := by
  by_cases h : name ∈ natives.names
  · simp [h, lookup?_of_mem h]
  · simp [h, lookup?_of_not_mem h]

theorem register_of_mem (h : name ∈ natives.names) : natives.register name = natives := dif_pos h

theorem names_register_of_not_mem (h : name ∉ natives.names) :
    (natives.register name).names = natives.names ++ [name] := by
  rw [register, dif_neg h]

theorem indexOf_of_not_mem (h : name ∉ natives.names) : natives.indexOf name = .ofNat natives.size := by
  rw [indexOf, List.idxOf_eq_length h, size]

theorem lookup?_register_of_not_mem (h : name ∉ natives.names) (other : String) :
    (natives.register name).lookup? other =
      if name = other then some (.ofNat natives.size) else natives.lookup? other := by
  have hnames := names_register_of_not_mem h
  split_ifs with hother
  · subst hother
    have hmem : name ∈ (natives.register name).names := by simp [hnames]
    rw [lookup?_of_mem hmem, indexOf, hnames, List.idxOf_append_of_notMem h, List.idxOf_cons_self,
      Nat.add_zero, size]
  · by_cases hold : other ∈ natives.names
    · have hmem : other ∈ (natives.register name).names := by simp [hnames, hold]
      rw [lookup?_of_mem hmem, lookup?_of_mem hold, indexOf, hnames, List.idxOf_append_of_mem hold, indexOf]
    · have hmem : other ∉ (natives.register name).names := by simp [hnames, hold, Ne.symm hother]
      rw [lookup?_of_not_mem hmem, lookup?_of_not_mem hold]

/-- The name at an index leads back to the index. -/
theorem lookup?_of_name? (h : natives.name? i = some name) : natives.lookup? name = some i := by
  obtain ⟨hi, hname⟩ := List.getElem?_eq_some_iff.mp h
  have hindex : natives.names.idxOf name = i.toNat := by rw [← hname, natives.distinct.idxOf_getElem]
  rw [lookup?_of_mem (List.mem_of_getElem? h), indexOf, hindex, Index.ofNat, Index.toNat, UInt32.ofNat_toNat]

/-- **The index of a name leads to it**, if indices of 32 bits are enough for the names. -/
theorem name?_of_lookup? (hsize : natives.size ≤ UInt32.size) (h : natives.lookup? name = some i) :
    natives.name? i = some name := by
  have hmem : name ∈ natives.names := isSome_lookup?_iff.mp (by rw [h]; rfl)
  rw [lookup?_of_mem hmem] at h
  obtain rfl := Option.some.inj h
  have hlt : natives.names.idxOf name < natives.names.length := List.idxOf_lt_length_iff.mpr hmem
  have hindex : (natives.indexOf name).toNat = natives.names.idxOf name :=
    UInt32.toNat_ofNat_of_lt' (Nat.lt_of_lt_of_le hlt hsize)
  rw [name?, hindex, List.getElem?_eq_getElem hlt, List.getElem_idxOf hlt]

/-! ### Registries that grow -/

theorem names_prefix_register (natives : NativeRegistry) (name : String) :
    natives.names <+: (natives.register name).names := by
  by_cases h : name ∈ natives.names
  · rw [register_of_mem h]
  · rw [names_register_of_not_mem h]
    exact List.prefix_append _ _

theorem names_prefix_foldl : ∀ (names : List String) (natives : NativeRegistry),
    natives.names <+: (names.foldl register natives).names
  | [], _ => List.prefix_rfl
  | name :: names, natives =>
    (natives.names_prefix_register name).trans (names_prefix_foldl names (natives.register name))

theorem ofNames_append_prefix (names later : List String) :
    (ofNames names).names <+: (ofNames (names ++ later)).names := by
  rw [ofNames, ofNames, List.foldl_append]
  exact names_prefix_foldl later _

/-- **An index keeps its name** in a registry that grows. -/
theorem name?_of_grown (h : natives.names <+: natives'.names) (hname : natives.name? i = some name) :
    natives'.name? i = some name := by
  obtain ⟨hi, rfl⟩ := List.getElem?_eq_some_iff.mp hname
  exact List.prefix_iff_getElem?.mp h i.toNat hi

theorem mem_names_register : other ∈ (natives.register name).names ↔ other ∈ natives.names ∨ other = name := by
  by_cases h : name ∈ natives.names
  · rw [register_of_mem h]
    exact ⟨.inl, fun hother => hother.elim id fun he => he ▸ h⟩
  · rw [names_register_of_not_mem h, List.mem_append, List.mem_singleton]

theorem mem_names_foldl : ∀ {names : List String} {natives : NativeRegistry},
    name ∈ (names.foldl register natives).names ↔ name ∈ natives.names ∨ name ∈ names
  | [], natives => by simp
  | first :: names, natives => by
    rw [List.foldl_cons, mem_names_foldl, mem_names_register, List.mem_cons, or_assoc]

theorem mem_names_ofNames {names : List String} : name ∈ (ofNames names).names ↔ name ∈ names := by
  rw [ofNames, mem_names_foldl]
  exact or_iff_right List.not_mem_nil

/-- A registry has as many names as there are different ones among those that were registered. -/
theorem size_ofNames (names : List String) : (ofNames names).size = names.toFinset.card := by
  have hnames : (ofNames names).names.toFinset = names.toFinset := by
    ext name
    rw [List.mem_toFinset, List.mem_toFinset, mem_names_ofNames]
  rw [← hnames, List.toFinset_card_of_nodup (ofNames names).distinct, size]

end NativeRegistry

/-! ### Modules and registries that grow -/

namespace Module

variable {m : Module} {natives natives' : NativeRegistry} (h : natives.names <+: natives'.names)
include h

/-- What is verified with a registry is verified with one that has grown. -/
theorem verify_of_grown (hverify : m.verify (some natives) = .ok ()) : m.verify (some natives') = .ok () := by
  obtain ⟨hnone, hnames⟩ := verify_some_iff.mp hverify
  refine verify_some_iff.mpr ⟨hnone, fun l hl native hcall => ?_⟩
  obtain ⟨name, hname⟩ := Option.isSome_iff_exists.mp (hnames l hl native hcall)
  rw [NativeRegistry.name?_of_grown h hname]
  rfl

theorem operandsText_of_grown {i : Instruction} {offset : Nat} {text : String}
    (htext : m.operandsText natives offset i = .ok text) : m.operandsText natives' offset i = .ok text := by
  cases i with
  | callNative native =>
    cases hname : natives.name? native with
    | none =>
      rw [operandsText, hname] at htext
      cases htext
    | some name =>
      rw [operandsText, NativeRegistry.name?_of_grown h hname, ← hname]
      exact htext
  | _ => exact htext

theorem listingLine_of_grown {l : Located} {line : String} (hline : m.listingLine natives l = .ok line) :
    m.listingLine natives' l = .ok line := by
  obtain ⟨text, htext⟩ := listingLine_ok_iff.mp ⟨line, hline⟩
  unfold listingLine at hline ⊢
  rw [operandsText_of_grown h htext, ← htext]
  exact hline

/-- **What is listed stays listed the same.** -/
theorem listing_of_grown {text : String} (hlisting : m.listing natives = .ok text) :
    m.listing natives' = .ok text := by
  obtain ⟨lines, hlines⟩ := listing_ok_iff.mp ⟨text, hlisting⟩
  have hsame : ∀ l ∈ (Walk.ofCode m.code 0).instructions,
      m.listingLine natives l = m.listingLine natives' l := by
    intro l hl
    obtain ⟨line, hline⟩ := ((Walk.visit_ok_iff _ _).mp ⟨lines, hlines⟩).1 l hl
    rw [hline, listingLine_of_grown h hline]
  unfold listing at hlisting ⊢
  rwa [← Walk.visit_congr hsame]

theorem listingAt_of_grown {p : Nat} {line : String × Nat} (hline : m.listingAt natives p = .ok line) :
    m.listingAt natives' p = .ok line := by
  unfold listingAt at hline ⊢
  cases hd : decode (.at m.code p) with
  | error fault c =>
    rw [hd] at hline
    cases hline
  | ok i c =>
    rw [hd] at hline
    cases htext : m.listingLine natives ⟨p, i, c.pos⟩ with
    | error fault =>
      dsimp only at hline
      rw [htext] at hline
      cases hline
    | ok text =>
      dsimp only at hline ⊢
      rw [listingLine_of_grown h htext, ← htext]
      exact hline

end Module

/-! ### Lists and maps -/

/-- A registry as a program keeps it: the names in the order of their indices, and the index of each name. -/
structure NativeTables where
  names : Array String
  indices : Std.HashMap String NativeIndex

namespace NativeTables

/-- The tables without functions. -/
def empty : NativeTables := ⟨#[], ∅⟩

/-- The name at an index. -/
def name? (tables : NativeTables) (i : NativeIndex) : Option String := i.entry? tables.names

/-- The index of a name. -/
def lookup? (tables : NativeTables) (name : String) : Option NativeIndex := tables.indices[name]?

/-- Registers a name. A name that is known keeps its index, another one gets the next index. -/
def register (tables : NativeTables) (name : String) : NativeIndex × NativeTables :=
  match tables.lookup? name with
  | some i => (i, tables)
  | none =>
    let i := .ofNat tables.names.size
    (i, ⟨tables.names.push name, tables.indices.insert name i⟩)

/-- The tables after names were registered in order. -/
def ofNames (names : List String) : NativeTables :=
  names.foldl (fun tables name => (tables.register name).2) empty

/-- The tables hold the names and indices of the registry. -/
structure Agrees (tables : NativeTables) (natives : NativeRegistry) : Prop where
  names : tables.names.toList = natives.names
  indices : ∀ name, tables.lookup? name = natives.lookup? name

variable {tables : NativeTables} {natives : NativeRegistry} {name : String} {i : NativeIndex}

theorem register_of_some (h : tables.lookup? name = some i) : tables.register name = (i, tables) := by
  rw [register, h]

theorem register_of_none (h : tables.lookup? name = none) : tables.register name =
    (.ofNat tables.names.size,
      ⟨tables.names.push name, tables.indices.insert name (.ofNat tables.names.size)⟩) := by
  rw [register, h]

theorem Agrees.name?_eq (h : tables.Agrees natives) (i : NativeIndex) : tables.name? i = natives.name? i := by
  rw [name?, Index.entry?, ← Array.getElem?_toList, h.names, NativeRegistry.name?]

theorem Agrees.size_eq (h : tables.Agrees natives) : tables.names.size = natives.size := by
  rw [← Array.length_toList, h.names, NativeRegistry.size]

/-- **One call**: the tables give the index that the registry gives, and they agree again. -/
theorem Agrees.register (h : tables.Agrees natives) (name : String) :
    (tables.register name).1 = natives.indexOf name ∧
      (tables.register name).2.Agrees (natives.register name) := by
  by_cases hmem : name ∈ natives.names
  · rw [register_of_some ((h.indices name).trans (NativeRegistry.lookup?_of_mem hmem)),
      NativeRegistry.register_of_mem hmem]
    exact ⟨rfl, h⟩
  · rw [register_of_none ((h.indices name).trans (NativeRegistry.lookup?_of_not_mem hmem)), h.size_eq,
      NativeRegistry.indexOf_of_not_mem hmem]
    refine ⟨rfl, ?_, fun other => ?_⟩
    · rw [NativeRegistry.names_register_of_not_mem hmem, ← h.names, Array.toList_push]
    · rw [NativeRegistry.lookup?_register_of_not_mem hmem, ← h.indices other, lookup?,
        Std.HashMap.getElem?_insert, lookup?]
      simp only [beq_iff_eq]

theorem agrees_empty : empty.Agrees .empty := ⟨rfl, fun _ => Std.HashMap.getElem?_empty⟩

theorem Agrees.foldl : ∀ (names : List String) {tables : NativeTables} {natives : NativeRegistry},
    tables.Agrees natives → (names.foldl (fun tables name => (tables.register name).2) tables).Agrees
      (names.foldl NativeRegistry.register natives)
  | [], _, _, h => h
  | name :: names, _, _, h => foldl names (h.register name).2

/-- **After any calls** the tables hold what the registry holds. -/
theorem agrees_ofNames (names : List String) : (ofNames names).Agrees (.ofNames names) :=
  agrees_empty.foldl names

/-- What the list and the map of a registry are to each other after the calls. -/
structure Consistent (tables : NativeTables) (calls : List String) : Prop where
  distinct : tables.names.toList.Nodup
  /-- There are as many names as different ones were registered. -/
  size : tables.names.size = calls.toFinset.card
  registered : ∀ name, (tables.lookup? name).isSome ↔ name ∈ calls
  /-- As long as 32 bits are enough for an index, the map is the inverse of the list. -/
  inverse : tables.names.size ≤ UInt32.size →
    ∀ name i, tables.lookup? name = some i ↔ tables.name? i = some name
  known : ∀ name i, tables.lookup? name = some i → tables.register name = (i, tables)
  fresh : ∀ name, tables.lookup? name = none →
    (tables.register name).1 = .ofNat tables.names.size ∧
      (tables.register name).2.names = tables.names.push name

theorem Agrees.consistent {calls : List String} (h : tables.Agrees (.ofNames calls)) :
    tables.Consistent calls where
  distinct := h.names ▸ (NativeRegistry.ofNames calls).distinct
  size := h.size_eq.trans (NativeRegistry.size_ofNames calls)
  registered name := by
    rw [h.indices, NativeRegistry.isSome_lookup?_iff, NativeRegistry.mem_names_ofNames]
  inverse hsize name i := by
    rw [h.indices, h.name?_eq]
    exact ⟨NativeRegistry.name?_of_lookup? (h.size_eq ▸ hsize), NativeRegistry.lookup?_of_name?⟩
  known _ _ := register_of_some
  fresh name hnone := by
    rw [register_of_none hnone]
    exact ⟨rfl, rfl⟩

/-- **Registering is consistent**, whatever names are registered in whatever order: the list and the map of the
registry belong together, each call gives the index that the registry gives, and an index that has a name
keeps it. So a module that is verified with the registry is verified and listed in the same way when further
names have been registered, and so is each instruction that is listed. -/
theorem registrations_consistent (calls later : List String) :
    (ofNames calls).Consistent calls ∧
    ((ofNames calls).Agrees (.ofNames calls) ∧
      ∀ name, ((ofNames calls).register name).1 = (NativeRegistry.ofNames calls).indexOf name) ∧
    (∀ i name, (ofNames calls).name? i = some name → (ofNames (calls ++ later)).name? i = some name) ∧
    (∀ m : Module, m.verify (some (.ofNames calls)) = .ok () →
      m.verify (some (.ofNames (calls ++ later))) = .ok () ∧
      ∃ text, m.listing (.ofNames calls) = .ok text ∧ m.listing (.ofNames (calls ++ later)) = .ok text) ∧
    ∀ (m : Module) p line, m.listingAt (.ofNames calls) p = .ok line →
      m.listingAt (.ofNames (calls ++ later)) p = .ok line := by
  have hagrees := agrees_ofNames calls
  have hgrows := NativeRegistry.ofNames_append_prefix calls later
  refine ⟨hagrees.consistent, ⟨hagrees, fun name => (hagrees.register name).1⟩, fun i name hname => ?_,
    fun m hverify => ⟨Module.verify_of_grown hgrows hverify, ?_⟩,
    fun m p line => Module.listingAt_of_grown hgrows⟩
  · rw [hagrees.name?_eq] at hname
    rw [(agrees_ofNames (calls ++ later)).name?_eq]
    exact NativeRegistry.name?_of_grown hgrows hname
  · obtain ⟨hnone, hnames⟩ := Module.verify_some_iff.mp hverify
    obtain ⟨text, htext⟩ := (Module.listing_ok_iff_of_verify hnone).mpr hnames
    exact ⟨text, htext, Module.listing_of_grown hgrows htext⟩

/-- A name that is registered twice has one index, and the module that calls the first function is listed
with a third one registered as with two. -/
theorem registrations_consistent_print :
    (ofNames ["print", "sqrt", "print"]).names.size = 2 ∧
    (ofNames ["print", "sqrt", "print"]).lookup? "sqrt" = some ⟨1⟩ ∧
    Module.pointModule.verify (some (.ofNames ["print", "sqrt", "print"])) = .ok () ∧
    ∃ text, Module.pointModule.listing (.ofNames ["print", "sqrt", "print"]) = .ok text ∧
      Module.pointModule.listing (.ofNames (["print", "sqrt", "print"] ++ ["abs"])) = .ok text := by
  have hverify : Module.pointModule.verify (some (.ofNames ["print", "sqrt", "print"])) = .ok () := by decide
  obtain ⟨hconsistent, ⟨hagrees, -⟩, -, hmodules, -⟩ :=
    registrations_consistent ["print", "sqrt", "print"] ["abs"]
  have hsize : (ofNames ["print", "sqrt", "print"]).names.size = 2 := hagrees.size_eq
  have hname : (ofNames ["print", "sqrt", "print"]).name? ⟨1⟩ = some "sqrt" := hagrees.name?_eq ⟨1⟩
  have hfits : (ofNames ["print", "sqrt", "print"]).names.size ≤ UInt32.size := by
    rw [hsize]
    decide
  exact ⟨hsize, (hconsistent.inverse hfits "sqrt" ⟨1⟩).mpr hname, hverify,
    (hmodules Module.pointModule hverify).2⟩

end NativeTables

end Wordcode
