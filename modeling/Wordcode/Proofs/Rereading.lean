import Wordcode.Module.Verify
import Wordcode.Proofs.Payload

/-! # Reading and writing payloads again

A payload can spell its module in many ways: its fields in any order, records as arrays, blanks, escapes.
Reading keeps of it what the module is, so writing and reading once more changes nothing, and the verdict of
the verifier is the same (`ofPayload_reread`). On the way the line table is checked: the lines of a module
that was read are those of the document, and they are a line table (`ofJson?_lines`). -/

namespace Wordcode

/-! ### Line entries -/

namespace LineTable

variable {table : LineTable}

theorem ofJson?_eq_some_iff {document : Json} : ofJson? document = some table ↔
    document.list? LineInfo.ofJson? = some table.entries.toList := by
  rw [ofJson?]
  cases document.list? LineInfo.ofJson? with
  | none => simp
  | some entries =>
    rw [Option.bind_eq_bind, Option.bind_some, Option.some.injEq, eq_comm (a := entries),
      ← ofEntries_ok_iff]
    cases ofEntries entries <;> simp [Except.toOption]

end LineTable

namespace Module

variable {payload : Bytes} {document : Json} {m : Module} {entries : List LineInfo}

/-- The names of the fields of a module. -/
def fieldNames : List String :=
  ["instructions", "line_table", "filenames", "idents", "spec_idents", "functions", "structs", "types"]

/-- The line entries that the document of a module lists, in order or not. -/
def listedLines? (document : Json) : Option (List LineInfo) := do
  match ← document.record? fieldNames with
  | [_, lines, _, _, _, _, _, _] => lines.list? LineInfo.ofJson?
  | _ => none

theorem ofJson?_lines (h : ofJson? document = some m) :
    listedLines? document = some m.lines.entries.toList := by
  obtain ⟨fields, hfields, h⟩ := Option.bind_eq_some_iff.mp h
  rw [listedLines?, show document.record? fieldNames = some fields from hfields, Option.bind_eq_bind,
    Option.bind_some]
  split at h
  · obtain ⟨code, -, h⟩ := Option.bind_eq_some_iff.mp h
    obtain ⟨lines, hlines, h⟩ := Option.bind_eq_some_iff.mp h
    obtain ⟨files, -, h⟩ := Option.bind_eq_some_iff.mp h
    obtain ⟨idents, -, h⟩ := Option.bind_eq_some_iff.mp h
    obtain ⟨specIdents, -, h⟩ := Option.bind_eq_some_iff.mp h
    obtain ⟨functions, -, h⟩ := Option.bind_eq_some_iff.mp h
    obtain ⟨structs, -, h⟩ := Option.bind_eq_some_iff.mp h
    obtain ⟨types, -, h⟩ := Option.bind_eq_some_iff.mp h
    cases h
    exact LineTable.ofJson?_eq_some_iff.mp hlines
  · cases h

theorem ofPayload_ok_iff : ofPayload payload = .ok m ↔
    ∃ document, Json.parse? payload = some document ∧ ofJson? document = some m := by
  rw [← Option.bind_eq_some_iff, ofPayload]
  cases (Json.parse? payload).bind ofJson? <;> simp

theorem ofPayload_error (h : ∀ m, ofPayload payload ≠ .ok m) :
    ofPayload payload = .error .malformedPayload := by
  rw [ofPayload] at h ⊢
  cases hread : (Json.parse? payload).bind ofJson? with
  | none => rfl
  | some m =>
    rw [hread] at h
    exact absurd rfl (h m)

/-- A payload whose line entries are refused is refused. -/
theorem ofPayload_of_refused_lines {fault : LineTableFault} (hdocument : Json.parse? payload = some document)
    (hlines : listedLines? document = some entries) (hfault : LineTable.ofEntries entries = .error fault) :
    ofPayload payload = .error .malformedPayload := by
  refine ofPayload_error fun m hm => ?_
  obtain ⟨document', hdocument', hread⟩ := ofPayload_ok_iff.mp hm
  obtain rfl := Option.some.inj (hdocument.symm.trans hdocument')
  obtain rfl := Option.some.inj (hlines.symm.trans (ofJson?_lines hread))
  rw [LineTable.ofEntries_toList] at hfault
  cases hfault

theorem toPayload_injective : Function.Injective toPayload := by
  intro m m' h
  have hread := ofPayload_toPayload m
  rw [h, ofPayload_toPayload] at hread
  exact (Except.ok.inj hread).symm

/-- **Reading and writing again.** Every module is read from the payload it is written as. A payload that is
read can be written and read once more: the module is the same, and so is what the verifier says of it with
any natives. The line table of a module that was read has the entries that its document lists and is what
they are accepted as, and a payload whose line entries are not accepted is not read. -/
theorem ofPayload_reread :
    (∀ m, ofPayload m.toPayload = .ok m) ∧
    (∀ payload m, ofPayload payload = .ok m → ofPayload m.toPayload = ofPayload payload ∧
      ∀ natives, verifyPayload natives m.toPayload = verifyPayload natives payload) ∧
    (∀ payload m, ofPayload payload = .ok m →
      LineTable.ofEntries m.lines.entries.toList = .ok m.lines ∧
        ∃ document, Json.parse? payload = some document ∧
          listedLines? document = some m.lines.entries.toList) ∧
    (∀ payload document entries fault, Json.parse? payload = some document →
      listedLines? document = some entries → LineTable.ofEntries entries = .error fault →
        ofPayload payload = .error .malformedPayload) := by
  refine ⟨ofPayload_toPayload, ?_, ?_, fun _ _ _ _ => ofPayload_of_refused_lines⟩
  · intro payload m h
    have hsame : ofPayload m.toPayload = ofPayload payload := (ofPayload_toPayload m).trans h.symm
    exact ⟨hsame, fun natives => by rw [verifyPayload, verifyPayload, hsame]⟩
  · intro payload m h
    obtain ⟨document, hdocument, hread⟩ := ofPayload_ok_iff.mp h
    exact ⟨LineTable.ofEntries_toList m.lines, document, hdocument, ofJson?_lines hread⟩

/-- A payload that writes its records as arrays, with one line entry. -/
def arrayPayload (start : String) : Bytes :=
  Json.bytesOf ("[[22, 1], [[" ++ start ++ ", 7, 0]], [\"\\u0061\"], [], [], [], [], [[]]]")

/-- The module of an array with a line from offset zero on. -/
def arrayModule : Module where
  code := [22, 1]
  lines := ⟨#[⟨0, 7, ⟨0⟩⟩], by decide, rfl, by decide⟩
  files := #["a"]
  idents := #[]
  specIdents := #[]
  functions := #[]
  structs := #[]
  types := ⟨#[]⟩

/-- It is read, spelled in another way and read again, with the same fault of the verifier; with a line from
offset three on it is not read. -/
theorem ofPayload_reread_array :
    ofPayload (arrayPayload "0") = .ok arrayModule ∧ arrayModule.toPayload ≠ arrayPayload "0" ∧
      ofPayload arrayModule.toPayload = .ok arrayModule ∧
      verifyPayload none arrayModule.toPayload = .error (.unexpectedEnd 2) ∧
      LineTable.ofEntries arrayModule.lines.entries.toList = .ok arrayModule.lines ∧
      ofPayload (arrayPayload "3") = .error .malformedPayload := by
  obtain ⟨-, hagain, hlines, hrefused⟩ := ofPayload_reread
  have hread : ofPayload (arrayPayload "0") = .ok arrayModule := by decide +kernel
  have hfault : verifyPayload none (arrayPayload "0") = .error (.unexpectedEnd 2) := by decide +kernel
  refine ⟨hread, by decide +kernel, (hagain _ _ hread).1.trans hread,
    ((hagain _ _ hread).2 none).trans hfault, (hlines _ _ hread).1, ?_⟩
  have hlisted : (Json.parse? (arrayPayload "3")).bind listedLines? = some [⟨3, 7, ⟨0⟩⟩] := by
    decide +kernel
  obtain ⟨document, hdocument, hentries⟩ := Option.bind_eq_some_iff.mp hlisted
  exact hrefused _ document _ (.lateStart 3) hdocument hentries rfl

end Module

end Wordcode
