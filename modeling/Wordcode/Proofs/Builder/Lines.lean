import Wordcode.Proofs.Builder.Calls

/-! # Lines of built modules

An `emitAt` call marks the code from the offset of the builder on with a line and the file that was added
last (`marks`). An offset belongs to the last mark that was made at or before it (`attribution`). A builder
keeps fewer entries than there are marks: one for each offset, and none that repeats the one before it. Still
both name the same line and file for every offset, and each call keeps it that way (`Attributed.apply`). So
does the module that is built (`built_lines`). -/

namespace Wordcode

/-- The line and file that an entry names. -/
def LineInfo.source (info : LineInfo) : UInt32 × FileIndex := (info.line, info.file)

namespace Builder

/-! ### Marks -/

/-- What an `emitAt` call says: from the offset on, code belongs to a line of a file. -/
structure Mark where
  offset : Nat
  line : UInt32
  file : FileIndex

/-- The line and file that a mark names. -/
def Mark.source (mark : Mark) : UInt32 × FileIndex := (mark.line, mark.file)

/-- The mark that a call makes, if `offset` words and `files` files were added before it. Without a file
the first one is named. -/
def Call.mark? (offset files : Nat) : Call → Option Mark
  | .emitAt line _ => some ⟨offset, line, .ofNat (files - 1)⟩
  | _ => none

/-- The number of files that a call adds. -/
def Call.fileCount : Call → Nat
  | .addFile _ => 1
  | _ => 0

/-- The marks that calls make, in order. -/
def marks : Nat → Nat → List Call → List Mark
  | _, _, [] => []
  | offset, files, call :: calls =>
    (call.mark? offset files).toList ++ marks (offset + call.words.length) (files + call.fileCount) calls

/-- The line and file that an offset belongs to: those of the last mark made at or before it, and line
zero of the first file if there is none. -/
def attribution (calls : List Call) (offset : Nat) : UInt32 × FileIndex :=
  (((marks 0 0 calls).reverse.find? (·.offset ≤ offset)).map Mark.source).getD (0, .ofNat 0)

/-! ### Noting lines -/

section Note

variable {lines : List LineInfo} {info : LineInfo}

theorem mem_noteLine {entry : LineInfo} (h : entry ∈ noteLine lines info) :
    entry = info ∨ entry ∈ lines := by
  unfold noteLine at h
  split at h
  · simpa using h
  · split_ifs at h
    · exact (List.mem_cons.mp h).imp_right (List.mem_cons_of_mem _)
    · exact .inr h
    · exact List.mem_cons.mp h

variable (hbehind : ∀ entry ∈ lines, entry.start ≤ info.start)
include hbehind

theorem pairwise_noteLine (h : lines.Pairwise fun later earlier => earlier.start < later.start) :
    (noteLine lines info).Pairwise fun later earlier => earlier.start < later.start := by
  unfold noteLine
  split
  · exact List.pairwise_singleton _ _
  · next last earlier =>
    obtain ⟨hlast, hearlier⟩ := List.pairwise_cons.mp h
    split_ifs with hstart hsource
    · exact List.pairwise_cons.mpr ⟨fun entry hentry => hstart ▸ hlast entry hentry, hearlier⟩
    · exact h
    · have hlt : last.start < info.start :=
        UInt32.lt_of_le_of_ne (hbehind last List.mem_cons_self) hstart
      refine List.pairwise_cons.mpr ⟨List.forall_mem_cons.mpr ⟨hlt, fun entry hentry => ?_⟩, h⟩
      exact UInt32.lt_trans (hlast entry hentry) hlt

/-- **A noted line** holds from its start on, and nothing changes before it. -/
theorem find?_noteLine (p : Nat) :
    ((noteLine lines info).find? (·.start.toNat ≤ p)).map LineInfo.source =
      if info.start.toNat ≤ p then some info.source
      else (lines.find? (·.start.toNat ≤ p)).map LineInfo.source := by
  have hcons : ∀ entries : List LineInfo,
      ((info :: entries).find? (·.start.toNat ≤ p)).map LineInfo.source =
        if info.start.toNat ≤ p then some info.source
        else (entries.find? (·.start.toNat ≤ p)).map LineInfo.source := by
    intro entries
    by_cases hp : info.start.toNat ≤ p <;> simp [hp]
  unfold noteLine
  split
  · exact hcons []
  · next last earlier =>
    split
    · next hstart =>
      rw [hcons]
      split_ifs with hp
      · rfl
      · -- the entry that is replaced does not hold before its start either
        rw [List.find?_cons_of_neg (by simpa [hstart] using hp)]
    · split
      · next hsource =>
        split_ifs with hp
        · -- the last entry names the same source, and it holds here already
          have hlast : last.start.toNat ≤ p :=
            Nat.le_trans (UInt32.le_iff_toNat_le.mp (hbehind last List.mem_cons_self)) hp
          rw [List.find?_cons_of_pos (by simpa using hlast), Option.map_some, LineInfo.source, hsource.1,
            hsource.2, LineInfo.source]
        · rfl
      · exact hcons _

end Note

/-! ### Runs -/

variable {b : Builder} {call : Call} {calls : List Call} {ms : List Mark}

/-- The entries of the builder name the same sources as the marks made so far. -/
structure Attributed (b : Builder) (ms : List Mark) : Prop where
  currentFile : b.currentFile = .ofNat (b.files.size - 1)
  increasing : b.lines.Pairwise fun later earlier => earlier.start < later.start
  behind : ∀ entry ∈ b.lines, entry.start.toNat ≤ b.offset
  agrees : ∀ p, (b.lines.find? (·.start.toNat ≤ p)).map LineInfo.source =
    (ms.reverse.find? (·.offset ≤ p)).map Mark.source

theorem attributed_empty : Attributed empty [] := by
  refine ⟨rfl, .nil, ?_, fun p => rfl⟩
  rintro entry ⟨⟩

theorem Attributed.unmarked (h : Attributed b ms) (hlines : (b.apply call).lines = b.lines)
    (hfile : (b.apply call).currentFile = .ofNat ((b.apply call).files.size - 1)) :
    Attributed (b.apply call) (ms ++ []) := by
  rw [List.append_nil]
  refine ⟨hfile, ?_, ?_, ?_⟩
  · rw [hlines]
    exact h.increasing
  · rw [hlines]
    exact fun entry hentry => Nat.le_trans (h.behind entry hentry) offset_le_apply
  · rw [hlines]
    exact h.agrees

theorem Attributed.emitAt (h : Attributed b ms) (hoffset : b.offset < UInt32.size) (line : UInt32)
    (words : List Word) :
    Attributed (b.emitAt line words) (ms ++ [⟨b.offset, line, .ofNat (b.files.size - 1)⟩]) := by
  have hstart : (UInt32.ofNat b.offset).toNat = b.offset := UInt32.toNat_ofNat_of_lt' hoffset
  have hbehind : ∀ entry ∈ b.lines, entry.start ≤ .ofNat b.offset := fun entry hentry => by
    rw [UInt32.le_iff_toNat_le, hstart]
    exact h.behind entry hentry
  have hle : b.offset ≤ (b.emitAt line words).offset := @offset_le_apply b (.emitAt line words)
  refine ⟨h.currentFile, pairwise_noteLine hbehind h.increasing, fun entry hentry => ?_, fun p => ?_⟩
  · rcases mem_noteLine hentry with rfl | hentry
    · exact Nat.le_trans (Nat.le_of_eq hstart) hle
    · exact Nat.le_trans (h.behind entry hentry) hle
  · show ((noteLine _ _).find? _).map _ = _
    rw [find?_noteLine hbehind, List.reverse_append, List.reverse_singleton, List.singleton_append,
      List.find?_cons, h.agrees, hstart, h.currentFile]
    by_cases hp : b.offset ≤ p <;> simp [hp, LineInfo.source, Mark.source]

/-- **A call keeps the entries in agreement with the marks.** -/
theorem Attributed.apply (h : Attributed b ms)
    (hmark : ∀ mark ∈ call.mark? b.offset b.files.size, mark.offset < UInt32.size) :
    Attributed (b.apply call) (ms ++ (call.mark? b.offset b.files.size).toList) := by
  cases call with
  | emitAt line words => exact h.emitAt (hmark _ rfl) line words
  | addFile name => exact h.unmarked rfl (by simp [Builder.apply, addFile])
  | _ => exact h.unmarked rfl h.currentFile

theorem files_size_apply : (b.apply call).files.size = b.files.size + call.fileCount := by
  cases call <;> simp [apply, Call.fileCount, setTypes, addType, addFile, addIdent, addSpecIdent,
    addVariable, addFunction, addStruct, emit, emitAt]

theorem marks_apply : marks b.offset b.files.size (call :: calls) =
    (call.mark? b.offset b.files.size).toList ++
      marks (b.apply call).offset (b.apply call).files.size calls := by
  rw [marks, offset_apply, files_size_apply]

/-- **A run keeps the entries in agreement with the marks**, if the offsets of the marks fit into 32 bits. -/
theorem Attributed.run : ∀ {b : Builder} {ms : List Mark} {calls : List Call}, Attributed b ms →
    (∀ mark ∈ marks b.offset b.files.size calls, mark.offset < UInt32.size) →
    Attributed (b.run calls) (ms ++ marks b.offset b.files.size calls)
  | b, ms, [], h, _ => by simpa [marks] using h
  | b, ms, call :: calls, h, hmarks => by
    rw [marks_apply] at hmarks ⊢
    obtain ⟨hcall, hcalls⟩ := List.forall_mem_append.mp hmarks
    rw [← List.append_assoc]
    exact (h.apply fun mark hmark => hcall mark (Option.mem_toList.mpr hmark)).run hcalls

theorem offset_le_of_mem_marks {mark : Mark} : ∀ {offset files : Nat} {calls : List Call},
    mark ∈ marks offset files calls → mark.offset ≤ offset + (emitted calls).length
  | _, _, [], h => nomatch h
  | offset, files, call :: calls, h => by
    have hlength : (emitted (call :: calls)).length = call.words.length + (emitted calls).length :=
      List.length_append
    rcases List.mem_append.mp h with h | h
    · have hoffset : mark.offset = offset := by
        cases call with
        | emitAt line words => exact congrArg Mark.offset (List.mem_singleton.mp h)
        | _ => cases h
      omega
    · have hle := offset_le_of_mem_marks h
      omega

/-! ### Built modules -/

/-- Entries that increase are accepted, with one for offset zero in front if need be. -/
theorem exists_ofEntries_lineEntries
    (h : b.lines.Pairwise fun later earlier => earlier.start < later.start) :
    ∃ lines, LineTable.ofEntries b.lineEntries = .ok lines := by
  have hreverse := List.pairwise_reverse.mpr h
  rw [LineTable.exists_ofEntries_iff]
  unfold lineEntries
  split
  · exact ⟨rfl, List.pairwise_singleton _ _⟩
  · next first rest heq =>
    rw [heq] at hreverse
    split_ifs with hfirst
    · exact ⟨congrArg some hfirst, hreverse⟩
    · have hpos : 0 < first.start := UInt32.pos_iff_ne_zero.mpr hfirst
      refine ⟨rfl, List.pairwise_cons.mpr ⟨List.forall_mem_cons.mpr ⟨hpos, fun entry hentry => ?_⟩, hreverse⟩⟩
      exact UInt32.lt_trans hpos ((List.pairwise_cons.mp hreverse).1 entry hentry)

/-- Where no entry of the builder holds, the code is attributed to line zero. -/
theorem find?_lineEntries (p : Nat) :
    (b.lineEntries.reverse.find? (·.start.toNat ≤ p)).map LineInfo.source =
      some (((b.lines.find? (·.start.toNat ≤ p)).map LineInfo.source).getD (0, .ofNat 0)) := by
  have hzero : (([⟨0, 0, .ofNat 0⟩] : List LineInfo).find? (·.start.toNat ≤ p)).map LineInfo.source =
      some (0, .ofNat 0) := by simp [LineInfo.source]
  unfold lineEntries
  split
  · next heq =>
    rw [List.reverse_eq_nil_iff.mp heq]
    exact hzero
  · next first rest heq =>
    have hlines : (first :: rest).reverse = b.lines := by rw [← heq, List.reverse_reverse]
    split_ifs with hfirst
    · -- the first entry holds from zero on, so there is always one that holds
      have hsome : (b.lines.find? (·.start.toNat ≤ p)).isSome :=
        List.find?_isSome.mpr ⟨first, by simp [← hlines], by simp [hfirst]⟩
      obtain ⟨entry, hentry⟩ := Option.isSome_iff_exists.mp hsome
      rw [hlines, hentry, Option.map_some, Option.getD_some]
    · rw [List.reverse_cons, hlines, List.find?_append]
      cases b.lines.find? (·.start.toNat ≤ p) with
      | none => exact hzero
      | some entry => rfl

theorem Attributed.exists_build (h : Attributed b ms) : ∃ m, b.build = .ok m := by
  obtain ⟨lines, hlines⟩ := exists_ofEntries_lineEntries h.increasing
  exact ⟨_, build_ok_iff.mpr ⟨lines, hlines, rfl⟩⟩

/-- **The lines of a built module.** A run of calls that append fewer than 2³² words builds, and every
offset belongs to the line and file of the last mark that was made at or before it. -/
theorem built_lines (calls : List Call) (h : (emitted calls).length < UInt32.size) :
    ∃ m, (empty.run calls).build = .ok m ∧
      ∀ offset, (m.lines.lookup offset).source = attribution calls offset := by
  have hrun : Attributed (empty.run calls) (marks 0 0 calls) :=
    attributed_empty.run fun mark hmark => by
      have hle : mark.offset ≤ 0 + (emitted calls).length := offset_le_of_mem_marks hmark
      omega
  obtain ⟨m, hbuild⟩ := hrun.exists_build
  refine ⟨m, hbuild, fun p => ?_⟩
  obtain ⟨lines, hlines, rfl⟩ := build_ok_iff.mp hbuild
  have hlookup := find?_lineEntries (b := empty.run calls) p
  rw [← LineTable.ofEntries_ok_iff.mp hlines, LineTable.find?_reverse_eq_lookup, Option.map_some,
    Option.some.injEq, hrun.agrees] at hlookup
  exact hlookup

/-- A word in front of the first mark, two marks at one offset, and marks of one line in two files. -/
def twoFiles : List Call :=
  [.emit [0], .addFile "first", .emitAt 4 [0], .emitAt 5 [], .emitAt 6 [0, 0], .addFile "second",
    .emitAt 6 [0], .emitAt 6 [0]]

theorem built_lines_twoFiles : ∃ m, (empty.run twoFiles).build = .ok m ∧
    (List.range 6).map (fun offset => (m.lines.lookup offset).source) =
      [(0, .ofNat 0), (4, .ofNat 0), (6, .ofNat 0), (6, .ofNat 0), (6, .ofNat 1), (6, .ofNat 1)] := by
  obtain ⟨m, hbuild, hlines⟩ := built_lines twoFiles (by decide)
  refine ⟨m, hbuild, ?_⟩
  simp only [hlines]
  decide

end Builder

end Wordcode
