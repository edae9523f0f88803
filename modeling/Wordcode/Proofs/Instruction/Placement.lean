import Wordcode.Proofs.Instruction.Layout
import Wordcode.Proofs.Validity

/-! # Where instructions stand

What a step reads does not depend on where it stands: the same words elsewhere in another stream are read in
the same way (`Reader.Reads.moved`). Decoding is such a step (`Instruction.reads_decode`), so an instruction
keeps its meaning when words are put in front of it, behind it, or cut off behind it. -/

namespace Wordcode

open Instruction (decode)

namespace Reader

variable {α : Type} {step : Reader α} {R : α → List Word → Prop} {code code' : List Word} {p p' : Nat}
  {a : α} {c : Cursor}

theorem Reads.follows (h : Reads step R) (hp : p ≤ code.length) (hread : step (.at code p) = .ok a c) :
    p ≤ c.pos ∧ c.pos ≤ code.length ∧ c = .at code c.pos := by
  obtain ⟨words, -, hpre, rfl⟩ := (h hp a c).mp hread
  exact ⟨Nat.le_add_right _ _, add_length_le_of_prefix_drop hpre hp, rfl⟩

/-- **A step reads the same words in the same way everywhere.** -/
theorem Reads.moved (h : Reads step R) (hp : p ≤ code.length) (hread : step (.at code p) = .ok a c)
    (hp' : p' ≤ code'.length) (hwords : (code.drop p).take (c.pos - p) <+: code'.drop p') :
    step (.at code' p') = .ok a (.at code' (p' + (c.pos - p))) := by
  obtain ⟨words, hR, hpre, rfl⟩ := (h hp a c).mp hread
  have hlength : (Cursor.at code (p + words.length)).pos - p = words.length := Nat.add_sub_cancel_left _ _
  rw [hlength, ← List.prefix_iff_eq_take.mp hpre] at hwords
  rw [hlength]
  exact (h hp' a _).mpr ⟨words, hR, hwords, rfl⟩

theorem Reads.take (h : Reads step R) (hp : p ≤ code.length) (hread : step (.at code p) = .ok a c)
    {m : Nat} (hm : c.pos ≤ m) : step (.at (code.take m) p) = .ok a (.at (code.take m) c.pos) := by
  obtain ⟨hle, hlength, -⟩ := h.follows hp hread
  have hwords : (code.drop p).take (c.pos - p) <+: (code.take m).drop p := by
    rw [List.drop_take]
    exact List.take_prefix_take_left (by omega)
  have hmoved := h.moved hp hread (by rw [List.length_take]; omega) hwords
  rwa [Nat.add_sub_cancel' hle] at hmoved

theorem Reads.append (h : Reads step R) (hp : p ≤ code.length) (hread : step (.at code p) = .ok a c)
    (behind : List Word) : step (.at (code ++ behind) p) = .ok a (.at (code ++ behind) c.pos) := by
  obtain ⟨hle, -, -⟩ := h.follows hp hread
  have hwords : (code.drop p).take (c.pos - p) <+: (code ++ behind).drop p := by
    rw [List.drop_append_of_le_length hp]
    exact (List.take_prefix _ _).trans (List.prefix_append _ _)
  have hmoved := h.moved hp hread (by rw [List.length_append]; omega) hwords
  rwa [Nat.add_sub_cancel' hle] at hmoved

theorem Reads.shift (h : Reads step R) (hp : p ≤ code.length) (hread : step (.at code p) = .ok a c)
    (before : List Word) :
    step (.at (before ++ code) (before.length + p)) =
      .ok a (.at (before ++ code) (before.length + c.pos)) := by
  obtain ⟨hle, -, -⟩ := h.follows hp hread
  have hwords : (code.drop p).take (c.pos - p) <+: (before ++ code).drop (before.length + p) := by
    rw [← List.drop_drop, List.drop_left]
    exact List.take_prefix _ _
  have hmoved := h.moved hp hread (by rw [List.length_append]; omega) hwords
  rwa [Nat.add_assoc, Nat.add_sub_cancel' hle] at hmoved

end Reader

/-! ### Decoding -/

namespace Instruction

/-- The words of an instruction, its opcode first. -/
def Words (i : Instruction) (words : List Word) : Prop :=
  ∃ word rest, words = word :: rest ∧ Opcode.ofWord? word = some i.opcode ∧ i.Layout rest

theorem reads_decode : Reader.Reads decode Words := by
  intro code p hp i c
  rcases Nat.lt_or_eq_of_le hp with hlt | rfl
  · have hdrop := List.drop_eq_getElem_cons hlt
    rw [decode_at_cons hdrop, hdrop]
    cases hop : Opcode.ofWord? code[p] with
    | none =>
      refine iff_of_false (by simp) ?_
      rintro ⟨_, ⟨word, rest, rfl, hword, -⟩, hpre, -⟩
      obtain rfl := (List.cons_prefix_cons.mp hpre).1
      rw [hop] at hword
      cases hword
    | some op =>
      simp only [reads_operands op (show p + 1 ≤ code.length from hlt) i c]
      constructor
      · rintro ⟨rest, ⟨rfl, hlayout⟩, hpre, rfl⟩
        refine ⟨code[p] :: rest, ⟨_, rest, rfl, hop, hlayout⟩, List.cons_prefix_cons.mpr ⟨rfl, hpre⟩, ?_⟩
        rw [List.length_cons, Nat.add_right_comm, Nat.add_assoc]
      · rintro ⟨_, ⟨word, rest, rfl, hword, hlayout⟩, hpre, rfl⟩
        obtain ⟨rfl, hrest⟩ := List.cons_prefix_cons.mp hpre
        rw [hop, Option.some.injEq] at hword
        refine ⟨rest, ⟨hword.symm, hlayout⟩, hrest, ?_⟩
        rw [List.length_cons, Nat.add_right_comm, Nat.add_assoc]
  · rw [decode_at_nil (Nat.le_refl _), List.drop_length]
    refine iff_of_false (by simp) ?_
    rintro ⟨_, ⟨word, rest, rfl, -⟩, hpre, -⟩
    exact List.cons_ne_nil _ _ (List.prefix_nil.mp hpre)

end Instruction

/-! ### Streams of instructions -/

/-- The instruction with words in front of its stream. -/
def Located.shift (n : Nat) (l : Located) : Located := ⟨n + l.start, l.instruction, n + l.next⟩

namespace Walk

variable {code : List Word} {p : Nat} {instructions : List Located}

theorem Splits.shift (h : Splits code p instructions) (before : List Word) :
    Splits (before ++ code) (before.length + p) (instructions.map (Located.shift before.length)) := by
  induction h with
  | finished =>
    rw [← List.length_append]
    exact .finished
  | @next p i c rest decoded splits ih =>
    have hp : p ≤ code.length := by have := decode_ok decoded; omega
    have hnext := Splits.next (Instruction.reads_decode.shift hp decoded before) ih
    exact hnext

/-- **Streams of whole instructions join**: the instructions of the first one stand in front of those of the
second one, which are moved by the length of the first. -/
theorem Splits.append (h : Splits code p instructions) {behind : List Word} {rest : List Located}
    (hbehind : Splits behind 0 rest) :
    Splits (code ++ behind) p (instructions ++ rest.map (Located.shift code.length)) := by
  induction h with
  | finished => exact hbehind.shift code
  | @next p i c rest decoded splits ih =>
    have hp : p ≤ code.length := by have := decode_ok decoded; omega
    have hnext := Splits.next (Instruction.reads_decode.append hp decoded behind) ih
    exact hnext

end Walk

end Wordcode
