import Wordcode.Proofs.Instruction.Placement

/-! # Instructions delimit themselves

Nothing but its own words tells where an instruction ends. So the same words are the same instruction wherever
they stand (`Instruction.decode_moved`), the words of an instruction are never the first part of those of another
one (`Instruction.Spells.eq_of_prefix`), and a stream falls into instructions in one way at most
(`Instruction.Decomposes.unique`). -/

namespace Wordcode

/-- The words that an instruction takes up in its stream. -/
def Located.words (code : List Word) (l : Located) : List Word := (code.drop l.start).take (l.next - l.start)

namespace Instruction

/-- The words spell the instruction: decoding them takes up all of them. -/
def Spells (words : List Word) (i : Instruction) : Prop :=
  decode (.at words 0) = .ok i (.at words words.length)

/-- The stream from an offset on is the words of the instructions, one after the other. -/
def Decomposes (code : List Word) (start : Nat) (parts : List (Instruction × List Word)) : Prop :=
  (∀ part ∈ parts, Spells part.2 part.1) ∧ (parts.map (·.2)).flatten = code.drop start

variable {code code' words words' : List Word} {p p' : Nat} {i i' : Instruction} {c : Cursor}

/-- **The same words are the same instruction** wherever they stand. -/
theorem decode_moved (h : decode (.at code p) = .ok i c)
    (hwords : (code.drop p).take (c.pos - p) <+: code'.drop p') :
    decode (.at code' p') = .ok i (.at code' (p' + (c.pos - p))) := by
  obtain ⟨hlt, hle, -⟩ := decode_ok h
  -- the instruction has a word, so the second offset lies in its stream as well
  have hlength := hwords.length_le
  rw [List.length_take, List.length_drop, List.length_drop] at hlength
  exact reads_decode.moved (by omega) h (by omega) hwords

/-! ### Words of instructions -/

theorem Spells.decode_append (h : Spells words i) (behind : List Word) :
    decode (.at (words ++ behind) 0) = .ok i (.at (words ++ behind) words.length) := by
  have hwords : (words.drop 0).take (words.length - 0) <+: (words ++ behind).drop 0 := by
    rw [List.drop_zero, List.drop_zero, Nat.sub_zero, List.take_length]
    exact List.prefix_append _ _
  have hmoved := decode_moved h hwords
  rwa [show (Cursor.at words words.length).pos = words.length from rfl, Nat.sub_zero, Nat.zero_add] at hmoved

theorem Spells.ne_nil (h : Spells words i) : words ≠ [] := by
  rintro rfl
  exact Nat.lt_irrefl 0 (decode_ok h).1

/-- **No instruction's words are a proper first part of another's.** -/
theorem Spells.eq_of_prefix (h : Spells words i) (h' : Spells words' i') (hpre : words <+: words') :
    words = words' ∧ i = i' := by
  obtain ⟨behind, rfl⟩ := hpre
  have hfront := h.decode_append behind
  unfold Spells at h'
  rw [hfront] at h'
  obtain ⟨rfl, hend⟩ := EStateM.Result.ok.inj h'
  have hlength : words.length = (words ++ behind).length := congrArg Cursor.pos hend
  exact ⟨(List.prefix_append words behind).eq_of_length hlength, rfl⟩

/-! ### Streams -/

/-- Instructions in a row are told apart in one way only. -/
theorem eq_of_flatten_eq : ∀ {parts parts' : List (Instruction × List Word)},
    (∀ part ∈ parts, Spells part.2 part.1) → (∀ part ∈ parts', Spells part.2 part.1) →
      (parts.map (·.2)).flatten = (parts'.map (·.2)).flatten → parts = parts'
  | [], [], _, _, _ => rfl
  | [], part' :: _, _, h', heq => by
    exact absurd (List.append_eq_nil_iff.mp heq.symm).1 (h' part' List.mem_cons_self).ne_nil
  | part :: _, [], h, _, heq => by
    exact absurd (List.append_eq_nil_iff.mp heq).1 (h part List.mem_cons_self).ne_nil
  | (i, words) :: parts, (i', words') :: parts', h, h', heq => by
    obtain ⟨hfirst, hrest⟩ := List.forall_mem_cons.mp h
    obtain ⟨hfirst', hrest'⟩ := List.forall_mem_cons.mp h'
    rw [List.map_cons, List.map_cons, List.flatten_cons, List.flatten_cons] at heq
    -- of the first words of the two one is a first part of the other
    have hsame : words = words' ∧ i = i' := by
      have hpre : words <+: words' ++ (parts'.map (·.2)).flatten := heq ▸ List.prefix_append _ _
      rcases List.prefix_or_prefix_of_prefix hpre (List.prefix_append _ _) with hle | hle
      · exact hfirst.eq_of_prefix hfirst' hle
      · obtain ⟨hwords, hi⟩ := hfirst'.eq_of_prefix hfirst hle
        exact ⟨hwords.symm, hi.symm⟩
    obtain ⟨rfl, rfl⟩ := hsame
    rw [eq_of_flatten_eq hrest hrest' (List.append_cancel_left heq)]

/-- **A stream falls into instructions in one way at most.** -/
theorem Decomposes.unique {parts parts' : List (Instruction × List Word)} (h : Decomposes code p parts)
    (h' : Decomposes code p parts') : parts = parts' :=
  eq_of_flatten_eq h.1 h'.1 (h.2.trans h'.2.symm)

theorem decomposes_of_splits {instructions : List Located} (h : Walk.Splits code p instructions) :
    Decomposes code p (instructions.map fun l => (l.instruction, l.words code)) := by
  induction h with
  | finished => exact ⟨by simp, by simp⟩
  | @next p i c rest decoded splits ih =>
    obtain ⟨hlt, hle, -⟩ := decode_ok decoded
    obtain ⟨hspells, hflatten⟩ := ih
    have hlength : ((code.drop p).take (c.pos - p)).length = c.pos - p := by
      rw [List.length_take, List.length_drop]
      omega
    have hfirst : Spells ((code.drop p).take (c.pos - p)) i := by
      have hwords : (code.drop p).take (c.pos - p) <+: ((code.drop p).take (c.pos - p)).drop 0 :=
        List.prefix_refl _
      have hmoved := decode_moved decoded hwords
      rw [Nat.zero_add] at hmoved
      rwa [Spells, hlength]
    refine ⟨List.forall_mem_cons.mpr ⟨hfirst, hspells⟩, ?_⟩
    have hrest : code.drop c.pos = (code.drop p).drop (c.pos - p) := by
      rw [List.drop_drop, Nat.add_sub_cancel' hlt.le]
    rw [List.map_cons, List.map_cons, List.flatten_cons, hflatten, hrest]
    exact List.take_append_drop _ _

/-- **An instruction depends only on the words it takes up.** The same words are decoded to the same instruction
in every stream and at every offset, and decoding ends behind them. So no instruction's words are a proper first part
of another's, and the stream from an offset on is made of instructions in one way at most, which is the way that
decoding finds if it comes to the end. -/
theorem decode_self_delimiting :
    (∀ (code code' : List Word) (p p' n : Nat) (i : Instruction), decode (.at code p) = .ok i (.at code n) →
      (code.drop p).take (n - p) <+: code'.drop p' →
        decode (.at code' p') = .ok i (.at code' (p' + (n - p)))) ∧
    (∀ (words words' : List Word) (i i' : Instruction), Spells words i → Spells words' i' →
      words <+: words' → words = words') ∧
    (∀ (code : List Word) (start : Nat) (parts parts' : List (Instruction × List Word)),
      Decomposes code start parts → Decomposes code start parts' → parts = parts') ∧
    ∀ (code : List Word) (start : Nat) (instructions : List Located), Walk.Splits code start instructions →
      Decomposes code start (instructions.map fun l => (l.instruction, l.words code)) :=
  ⟨fun _ _ _ _ _ _ h hwords => decode_moved h hwords, fun _ _ _ _ h h' hpre => (h.eq_of_prefix h' hpre).1,
    fun _ _ _ _ h h' => h.unique h', fun _ _ _ h => decomposes_of_splits h⟩

/-- A call with two listed types is the same call behind another word and at the end of a stream; the stream that
goes on is made of three instructions in no other way. -/
theorem decode_self_delimiting_call :
    decode (.at [104, 19, 2, 0, 40, 1, 9, 9] 1) = .ok (.call .callMulti 2 ⟨0⟩ 40 1)
      (.at [104, 19, 2, 0, 40, 1, 9, 9] 8) ∧
    ∀ parts, Decomposes [27, 19, 2, 0, 40, 1, 9, 9, 29] 0 parts → parts =
      [(.plain .pop, [27]), (.call .callMulti 2 ⟨0⟩ 40 1, [19, 2, 0, 40, 1, 9, 9]), (.plain .dup, [29])] := by
  have hcall : decode (.at [27, 19, 2, 0, 40, 1, 9, 9, 29] 1) = .ok (.call .callMulti 2 ⟨0⟩ 40 1)
      (.at [27, 19, 2, 0, 40, 1, 9, 9, 29] 8) := rfl
  refine ⟨decode_self_delimiting.1 _ _ 1 1 8 _ hcall (by decide), fun parts h => ?_⟩
  refine decode_self_delimiting.2.2.1 _ 0 _ _ h ⟨?_, rfl⟩
  simp only [List.forall_mem_cons]
  exact ⟨rfl, rfl, rfl, List.forall_mem_nil _⟩

end Instruction

end Wordcode
