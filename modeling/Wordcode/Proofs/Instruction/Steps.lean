import Mathlib.Data.List.TakeWhile
import Wordcode.Proofs.Walk

/-! # What a step reads

A step that reads words succeeds exactly where the words ahead begin with words of a result, and moves
past these (`Reader.Reads`): a word stands for itself, a count or an index is a word that is not negative,
a text goes up to the first zero. Steps in sequence read the words of both (`Reads.bind`). -/

namespace Wordcode

/-! ### Numbers in words -/

/-- The number in a word that is not negative. -/
def Word.number (word : Word) : Nat := word.toInt.toNat

/-- The index in a word that is not negative. -/
def Word.index {table : Table} (word : Word) : Index table := .ofNat word.number

theorem Word.toCount?_eq_some_iff {word : Word} {n : Nat} :
    word.toCount? = some n ↔ 0 ≤ word ∧ n = word.number := by
  unfold toCount? number
  split_ifs with h
  · simpa using fun h' => absurd h (Int32.not_lt.mpr h')
  · simp [Int32.not_lt.mp h, eq_comm]

theorem Index.ofWord?_eq_some_iff {table : Table} {word : Word} {i : Index table} :
    Index.ofWord? word = some i ↔ 0 ≤ word ∧ i = word.index := by
  unfold ofWord? Word.index
  rw [Option.map_eq_some_iff]
  constructor
  · rintro ⟨n, hn, rfl⟩
    obtain ⟨hword, rfl⟩ := Word.toCount?_eq_some_iff.mp hn
    exact ⟨hword, rfl⟩
  · rintro ⟨hword, rfl⟩
    exact ⟨_, Word.toCount?_eq_some_iff.mpr ⟨hword, rfl⟩, rfl⟩

/-! ### Reading what stands ahead -/

theorem append_prefix_drop {α : Type} {u v l : List α} {p : Nat} :
    u ++ v <+: l.drop p ↔ u <+: l.drop p ∧ v <+: l.drop (p + u.length) := by
  rw [← List.drop_drop]
  constructor
  · rintro ⟨rest, h⟩
    rw [← h, List.append_assoc, List.drop_left]
    exact ⟨List.prefix_append _ _, List.prefix_append _ _⟩
  · rintro ⟨⟨rest, h⟩, hv⟩
    rw [← h, List.drop_left] at hv
    rw [← h]
    exact List.prefix_append_right_inj u |>.mpr hv

theorem add_length_le_of_prefix_drop {α : Type} {u l : List α} {p : Nat} (h : u <+: l.drop p)
    (hp : p ≤ l.length) : p + u.length ≤ l.length := by
  have := h.length_le
  rw [List.length_drop] at this
  omega

namespace Reader

variable {α β : Type} {R S : α → List Word → Prop}

/-- The step succeeds exactly where the words ahead begin with words of a result, and moves past them. -/
def Reads (step : Reader α) (R : α → List Word → Prop) : Prop :=
  ∀ ⦃code p⦄, p ≤ code.length → ∀ a c, step (.at code p) = .ok a c ↔
    ∃ words, R a words ∧ words <+: code.drop p ∧ c = .at code (p + words.length)

theorem Reads.congr {step : Reader α} (h : Reads step R) (hRS : ∀ a words, R a words ↔ S a words) :
    Reads step S := by
  intro code p hp a c
  simp only [h hp a c, hRS]

theorem reads_pure (a : α) : Reads (pure a) fun b words => b = a ∧ words = [] := by
  intro code p hp b c
  show EStateM.Result.ok a _ = _ ↔ _
  simp [eq_comm]

theorem Reads.bind {x : Reader α} {f : α → Reader β} {S : α → β → List Word → Prop} (hx : Reads x R)
    (hf : ∀ a, Reads (f a) (S a)) :
    Reads (x >>= f) fun b words => ∃ a u v, R a u ∧ S a b v ∧ words = u ++ v := by
  intro code p hp b c
  have hbind : (x >>= f) (.at code p) = .ok b c ↔
      ∃ a c', x (.at code p) = .ok a c' ∧ f a c' = .ok b c := by
    show EStateM.bind x f (.at code p) = _ ↔ _
    unfold EStateM.bind
    cases x (.at code p) <;> simp
  rw [hbind]
  constructor
  · rintro ⟨a, c', hax, hbf⟩
    obtain ⟨u, hu, hup, rfl⟩ := (hx hp a c').mp hax
    have hle := add_length_le_of_prefix_drop hup hp
    obtain ⟨v, hv, hvp, rfl⟩ := (hf a hle b c).mp hbf
    exact ⟨u ++ v, ⟨a, u, v, hu, hv, rfl⟩, append_prefix_drop.mpr ⟨hup, hvp⟩,
      by rw [List.length_append, Nat.add_assoc]⟩
  · rintro ⟨_, ⟨a, u, v, hu, hv, rfl⟩, hpre, rfl⟩
    obtain ⟨hup, hvp⟩ := append_prefix_drop.mp hpre
    have hle := add_length_le_of_prefix_drop hup hp
    refine ⟨a, .at code (p + u.length), (hx hp a _).mpr ⟨u, hu, hup, rfl⟩, (hf a hle b _).mpr ?_⟩
    exact ⟨v, hv, hvp, by rw [List.length_append, Nat.add_assoc]⟩

/-- One word, which is related to the result. -/
def OneWord (r : α → Word → Prop) (a : α) (words : List Word) : Prop :=
  ∃ word, r a word ∧ words = [word]

theorem reads_operand {r : α → Word → Prop} {convert : Word → Except OperandFault α}
    (h : ∀ word a, convert word = .ok a ↔ r a word) : Reads (operand convert) (OneWord r) := by
  intro code p hp a c
  cases hd : code.drop p with
  | nil =>
    have hend : operand convert (.at code p) = .error (.unexpectedEnd p) (.at code p) := by
      simp only [operand, bind, EStateM.bind, position, word, Cursor.at, hd]
    rw [hend]
    simp [OneWord]
  | cons w rest =>
    have hone : (∃ words, OneWord r a words ∧ words <+: w :: rest ∧ c = .at code (p + words.length)) ↔
        r a w ∧ c = .at code (p + 1) := by
      constructor
      · rintro ⟨_, ⟨w', hr, rfl⟩, hpre, rfl⟩
        rw [(List.cons_prefix_cons.mp hpre).1] at hr
        exact ⟨hr, rfl⟩
      · rintro ⟨hr, rfl⟩
        exact ⟨[w], ⟨w, hr, rfl⟩, List.prefix_append [w] rest, rfl⟩
    rw [hone, ← h w a]
    cases hc : convert w with
    | ok b =>
      have hstep : operand convert (.at code p) = .ok b (.at code (p + 1)) := by
        simp only [operand, bind, EStateM.bind, position, word_at_cons hd, hc]
        rfl
      rw [hstep]
      simp [eq_comm]
    | error cause =>
      have hstep : operand convert (.at code p) =
          .error (.invalidOperand p cause) (.at code (p + 1)) := by
        simp only [operand, bind, EStateM.bind, position, word_at_cons hd, hc]
        rfl
      rw [hstep]
      simp

/-- A word is an operand that is accepted whatever it is. -/
theorem word_eq_operand : word = operand .ok := by
  funext c
  rcases c with ⟨_ | ⟨w, rest⟩, pos, size⟩ <;> rfl

theorem reads_word : Reads word (OneWord fun a w => w = a) := by
  rw [word_eq_operand]
  exact reads_operand fun w a => by simp

theorem reads_count : Reads count (OneWord fun n w => 0 ≤ w ∧ n = w.number) := by
  refine reads_operand fun w n => ?_
  rw [← Word.toCount?_eq_some_iff]
  cases w.toCount? <;> simp

theorem reads_index (table : Table) :
    Reads (index table) (OneWord fun i w => 0 ≤ w ∧ i = w.index) := by
  refine reads_operand fun w i => ?_
  rw [← Index.ofWord?_eq_some_iff]
  cases Index.ofWord? w <;> simp

theorem reads_lvalOp : Reads lvalOp (OneWord fun op w => LvalOp.ofWord? w = some op) := by
  refine reads_operand fun w op => ?_
  cases LvalOp.ofWord? w <;> simp

/-! ### One word and what follows it -/

section Head
variable {f : α → Reader β} {S : α → β → List Word → Prop}

theorem Reads.cons {x : Reader α} {r : α → Word → Prop} (hx : Reads x (OneWord r))
    (hf : ∀ a, Reads (f a) (S a)) :
    Reads (x >>= f) fun b words => ∃ word a rest, words = word :: rest ∧ r a word ∧ S a b rest := by
  refine (hx.bind hf).congr fun b words => ?_
  constructor
  · rintro ⟨a, _, rest, ⟨word, hr, rfl⟩, hS, rfl⟩
    exact ⟨word, a, rest, rfl, hr, hS⟩
  · rintro ⟨word, a, rest, rfl, hr, hS⟩
    exact ⟨a, [word], rest, ⟨word, hr, rfl⟩, hS, rfl⟩

theorem reads_word_cons {f : Word → Reader β} {S : Word → β → List Word → Prop}
    (hf : ∀ w, Reads (f w) (S w)) :
    Reads (word >>= f) fun b words => ∃ w rest, words = w :: rest ∧ S w b rest :=
  (reads_word.cons hf).congr fun b words => by simp

theorem reads_count_cons {f : Nat → Reader β} {S : Nat → β → List Word → Prop}
    (hf : ∀ n, Reads (f n) (S n)) :
    Reads (count >>= f) fun b words => ∃ w rest, words = w :: rest ∧ 0 ≤ w ∧ S w.number b rest :=
  (reads_count.cons hf).congr fun b words => by simp

theorem reads_index_cons {table : Table} {f : Index table → Reader β}
    {S : Index table → β → List Word → Prop} (hf : ∀ i, Reads (f i) (S i)) :
    Reads (index table >>= f) fun b words => ∃ w rest, words = w :: rest ∧ 0 ≤ w ∧ S w.index b rest :=
  ((reads_index table).cons hf).congr fun b words => by simp

/-- A qualifier in front, where there is one. -/
theorem reads_lval_cons (assigns : Bool) {f : Option LvalOp → Reader β}
    {S : Option LvalOp → β → List Word → Prop} (hf : ∀ lval, Reads (f lval) (S lval)) :
    Reads (do let lval ← if assigns then some <$> lvalOp else pure none
              f lval) fun b words => if assigns then
        ∃ w op rest, words = w :: rest ∧ LvalOp.ofWord? w = some op ∧ S (some op) b rest
      else S none b words := by
  cases assigns with
  | false => exact hf none
  | true =>
    have hmap : (do let lval ← some <$> lvalOp; f lval) = lvalOp >>= fun op => f (some op) := by
      rw [bind_map_left]
    rw [if_pos rfl, hmap]
    exact reads_lvalOp.cons fun op => hf (some op)

end Head

/-! ### Many words -/

theorem reads_skip (n : Nat) : Reads (skip n) fun _ words => words.length = n := by
  intro code p hp a c
  have hskip : skip n (.at code p) = if p + n ≤ code.length then .ok () (.at code (p + n))
      else .error (.unexpectedEnd code.length) (.at code p) := by
    simp only [skip, Cursor.at, List.drop_drop]
  rw [hskip]
  constructor
  · intro h
    split_ifs at h with hle
    obtain rfl : Cursor.at code (p + n) = c := by simpa using h
    have hlen : ((code.drop p).take n).length = n := by
      rw [List.length_take, List.length_drop]
      omega
    exact ⟨_, hlen, List.take_prefix _ _, by rw [hlen]⟩
  · rintro ⟨words, rfl, hpre, rfl⟩
    rw [if_pos (add_length_le_of_prefix_drop hpre hp)]

theorem reads_times {step : Reader α} {ok : Word → Prop} {f : Word → α}
    (h : Reads step (OneWord fun a w => ok w ∧ a = f w)) : ∀ n,
      Reads (times step n) fun as words =>
        words.length = n ∧ (∀ word ∈ words, ok word) ∧ as = words.map f
  | 0 => (reads_pure []).congr fun as words => by
    rw [List.length_eq_zero_iff]
    constructor
    · rintro ⟨rfl, rfl⟩
      simp
    · rintro ⟨rfl, -, rfl⟩
      simp
  | n + 1 => by
    refine (h.cons fun a => (reads_times h n).bind fun rest => reads_pure _).congr fun as words => ?_
    constructor
    · rintro ⟨word, _, _, rfl, ⟨hword, rfl⟩, _, ws, _, ⟨hlen, hok, rfl⟩, ⟨rfl, rfl⟩, rfl⟩
      simpa [hlen, hword] using hok
    · rintro ⟨hlen, hok, rfl⟩
      obtain ⟨word, ws, rfl⟩ := List.exists_cons_of_length_eq_add_one hlen
      obtain ⟨hword, hws⟩ := List.forall_mem_cons.mp hok
      exact ⟨word, _, ws, rfl, ⟨hword, rfl⟩, _, ws, [], ⟨by simpa using hlen, hws, rfl⟩, ⟨rfl, rfl⟩,
        (List.append_nil ws).symm⟩

theorem reads_counted {step : Reader α} {ok : Word → Prop} {f : Word → α}
    (h : Reads step (OneWord fun a w => ok w ∧ a = f w)) :
    Reads (counted step) fun as words => ∃ n ws, words = n :: ws ∧ 0 ≤ n ∧ ws.length = n.number ∧
      (∀ word ∈ ws, ok word) ∧ as = ws.map f :=
  reads_count_cons fun n => reads_times h n

theorem reads_countedWords : Reads (counted word) fun as words =>
    ∃ n, words = n :: as ∧ 0 ≤ n ∧ as.length = n.number := by
  have hword : Reads word (OneWord fun a w => True ∧ a = id w) :=
    reads_word.congr fun a words => by simp [OneWord, eq_comm]
  refine (reads_counted hword).congr fun as words => ?_
  constructor
  · rintro ⟨n, ws, rfl, hn, hlen, -, rfl⟩
    rw [List.map_id]
    exact ⟨n, rfl, hn, hlen⟩
  · rintro ⟨n, rfl, hn, hlen⟩
    exact ⟨n, as, rfl, hn, hlen, fun _ _ => trivial, (List.map_id as).symm⟩

theorem text_of_not_mem {code : List Word} {p : Nat} (hzero : 0 ∉ code.drop p) :
    text (.at code p) = .error (.unexpectedEnd (p + (code.drop p).length))
      { Cursor.at code p with ahead := [], pos := p + (code.drop p).length } := by
  have htake : (code.drop p).takeWhile (· ≠ 0) = code.drop p :=
    List.takeWhile_eq_self_iff.mpr fun word hw => by simpa using ne_of_mem_of_not_mem hw hzero
  simp only [text, Cursor.at, htake, List.drop_length]

theorem reads_text : Reads text fun s words => ∃ chars : List Word, words = chars ++ [0] ∧ 0 ∉ chars ∧
    s = .ofList (chars.map Word.toChar) := by
  intro code p hp s c
  have hat : ∀ {chars rest : List Word}, 0 ∉ chars → code.drop p = chars ++ 0 :: rest →
      text (.at code p) =
        .ok (.ofList (chars.map Word.toChar)) (.at code (p + (chars ++ [0]).length)) := by
    intro chars rest hne hd
    have hchars : ∀ word ∈ chars, decide (word ≠ 0) = true := fun word hw => by
      simpa using ne_of_mem_of_not_mem hw hne
    have htake : (chars ++ 0 :: rest).takeWhile (· ≠ 0) = chars := by
      rw [List.takeWhile_append_of_pos hchars, List.takeWhile_cons_of_neg (by simp), List.append_nil]
    have hrest : code.drop (p + (chars.length + 1)) = rest := by
      rw [← List.drop_drop, hd, ← List.drop_drop, List.drop_left]
      rfl
    simp only [text, Cursor.at, hd, htake, List.drop_left, List.length_append, List.length_singleton,
      hrest]
    rfl
  by_cases hzero : 0 ∈ code.drop p
  · obtain ⟨chars, rest, hd, hne⟩ := List.eq_append_cons_of_mem hzero
    constructor
    · intro h
      rw [hat hne hd, EStateM.Result.ok.injEq] at h
      exact ⟨_, ⟨chars, rfl, hne, h.1.symm⟩, ⟨rest, by rw [hd, List.append_assoc]; rfl⟩, h.2.symm⟩
    · rintro ⟨_, ⟨chars, rfl, hne, rfl⟩, ⟨rest, hrest⟩, rfl⟩
      exact hat hne (by rw [← hrest, List.append_assoc]; rfl)
  · rw [text_of_not_mem hzero]
    refine iff_of_false (by simp) ?_
    rintro ⟨_, ⟨chars, rfl, -, -⟩, hpre, -⟩
    exact hzero (hpre.subset (by simp))

end Reader

end Wordcode
