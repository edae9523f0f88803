import Mathlib.Data.List.Basic
import Mathlib.Tactic.SplitIfs
import Wordcode.Instruction.Decode

/-! # The walk over a stream

Reading never leaves the stream and never goes back (`Reader.Forward`), and a decoded instruction takes
up a word at least (`decode_ok`). So the walk over a stream visits exactly the offsets that decoding leads
to (`Reaches`): what it visits is reached (`reaches_of_mem`), and if it ends without a fault, what is
reached is visited (`exists_mem_of_reaches`). -/

namespace Wordcode

open Instruction

/-! ### Steps that read -/

namespace Reader

/-- Where the cursor is left. -/
def reached {α : Type} : EStateM.Result Fault Cursor α → Cursor
  | .ok _ c | .error _ c => c

/-- The cursor stands in the stream, between `p` and its end. -/
structure Follows (code : List Word) (p : Nat) (c : Cursor) : Prop where
  here : c = .at code c.pos
  le : p ≤ c.pos
  le_max : c.pos ≤ max p code.length

theorem Follows.refl (code : List Word) (p : Nat) : Follows code p (.at code p) :=
  ⟨rfl, Nat.le_refl p, Nat.le_max_left _ _⟩

theorem Follows.trans {code : List Word} {p : Nat} {c c' : Cursor} (h : Follows code p c)
    (h' : Follows code c.pos c') : Follows code p c' :=
  ⟨h'.here, Nat.le_trans h.le h'.le, by have := h.le_max; have := h'.le_max; omega⟩

/-- Whatever its outcome, the step leaves the cursor in its stream and does not move it back. -/
def Forward {α : Type} (step : Reader α) : Prop :=
  ∀ code p, Follows code p (reached (step (.at code p)))

theorem forward_pure {α : Type} (a : α) : Forward (pure a) := fun code p => .refl code p

theorem forward_throw {α : Type} (fault : Fault) : Forward (α := α) (throw fault) :=
  fun code p => .refl code p

theorem Forward.bind {α β : Type} {x : Reader α} {f : α → Reader β} (hx : x.Forward)
    (hf : ∀ a, (f a).Forward) : (x >>= f).Forward := by
  intro code p
  have h := hx code p
  show Follows code p (reached (EStateM.bind x f (.at code p)))
  unfold EStateM.bind
  cases hc : x (.at code p) with
  | error e c => rw [hc] at h; exact h
  | ok a c =>
    rw [hc] at h
    have hc : Follows code p c := h
    have h' := hf a code c.pos
    rw [← hc.here] at h'
    exact hc.trans h'

theorem Forward.map {α β : Type} {x : Reader α} (hx : x.Forward) (f : α → β) :
    (f <$> x).Forward := by
  rw [map_eq_pure_bind]
  exact hx.bind fun a => forward_pure _

theorem forward_position : Forward position := fun code p => .refl code p

theorem word_at_cons {code rest : List Word} {p : Nat} {w : Word} (h : code.drop p = w :: rest) :
    word (.at code p) = .ok w (.at code (p + 1)) := by
  have hrest : code.drop (p + 1) = rest := by rw [← List.drop_drop, h]; rfl
  simp only [word, Cursor.at, h, hrest]

theorem lt_length_of_drop {code rest : List Word} {p : Nat} {w : Word}
    (h : code.drop p = w :: rest) : p < code.length := by
  by_contra hc
  rw [List.drop_eq_nil_of_le (by omega)] at h
  cases h

theorem forward_word : Forward word := by
  intro code p
  cases h : code.drop p with
  | nil =>
    have he : word (.at code p) = .error (.unexpectedEnd p) (.at code p) := by
      simp only [word, Cursor.at, h]
    rw [he]
    exact .refl code p
  | cons w rest =>
    have hp := lt_length_of_drop h
    rw [word_at_cons h]
    exact ⟨rfl, Nat.le_succ p, by simp only [reached, Cursor.at]; omega⟩

theorem forward_skip (n : Nat) : (skip n).Forward := by
  intro code p
  by_cases h : p + n ≤ code.length
  · have hs : skip n (.at code p) = .ok () (.at code (p + n)) := by
      simp only [skip, Cursor.at, List.drop_drop, if_pos h]
    rw [hs]
    exact ⟨rfl, Nat.le_add_right p n, by simp only [reached, Cursor.at]; omega⟩
  · have hs : skip n (.at code p) = .error (.unexpectedEnd code.length) (.at code p) := by
      simp only [skip, Cursor.at]
      exact if_neg h
    rw [hs]
    exact .refl code p

theorem forward_operand {α : Type} (convert : Word → Except OperandFault α) :
    (operand convert).Forward := by
  refine forward_position.bind fun offset => forward_word.bind fun w => ?_
  cases convert w with
  | ok a => exact forward_pure a
  | error cause => exact forward_throw _

theorem forward_text : Forward text := by
  intro code p
  have hdrop : ∀ n, (code.drop p).drop n = code.drop (p + n) := fun n => List.drop_drop
  have hlen : ((code.drop p).takeWhile (· ≠ 0)).length ≤ code.length - p := by
    rw [← List.length_drop]
    exact (List.takeWhile_sublist _).length_le
  simp only [text, Cursor.at]
  cases h : (code.drop p).drop ((code.drop p).takeWhile (· ≠ 0)).length with
  | nil =>
    refine ⟨?_, Nat.le_add_right _ _, by simp only [reached]; omega⟩
    simp only [reached, Cursor.at]
    rw [← hdrop, h]
  | cons w rest =>
    rw [hdrop] at h
    have hp := lt_length_of_drop h
    refine ⟨?_, by simp only [reached]; omega, by simp only [reached]; omega⟩
    simp only [reached, Cursor.at, Cursor.mk.injEq, and_true]
    rw [← List.drop_drop, h]
    rfl

end Reader

open Reader

/-! ### Properties of steps -/

/-- The property holds of the steps that operands are read with, and of steps in sequence if of each. -/
structure Reader.Stepwise (P : ∀ α : Type, Reader α → Prop) : Prop where
  pure {α : Type} (a : α) : P α (Pure.pure a)
  bind {α β : Type} {x : Reader α} {f : α → Reader β} (first : P α x) (rest : ∀ a, P β (f a)) : P β (x >>= f)
  word : P Word Reader.word
  skip (n : Nat) : P Unit (Reader.skip n)
  operand {α : Type} (convert : Word → Except OperandFault α) : P α (Reader.operand convert)
  text : P String Reader.text

section Stepwise
variable {P : ∀ α : Type, Reader α → Prop} (h : Stepwise P)
include h

theorem stepwise_times {α : Type} {step : Reader α} (hstep : P α step) : ∀ n, P _ (times step n)
  | 0 => h.pure []
  | n + 1 => h.bind hstep fun _ => h.bind (stepwise_times hstep n) fun _ => h.pure _

theorem stepwise_counted {α : Type} {step : Reader α} (hstep : P α step) : P _ (counted step) :=
  h.bind (h.operand _) fun n => stepwise_times h hstep n

theorem stepwise_lval (assigns : Bool) {β : Type} {f : Option LvalOp → Reader β}
    (hf : ∀ lval, P β (f lval)) : P β (do
      let lval ← if assigns then some <$> lvalOp else pure none
      f lval) := by
  cases assigns with
  | false => exact h.bind (h.pure none) hf
  | true =>
    have hmap : (do let lval ← some <$> lvalOp; f lval) = lvalOp >>= fun op => f (some op) := by
      rw [bind_map_left]
    rw [if_pos rfl, hmap]
    exact h.bind (h.operand _) fun op => hf (some op)

/-- **What holds of each step holds of reading operands.** -/
theorem stepwise_operands (op : Opcode) : P _ (operands op) := by
  have hword : ∀ {β : Type} {f : Word → Reader β}, (∀ w, P β (f w)) → P β (word >>= f) := h.bind h.word
  have hop : ∀ {α β : Type} {convert : Word → Except OperandFault α} {f : α → Reader β},
      (∀ a, P β (f a)) → P β (operand convert >>= f) := h.bind (h.operand _)
  have hspecs : ∀ {β : Type} {f : List SpecIdentIndex → Reader β}, (∀ specs, P β (f specs)) →
      P β (counted (index .specIdent) >>= f) := h.bind (stepwise_counted h (h.operand _))
  unfold Instruction.operands
  cases op.shape with
  | plain => exact h.pure _
  | immediate => exact hword fun _ => h.pure _
  | ret => exact hword fun _ => hword fun _ => hword fun _ => h.pure _
  | callValue => exact hword fun _ => hword fun _ => h.pure _
  | call listed =>
    refine hop fun argc => hop fun _ => hword fun _ => hword fun _ => ?_
    cases listed with
    | false => exact h.pure _
    | true => exact h.bind (h.skip argc) fun _ => h.pure _
  | newVector => exact hop fun _ => hword fun _ => h.pure _
  | callNative => exact hop fun _ => h.pure _
  | ident assigns => exact stepwise_lval h assigns fun _ => hop fun _ => h.pure _
  | slot assigns => exact stepwise_lval h assigns fun _ => hword fun _ => h.pure _
  | element => exact hop fun _ => h.pure _
  | float => exact hword fun _ => h.pure _
  | text => exact h.bind h.text fun _ => h.pure _
  | prologue => exact hspecs fun _ => hspecs fun _ => hword fun _ => h.pure _
  | coroutine =>
    exact hword fun _ => h.bind (h.skip 1) fun _ => h.bind (stepwise_counted h h.word) fun _ => h.pure _
  | dispatch => exact hop fun _ => hop fun _ => h.bind (h.skip _) fun _ => h.pure _

end Stepwise

/-! ### Decoding -/

theorem forward_operands (op : Opcode) : (operands op).Forward :=
  stepwise_operands (P := fun _ => Forward)
    ⟨forward_pure, Forward.bind, forward_word, forward_skip, forward_operand, forward_text⟩ op

theorem decode_at_cons {code rest : List Word} {p : Nat} {w : Word}
    (h : code.drop p = w :: rest) :
    decode (.at code p) = match Opcode.ofWord? w with
      | none => .error (.invalidOpcode w p) (.at code (p + 1))
      | some op => operands op (.at code (p + 1)) := by
  unfold decode
  simp only [bind, EStateM.bind, position, word_at_cons h]
  cases Opcode.ofWord? w <;> rfl

theorem decode_at_nil {code : List Word} {p : Nat} (h : code.length ≤ p) :
    decode (.at code p) = .error (.unexpectedEnd p) (.at code p) := by
  have hd : code.drop p = [] := List.drop_eq_nil_of_le h
  unfold decode
  simp only [bind, EStateM.bind, position, word, Cursor.at, hd]

theorem forward_decode : decode.Forward := by
  refine forward_position.bind fun offset => forward_word.bind fun w => ?_
  cases Opcode.ofWord? w with
  | none => exact forward_throw _
  | some op => exact forward_operands op

/-- **A decoded instruction** lies in the stream and takes up a word at least. -/
theorem decode_ok {code : List Word} {p : Nat} {i : Instruction} {c : Cursor}
    (h : decode (.at code p) = .ok i c) :
    p < c.pos ∧ c.pos ≤ code.length ∧ c = .at code c.pos := by
  by_cases hp : p < code.length
  · have hd := List.drop_eq_getElem_cons hp
    rw [decode_at_cons hd] at h
    cases ho : Opcode.ofWord? code[p] with
    | none => rw [ho] at h; cases h
    | some op =>
      rw [ho] at h
      have hf := forward_operands op code (p + 1)
      rw [show operands op (.at code (p + 1)) = .ok i c from h] at hf
      have hle : p + 1 ≤ c.pos := hf.le
      have hmax : c.pos ≤ max (p + 1) code.length := hf.le_max
      exact ⟨hle, by omega, hf.here⟩
  · rw [decode_at_nil (by omega)] at h
    cases h

/-! ### Offsets of instructions -/

namespace Walk

/-- Decoding instructions one after the other leads from one offset to the other. -/
inductive Reaches (code : List Word) : Nat → Nat → Prop
  | here (p : Nat) : Reaches code p p
  | next {p q : Nat} {i : Instruction} {c : Cursor} (decoded : decode (.at code p) = .ok i c)
    (rest : Reaches code c.pos q) : Reaches code p q

variable {code : List Word}

theorem isAtEnd_at (p : Nat) : (Cursor.at code p).isAtEnd = decide (code.length ≤ p) := rfl

theorem within_end {p : Nat} (h : code.length ≤ p) (bound : Nat) :
    within bound (.at code p) = ⟨[], .finished p⟩ := by
  cases bound with
  | zero => rfl
  | succ bound =>
    rw [within, isAtEnd_at, if_pos (by simpa using h)]
    rfl

theorem within_error {p bound : Nat} {fault : Fault} {c : Cursor} (hp : p < code.length)
    (h : decode (.at code p) = .error fault c) :
    within (bound + 1) (.at code p) = ⟨[], .stuck p fault c.pos⟩ := by
  rw [within, isAtEnd_at, if_neg (by simpa using hp), h]
  rfl

theorem within_ok {p bound : Nat} {i : Instruction} {c : Cursor}
    (h : decode (.at code p) = .ok i c) :
    within (bound + 1) (.at code p) =
      ⟨⟨p, i, c.pos⟩ :: (within bound (.at code c.pos)).instructions,
        (within bound (.at code c.pos)).ending⟩ := by
  obtain ⟨hlt, hle, hc⟩ := decode_ok h
  rw [within, isAtEnd_at, if_neg (by simp; omega), h]
  simp only
  rw [← hc]
  rfl

theorem reaches_of_mem_within {l : Located} : ∀ {bound p : Nat},
    l ∈ (within bound (.at code p)).instructions →
      Reaches code p l.start ∧ decode (.at code l.start) = .ok l.instruction (.at code l.next)
  | 0, _, h => by simp [within] at h
  | bound + 1, p, h => by
    by_cases hp : p < code.length
    · cases hd : decode (.at code p) with
      | error fault c => rw [within_error hp hd] at h; simp at h
      | ok i c =>
        rw [within_ok hd] at h
        rcases List.mem_cons.mp h with rfl | h
        · rw [← (decode_ok hd).2.2]
          exact ⟨.here p, hd⟩
        · obtain ⟨hr, hdec⟩ := reaches_of_mem_within h
          exact ⟨.next hd hr, hdec⟩
    · rw [within_end (by omega)] at h
      simp at h

/-- **What the walk visits is reached** from its first offset by decoding. -/
theorem reaches_of_mem {l : Located} {start : Nat} (h : l ∈ (ofCode code start).instructions) :
    Reaches code start l.start ∧
      decode (.at code l.start) = .ok l.instruction (.at code l.next) :=
  reaches_of_mem_within h

theorem exists_mem_within {p q : Nat} (hr : Reaches code p q) (hq : q < code.length) :
    ∀ bound, code.length ≤ p + bound → (within bound (.at code p)).fault? = none →
      ∃ l ∈ (within bound (.at code p)).instructions, l.start = q := by
  induction hr with
  | here q =>
    intro bound hb hf
    obtain ⟨bound, rfl⟩ : ∃ n, bound = n + 1 := ⟨bound - 1, by omega⟩
    cases hd : decode (.at code q) with
    | error fault c => rw [within_error hq hd] at hf; cases hf
    | ok i c => rw [within_ok hd]; exact ⟨_, List.mem_cons_self, rfl⟩
  | @next p q i c hd hr ih =>
    intro bound hb hf
    obtain ⟨hlt, hle, -⟩ := decode_ok hd
    obtain ⟨bound, rfl⟩ : ∃ n, bound = n + 1 := ⟨bound - 1, by omega⟩
    rw [within_ok hd] at hf ⊢
    obtain ⟨l, hl, he⟩ := ih hq bound (by omega) hf
    exact ⟨l, List.mem_cons_of_mem _ hl, he⟩

/-- **What is reached is visited**, if the walk ends without a fault. -/
theorem exists_mem_of_reaches {p start : Nat} (hf : (ofCode code start).fault? = none)
    (hr : Reaches code start p) (hp : p < code.length) :
    ∃ l ∈ (ofCode code start).instructions, l.start = p :=
  exists_mem_within hr hp _ (by omega) hf

/-! ### Visits -/

theorem mapM_ok_iff {α β ε : Type} {f : α → Except ε β} : ∀ {l : List α},
    (∃ r, l.mapM f = .ok r) ↔ ∀ a ∈ l, ∃ b, f a = .ok b
  | [] => by simp [pure, Except.pure]
  | a :: l => by
    have ih := mapM_ok_iff (f := f) (l := l)
    rw [List.forall_mem_cons, ← ih, List.mapM_cons]
    cases f a with
    | error e => simp [bind, Except.bind]
    | ok b =>
      cases l.mapM f with
      | error e => simp [bind, Except.bind]
      | ok r => simp [bind, Except.bind, pure, Except.pure]

theorem mapM_congr {α β ε : Type} {f g : α → Except ε β} : ∀ {l : List α}, (∀ a ∈ l, f a = g a) →
    l.mapM f = l.mapM g
  | [], _ => rfl
  | a :: l, h => by
    obtain ⟨ha, hl⟩ := List.forall_mem_cons.mp h
    rw [List.mapM_cons, List.mapM_cons, ha, mapM_congr hl]

/-- Visits that do the same at every instruction of the walk end in the same way. -/
theorem visit_congr {α : Type} {walk : Walk} {f g : Located → Except Fault α}
    (h : ∀ l ∈ walk.instructions, f l = g l) : walk.visit f = walk.visit g := by
  unfold visit
  rw [mapM_congr h]

theorem visit_ok_iff {α : Type} (walk : Walk) (f : Located → Except Fault α) :
    (∃ r, walk.visit f = .ok r) ↔
      (∀ l ∈ walk.instructions, ∃ a, f l = .ok a) ∧ walk.fault? = none := by
  rw [← mapM_ok_iff]
  unfold visit
  cases walk.instructions.mapM f with
  | error e => simp [bind, Except.bind]
  | ok r => cases walk.fault? <;> simp [bind, Except.bind, pure, Except.pure, throw, throwThe,
      MonadExceptOf.throw]

end Walk

end Wordcode
