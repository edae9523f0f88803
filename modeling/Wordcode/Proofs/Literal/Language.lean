import Wordcode.Proofs.Literal.Complete
import Wordcode.Proofs.Literal.Tokens

/-! # The language of literals

A text parses at a type exactly if its tokens are a literal of the type, and a line break at most behind
it; the value is what the literal derives (`parse_iff_isLiteral`). Both directions are those of
`value_sound` and `value_complete`, carried over to a whole text. -/

namespace Wordcode.Literal

namespace Parser

variable {src : Source} {s : Parsing} {line : UInt32} {type : TypeIndex} {W : List Token}
  {datum : Datum}

theorem expect_end_sound (hs : .endOfFile ∉ s.ahead) {ok : Unit → Parsing → Prop}
    (h : ∀ line s', s.ahead = [] → src.ending = .ok line → ok () s') :
    Ends (expect .endOfFile) src s ok AnyError := by
  rw [ends_expect]
  unfold Source.current
  cases ht : s.tokens with
  | nil =>
    cases he : src.ending with
    | error e => trivial
    | ok line => exact advance_sound (h line _ (by simp [Parsing.ahead, ht]) he)
  | cons spanned rest =>
    have hne : spanned.token ≠ .endOfFile := by
      rintro he
      exact hs (by rw [Parsing.ahead_of_tokens ht he]; exact List.mem_cons_self)
    exact (if_neg hne).mpr trivial

theorem expect_end_complete (hend : src.ending = .ok line) (hs : s.ahead = [])
    {ok : Unit → Parsing → Prop} (h : ∀ s', ok () s') :
    Ends (expect .endOfFile) src s ok NoError := by
  obtain ⟨spanned, hc, ht⟩ := current_eq hend s
  rw [ends_expect, hc]
  exact (if_pos (by rw [ht, hs]; rfl)).mpr (advance_complete hend (h _))

/-- Behind a value that takes up the whole text stands a line break at most. -/
theorem ending_sound (hs : .endOfFile ∉ s.ahead) :
    Ends (do discard (accept .linefeed); expect .endOfFile) src s (fun _ _ =>
      (∃ line, src.ending = .ok line) ∧ (s.ahead = [] ∨ s.ahead = [.linefeed])) AnyError := by
  refine Ends.bind (m := fun _ s' => s.ahead = s'.ahead ∨ s.ahead = .linefeed :: s'.ahead)
    (ends_discard.mpr (accept_sound (by decide) (fun spanned rest ht he => ?_) fun _ => .inl rfl))
    fun _ s' hs' => ?_
  · exact .inr (Parsing.ahead_of_tokens ht he)
  refine expect_end_sound (fun he => hs ?_) fun line s'' hnil hend => ⟨⟨line, hend⟩, ?_⟩
  · rcases hs' with h | h <;> rw [h]
    · exact he
    · exact List.mem_cons_of_mem _ he
  · rcases hs' with h | h <;> rw [h, hnil]
    · exact .inl rfl
    · exact .inr rfl

theorem wholeText_sound (depth : Nat) (type : TypeIndex) (hs : Ready src s.ahead) :
    Ends (wholeText depth type) src s (fun value _ => (∃ line, src.ending = .ok line) ∧
      ∃ W, Derives src.ctx depth type W value.datum ∧
        (s.ahead = W ∨ s.ahead = W ++ [.linefeed])) AnyError := by
  unfold wholeText
  refine Ends.bind (m := fun _ s' => s' = s)
    (ends_discard.mpr (current_sound fun _ _ => rfl)) ?_
  rintro _ s₁ hs₁
  obtain rfl : s = s₁ := hs₁.symm
  refine (value_sound rfl depth type s hs).bind ?_
  rintro value s₂ ⟨W, hW, hderives⟩
  have hends : Token.endOfFile ∉ s₂.ahead := (hW ▸ hs).of_append.lexical.ends
  refine Ends.bind (ends_holding.mpr (ending_sound hends)) ?_
  rintro _ s₃ ⟨hend, hrest⟩
  refine ⟨hend, W, hderives, ?_⟩
  rcases hrest with h | h <;> rw [hW, h]
  · exact .inl (List.append_nil W)
  · exact .inr rfl

theorem wholeText_complete (hend : src.ending = .ok line) {depth : Nat}
    (hlen : s.ahead.length ≤ src.size) (h : Derives src.ctx depth type W datum)
    (hs : s.ahead = W ∨ s.ahead = W ++ [.linefeed]) :
    Ends (wholeText depth type) src s (fun value _ => value.datum = datum) NoError := by
  obtain ⟨rest, hrest, hs⟩ : ∃ rest, (rest = [] ∨ rest = [.linefeed]) ∧ s.ahead = W ++ rest := by
    rcases hs with hs | hs
    · exact ⟨[], .inl rfl, by rw [hs, List.append_nil]⟩
    · exact ⟨_, .inr rfl, hs⟩
  unfold wholeText
  refine Ends.bind (m := fun _ s' => s' = s)
    (ends_discard.mpr (current_complete hend fun _ _ => rfl)) ?_
  rintro _ s₁ hs₁
  obtain rfl : s = s₁ := hs₁.symm
  refine (value_complete hend depth type s W rest datum hs hlen h).bind ?_
  rintro value s₂ ⟨hs₂, hvalue⟩
  refine Ends.bind (m := fun _ _ => True) (ends_holding.mpr ?_) fun _ _ _ => hvalue
  refine Ends.bind (m := fun _ s' => s'.ahead = []) (ends_discard.mpr
    (accept_complete hend (fun tail s' ht hs' => ?_) (fun hn => ?_) (by decide))) fun _ s₃ hs₃ => ?_
  · rcases hrest with rfl | rfl
    · rw [hs₂] at ht; cases ht
    · rw [hs₂, List.cons.injEq] at ht; rw [hs', ← ht.2]
  · rcases hrest with rfl | rfl
    · exact hs₂
    · exact absurd (by rw [hs₂]; rfl) hn
  · exact expect_end_complete hend hs₃ fun _ => trivial

end Parser

/-- The text is read as a literal of the type without a fault, and a line break may stand behind it. -/
def IsLiteral (ctx : TypeContext) (depth : Nat) (type : TypeIndex) (text : String) (datum : Datum) :
    Prop :=
  ∃ W, Derives ctx depth type W datum ∧
    ((Lexer.ofText text).Yields W ∨ (Lexer.ofText text).Yields (W ++ [.linefeed]))

section Parses
variable {ctx : TypeContext} {heap : HeapId} {depth : Nat} {type : TypeIndex} {text : String}
  {store : Store}

theorem isLiteral_of_parse {value : Value}
    (h : (parse ctx heap depth type text store).1 = .ok value) :
    IsLiteral ctx depth type text value.datum := by
  refine parse_iff_ends ctx heap depth type text store
    (p := fun r => ∀ v, r.1 = .ok v → IsLiteral ctx depth type text v.datum) |>.mpr
      ((Parser.wholeText_sound depth type (Parser.ready_ofText ctx heap text store)).mono ?_
        fun _ _ _ _ hv => by cases hv) value h
  rintro value' s ⟨hend, W, hderives, hW⟩ v hv
  obtain rfl : value' = v := Except.ok.inj hv
  refine ⟨W, hderives, hW.imp (fun h => ?_) fun h => ?_⟩ <;> exact Lexed.ofText_iff.mpr ⟨h, hend⟩

theorem exists_parse_of_isLiteral (heap : HeapId) (store : Store) {datum : Datum}
    (h : IsLiteral ctx depth type text datum) :
    ∃ value, (parse ctx heap depth type text store).1 = .ok value ∧ value.datum = datum := by
  obtain ⟨W, hderives, htext⟩ := h
  obtain ⟨line, hend⟩ : ∃ line, (Source.ofText ctx heap text).ending = .ok line := by
    rcases htext with h | h <;> exact (Lexed.ofText_iff.mp h).2
  have hcomplete := Parser.wholeText_complete hend (s := .ofText text store)
    (List.length_map _).le hderives (htext.imp (fun h => (Lexed.ofText_iff.mp h).1)
      fun h => (Lexed.ofText_iff.mp h).1)
  exact parse_iff_ends ctx heap depth type text store
    (p := fun r => ∃ value, r.1 = .ok value ∧ value.datum = datum) |>.mpr
    (hcomplete.mono (fun value _ h => ⟨value, rfl, h⟩) fun _ _ h => h.elim)

end Parses

/-- **The language of a type.** A text parses at a type if and only if it is a literal of the type, and
the value is of the datum that the literal derives. -/
theorem parse_iff_isLiteral (ctx : TypeContext) (heap : HeapId) (depth : Nat) (type : TypeIndex)
    (text : String) (store : Store) (datum : Datum) :
    (∃ value store', parse ctx heap depth type text store = (.ok value, store') ∧
      value.datum = datum) ↔ IsLiteral ctx depth type text datum := by
  constructor
  · rintro ⟨value, store', h, rfl⟩
    exact isLiteral_of_parse (by rw [h])
  · intro h
    obtain ⟨value, hv, hd⟩ := exists_parse_of_isLiteral heap store h
    exact ⟨value, _, Prod.ext hv rfl, hd⟩

end Wordcode.Literal
