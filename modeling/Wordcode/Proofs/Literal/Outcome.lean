import Mathlib.Tactic.SplitIfs
import Wordcode.Literal.Parser

/-! # Outcomes of parsing

What is known of the end of a parsing step: `ok` of its result and last state, or `bad` of its error
and last state (`Ends`). Steps in sequence are handled one by one (`ends_bind`), and every step that
touches the tokens or the store has its own lemma. -/

namespace Wordcode.Literal

/-- The current token in front of the given ones. -/
def Source.current (src : Source) : List Spanned → Except ParseError Spanned
  | spanned :: _ => .ok spanned
  | [] => src.ending.map (⟨.endOfFile, ·⟩)

/-- There is no current token only where the tokens have ended at a fault. -/
theorem Source.ending_of_current_error {src : Source} {tokens : List Spanned} {fault : ParseError}
    (h : src.current tokens = .error fault) : src.ending = .error fault := by
  cases tokens with
  | cons spanned rest => cases h
  | nil =>
    unfold Source.current at h
    cases he : src.ending with
    | ok line => rw [he] at h; cases h
    | error other => rw [he] at h; cases h; rfl

namespace Parser

variable {α β : Type} {src : Source} {s : Parsing} {ok ok' : α → Parsing → Prop}
  {bad bad' : ParseError → Parsing → Prop}

/-- The step ends with a result and state that `ok` holds of, or with an error and state that `bad`
holds of. -/
def Ends (step : Parser α) (src : Source) (s : Parsing) (ok : α → Parsing → Prop)
    (bad : ParseError → Parsing → Prop) : Prop :=
  match step src s with
  | .ok a s' => ok a s'
  | .error e s' => bad e s'

theorem Ends.mono {step : Parser α} (h : Ends step src s ok bad)
    (hok : ∀ a s', ok a s' → ok' a s') (hbad : ∀ e s', bad e s' → bad' e s') :
    Ends step src s ok' bad' := by
  unfold Ends at h ⊢
  cases hs : step src s with
  | ok a s' => rw [hs] at h; exact hok a s' h
  | error e s' => rw [hs] at h; exact hbad e s' h

theorem Ends.and {step : Parser α} (h : Ends step src s ok bad) (h' : Ends step src s ok' bad') :
    Ends step src s (fun a s' => ok a s' ∧ ok' a s') (fun e s' => bad e s' ∧ bad' e s') := by
  unfold Ends at *
  cases hs : step src s <;> rw [hs] at h h' <;> exact ⟨h, h'⟩

theorem ends_pure {a : α} : Ends (pure a) src s ok bad ↔ ok a s := Iff.rfl

theorem ends_bind {x : Parser β} {f : β → Parser α} :
    Ends (x >>= f) src s ok bad ↔ Ends x src s (fun b s' => Ends (f b) src s' ok bad) bad := by
  show (match EStateM.bind (x src) (fun b => f b src) s with
    | .ok a s' => ok a s'
    | .error e s' => bad e s') ↔ _
  unfold EStateM.bind Ends
  cases x src s <;> rfl

theorem Ends.bind {x : Parser β} {f : β → Parser α} {m : β → Parsing → Prop}
    (hx : Ends x src s m bad) (hf : ∀ b s', m b s' → Ends (f b) src s' ok bad) :
    Ends (x >>= f) src s ok bad :=
  ends_bind.mpr (hx.mono hf fun _ _ h => h)

theorem ends_read {f : Source → Parser α} :
    Ends (do let src ← read; f src) src s ok bad ↔ Ends (f src) src s ok bad := Iff.rfl

theorem ends_discard {x : Parser α} {ok : Unit → Parsing → Prop} :
    Ends (discard x) src s ok bad ↔ Ends x src s (fun _ s' => ok () s') bad := by
  show Ends (x >>= fun _ => pure ()) src s ok bad ↔ _
  rw [ends_bind]
  rfl

theorem ends_holding {values : List Value} {step : Parser α} :
    Ends (holding values step) src s ok bad ↔ Ends step src s ok fun e s' =>
      bad e { s' with store := s'.store.releaseAll values } := by
  show (match EStateM.tryCatch (step src)
      (fun fault => (do drop values; throw fault : Parser α) src) s with
    | .ok a s' => ok a s'
    | .error e s' => bad e s') ↔ _
  unfold EStateM.tryCatch Ends
  cases step src s <;> rfl

theorem ends_drop {values : List Value} {ok : Unit → Parsing → Prop} :
    Ends (drop values) src s ok bad ↔ ok () { s with store := s.store.releaseAll values } := Iff.rfl

/-! ### Runs -/

theorem apply_eq_error_iff {step : Parser α} {fault : ParseError} {s' : Parsing} :
    step src s = .error fault s' ↔
      Ends step src s (fun _ _ => False) fun e t => e = fault ∧ t = s' := by
  unfold Ends
  cases step src s <;> simp

theorem exists_apply_ok_iff {step : Parser α} :
    (∃ a s', step src s = .ok a s' ∧ ok a s') ↔ Ends step src s ok fun _ _ => False := by
  unfold Ends
  cases step src s with
  | ok a s' =>
    refine ⟨?_, fun h => ⟨a, s', rfl, h⟩⟩
    rintro ⟨_, _, ⟨⟩, h⟩
    exact h
  | error fault s' =>
    refine iff_of_false ?_ id
    rintro ⟨_, _, ⟨⟩, -⟩

theorem bind_apply_ok {x : Parser β} {b : β} {s' : Parsing} (h : x src s = .ok b s') (f : β → Parser α) :
    (x >>= f) src s = f b src s' := by
  show EStateM.bind (x src) (fun b => f b src) s = _
  rw [EStateM.bind, h]

theorem bind_apply_error {x : Parser β} {fault : ParseError} {s' : Parsing} (h : x src s = .error fault s')
    (f : β → Parser α) : (x >>= f) src s = .error fault s' := by
  show EStateM.bind (x src) (fun b => f b src) s = _
  rw [EStateM.bind, h]

theorem holding_apply_ok {step : Parser α} {a : α} {s' : Parsing} (h : step src s = .ok a s')
    (values : List Value) : holding values step src s = .ok a s' := by
  show EStateM.tryCatch (step src) _ s = _
  rw [EStateM.tryCatch, h]

theorem holding_apply_error {step : Parser α} {fault : ParseError} {s' : Parsing}
    (h : step src s = .error fault s') (values : List Value) :
    holding values step src s = .error fault { s' with store := s'.store.releaseAll values } := by
  show EStateM.tryCatch (step src) (fun fault => (do drop values; throw fault : Parser α) src) s = _
  rw [EStateM.tryCatch, h]
  rfl

/-! ### Tokens -/

theorem ends_current {ok : Spanned → Parsing → Prop} :
    Ends current src s ok bad ↔ match src.current s.tokens with
      | .ok spanned => ok spanned s
      | .error e => bad e s := by
  rcases s with ⟨_ | ⟨spanned, rest⟩, store, roster⟩
  · rcases src with ⟨ctx, heap, _ | line, size⟩ <;> rfl
  · rfl

theorem ends_fail {cause : SyntaxFault} :
    Ends (fail cause) src s ok bad ↔ match src.current s.tokens with
      | .ok spanned => bad (.syntaxError spanned.line cause) s
      | .error e => bad e s := by
  unfold fail
  rw [ends_bind, ends_current]
  rfl

theorem ends_advance {ok : Unit → Parsing → Prop} :
    Ends advance src s ok bad ↔ match src.current s.tokens.tail with
      | .ok _ => ok () { s with tokens := s.tokens.tail }
      | .error e => bad e { s with tokens := s.tokens.tail } := by
  unfold advance
  rw [ends_bind]
  show Ends (discard current) src { s with tokens := s.tokens.tail } ok bad ↔ _
  rw [ends_discard, ends_current]

theorem ends_expect {wanted : Token} {ok : Unit → Parsing → Prop} :
    Ends (expect wanted) src s ok bad ↔ match src.current s.tokens with
      | .ok found => if found.token = wanted then Ends advance src s ok bad
        else bad (.syntaxError found.line (.unexpected wanted found.token)) s
      | .error e => bad e s := by
  unfold expect
  rw [ends_bind, ends_current]
  cases hc : src.current s.tokens with
  | error e => rfl
  | ok found =>
    simp only
    split_ifs with h
    · rfl
    · rw [ends_fail, hc]

theorem ends_accept {wanted : Token} {ok : Bool → Parsing → Prop} :
    Ends (accept wanted) src s ok bad ↔ match src.current s.tokens with
      | .ok found => if found.token = wanted then Ends advance src s (fun _ => ok true) bad
        else ok false s
      | .error e => bad e s := by
  unfold accept
  rw [ends_bind, ends_current]
  cases src.current s.tokens with
  | error e => rfl
  | ok found =>
    simp only
    split_ifs with h
    · rw [ends_bind]; rfl
    · rfl

theorem ends_expectKind {given required : TypeKind} {ok : Unit → Parsing → Prop} :
    Ends (expectKind given required) src s ok bad ↔
      if required = given ∨ required = .any then ok () s
      else Ends (α := Unit) (fail (.kindMismatch required given)) src s ok bad := by
  unfold expectKind
  split_ifs <;> rfl

/-! ### Objects -/

theorem ends_newString {text : String} {ok : Value → Parsing → Prop} :
    Ends (newString text) src s ok bad ↔
      ok (s.store.newString src.heap text).1
        { s with
          store := (s.store.newString src.heap text).2.retain (s.store.newString src.heap text).1
          roster := (s.store.newString src.heap text).1 :: s.roster } := Iff.rfl

theorem ends_newVector {type : TypeIndex} {elements : List Value} {ok : Value → Parsing → Prop} :
    Ends (newVector type elements) src s ok bad ↔
      ok (s.store.newVector src.heap type elements).1
        { s with
          store := (s.store.newVector src.heap type elements).2.retain
            (s.store.newVector src.heap type elements).1
          roster := (s.store.newVector src.heap type elements).1 :: s.roster } := Iff.rfl

end Parser

/-! ### Whole texts -/

/-- The source of a text. -/
def Source.ofText (ctx : TypeContext) (heap : HeapId) (text : String) : Source :=
  ⟨ctx, heap, (Lexed.ofText text).ending, (Lexed.ofText text).tokens.length⟩

/-- The state in front of a text. -/
def Parsing.ofText (text : String) (store : Store) : Parsing :=
  ⟨(Lexed.ofText text).tokens, store, []⟩

/-- What holds of a parse is what holds at the end of the parser, whose roster is let go. -/
theorem parse_iff_ends (ctx : TypeContext) (heap : HeapId) (depth : Nat) (type : TypeIndex)
    (text : String) (store : Store) {p : Except ParseError Value × Store → Prop} :
    p (parse ctx heap depth type text store) ↔
      Parser.Ends (Parser.wholeText depth type) (.ofText ctx heap text) (.ofText text store)
        (fun value s => p (.ok value, s.store.releaseAll s.roster))
        (fun fault s => p (.error fault, s.store.releaseAll s.roster)) := by
  unfold Parser.Ends parse
  dsimp only
  generalize hrun : (Parser.wholeText depth type).run _ _ = outcome
  obtain rfl : Parser.wholeText depth type (.ofText ctx heap text) (.ofText text store) = outcome := hrun
  cases Parser.wholeText depth type (.ofText ctx heap text) (.ofText text store) <;> rfl

section Runs

variable {ctx : TypeContext} {heap : HeapId} {depth : Nat} {type : TypeIndex} {text : String} {store : Store}

theorem parse_of_run_ok {v : Value} {s : Parsing} (h : Parser.wholeText depth type (.ofText ctx heap text)
    (.ofText text store) = .ok v s) :
    parse ctx heap depth type text store = (.ok v, s.store.releaseAll s.roster) := by
  refine (parse_iff_ends ctx heap depth type text store (p := (· = _))).mpr ?_
  unfold Parser.Ends
  rw [h]

theorem parse_of_run_error {fault : ParseError} {s : Parsing}
    (h : Parser.wholeText depth type (.ofText ctx heap text) (.ofText text store) = .error fault s) :
    parse ctx heap depth type text store = (.error fault, s.store.releaseAll s.roster) := by
  refine (parse_iff_ends ctx heap depth type text store (p := (· = _))).mpr ?_
  unfold Parser.Ends
  rw [h]

end Runs

end Wordcode.Literal
