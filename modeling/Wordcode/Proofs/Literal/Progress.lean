import Wordcode.Proofs.Literal.Lines
import Wordcode.Proofs.Literal.Places

/-! # Reading goes on and ends

A call that does not find the end of the text takes up a character at least, whether it gives a token, a line feed
or a fault (`Lexer.next_shortens`); one that finds it leads to a lexer that stays as it is (`Lexer.after_stays`).
So after as many calls as the text has characters the next one finds the end (`Lexer.exists_endsText`). All this
is said of lexers that count bytes as well, whose places are always between characters
(`Bytewise.calls_progress`). -/

namespace Wordcode.Literal

/-- A call finds the end of the text. -/
def EndsText (outcome : Except ParseError Spanned) : Prop := ∃ line, outcome = .ok ⟨.endOfFile, line⟩

/-! ### Calls on characters -/

namespace Lexer

variable {lexer lexer' : Lexer} {line : UInt32}

/-- **A call takes up a character**, unless it finds the end of the text. -/
theorem next_shortens (lexer : Lexer) :
    EndsText lexer.next.1 ∨ lexer.next.2.rest.length < lexer.rest.length := by
  obtain ⟨cs, line, last⟩ := lexer
  obtain ⟨g, s, rfl, hskipped⟩ := exists_skipped cs
  by_cases hbreak : '\n' ∈ g ∧ Breaks last
  · rw [next_break hskipped hbreak.1 hbreak.2]
    have hpos := List.length_pos_of_mem hbreak.1
    exact .inr (by simp only [List.length_append]; omega)
  rcases s with _ | ⟨c, s⟩
  · rw [next_read hskipped hbreak rfl]
    exact .inl ⟨_, rfl⟩
  · right
    have hlt : (Scan.token (c :: s)).2.length < (g ++ c :: s).length := by
      have hle := Scan.length_token_le c s
      rw [List.length_append, List.length_cons]
      omega
    rcases hscan : Scan.token (c :: s) with ⟨fault | token, rest⟩
    · rw [next_fault hskipped hbreak hscan]
      rwa [hscan] at hlt
    · rw [next_read hskipped hbreak hscan]
      rwa [hscan] at hlt

theorem eq_of_next_endOfFile (h : lexer.next = (.ok ⟨.endOfFile, line⟩, lexer')) :
    lexer' = ⟨[], line, some .endOfFile⟩ := by
  obtain ⟨cs, line', last⟩ := lexer
  obtain ⟨g, s, rfl, hskipped⟩ := exists_skipped cs
  by_cases hbreak : '\n' ∈ g ∧ Breaks last
  · rw [next_break hskipped hbreak.1 hbreak.2] at h
    cases h
  rcases hscan : Scan.token s with ⟨fault | token, rest⟩
  · rw [next_fault hskipped hbreak hscan] at h
    cases h
  rw [next_read hskipped hbreak hscan] at h
  cases h
  cases s with
  | nil =>
    cases hscan
    rfl
  | cons c s => exact (Scan.readable_token hscan).elim

/-- **The end of the text is found again** by every further call, on the same line and by the same lexer. -/
theorem after_stays {n : Nat} (h : (lexer.after n).next = (.ok ⟨.endOfFile, line⟩, lexer')) :
    ∀ k > n, lexer.after k = lexer' ∧ lexer'.next = (.ok ⟨.endOfFile, line⟩, lexer') := by
  have hlexer' := eq_of_next_endOfFile h
  have hagain : lexer'.next = (.ok ⟨.endOfFile, line⟩, lexer') := by
    rw [hlexer']
    rfl
  intro k hk
  refine ⟨?_, hagain⟩
  induction k, hk using Nat.le_induction with
  | base => rw [after, h]
  | succ k _ ih => rw [after, ih, hagain]

/-- **The end of the text is found** by a call behind at most as many calls as there are characters. -/
theorem exists_endsText (lexer : Lexer) : ∃ n ≤ lexer.rest.length, EndsText (lexer.after n).next.1 := by
  by_contra hnone
  push Not at hnone
  have hleft : ∀ n ≤ lexer.rest.length + 1, (lexer.after n).rest.length + n ≤ lexer.rest.length := by
    intro n hn
    induction n with
    | zero => exact Nat.le_refl _
    | succ n ih =>
      have hle := ih (by omega)
      have hlt := (next_shortens (lexer.after n)).resolve_left (hnone n (by omega))
      rw [after]
      omega
  have hend := hleft _ (Nat.le_refl _)
  omega

end Lexer

/-! ### Calls on bytes -/

namespace Bytewise

variable {text : String} {bytewise bytewise' : Bytewise} {lexer lexer' : Lexer} {n : Nat}
  {outcome : Except ParseError Spanned}

/-- The lexer after the first calls on a text, failed ones too. -/
def after? (text : String) : Nat → Option Bytewise
  | 0 => some start
  | n + 1 => do
    let (_, bytewise) ← (← after? text n).next? text
    return bytewise

/-- The call behind the first `n` ones gives the outcome and leads from one lexer to the other. -/
def Calls (text : String) (n : Nat) (bytewise : Bytewise) (outcome : Except ParseError Spanned)
    (bytewise' : Bytewise) : Prop :=
  after? text n = some bytewise ∧ bytewise.next? text = some (outcome, bytewise')

theorem Calls.unique {first behind : Bytewise} {outcome' : Except ParseError Spanned}
    (h : Calls text n bytewise outcome bytewise') (h' : Calls text n first outcome' behind) :
    outcome = outcome' ∧ bytewise' = behind := by
  obtain rfl := Option.some.inj (h.1.symm.trans h'.1)
  exact Prod.mk.inj (Option.some.inj (h.2.symm.trans h'.2))

theorem exists_calls (text : String) (n : Nat) : ∃ bytewise bytewise',
    Calls text n bytewise ((Lexer.ofText text).after n).next.1 bytewise' ∧
      bytewise.Follows text ((Lexer.ofText text).after n) ∧
      bytewise'.Follows text ((Lexer.ofText text).after (n + 1)) := by
  induction n with
  | zero =>
    have hstart : start.Follows text (.ofText text) := ⟨.zero text, rfl, rfl⟩
    obtain ⟨bytewise', hnext, hfollows⟩ := next?_follows hstart
    exact ⟨start, bytewise', ⟨rfl, hnext⟩, hstart, hfollows⟩
  | succ n ih =>
    obtain ⟨bytewise, bytewise', ⟨hafter, hnext⟩, -, hfollows⟩ := ih
    obtain ⟨bytewise'', hnext', hfollows'⟩ := next?_follows hfollows
    have hafter' : after? text (n + 1) = some bytewise' := by
      simp only [after?, hafter, hnext, Option.bind_eq_bind, Option.bind_some]
      rfl
    exact ⟨bytewise', bytewise'', ⟨hafter', hnext'⟩, hfollows, hfollows'⟩

/-- What a call takes up can be cut out of the text. -/
theorem exists_cut? (h : bytewise.Follows text lexer) (h' : bytewise'.Follows text lexer.next.2) :
    ∃ chars, cut? text bytewise.place bytewise'.place = some chars ∧
      lexer.rest = chars ++ lexer.next.2.rest := by
  obtain ⟨-, -, -, -, ⟨chars, happend, -⟩, -⟩ := lexer.next_locates
  have hstands := h.stands
  rw [happend] at hstands
  exact ⟨chars, hstands.cut?_eq h'.stands, happend⟩

/-- **Reading goes on and ends.** Every call on a text is made, from a place between its characters, and gives
what the call on characters gives; it takes up a character at least or finds the end of the text. One of the calls
behind at most as many others as the text has characters finds the end, and so does every call behind it, on the
same line and by a lexer that stays as it is. -/
theorem calls_progress (text : String) :
    (∀ n, ∃ bytewise outcome bytewise', Calls text n bytewise outcome bytewise' ∧
      String.Pos.Raw.IsValid text ⟨bytewise.place⟩ ∧
      bytewise.Follows text ((Lexer.ofText text).after n) ∧
      outcome = ((Lexer.ofText text).after n).next.1 ∧
      (EndsText outcome ∨ ∃ c cs, cut? text bytewise.place bytewise'.place = some (c :: cs))) ∧
    (∃ n ≤ text.length, ∃ bytewise line bytewise',
      Calls text n bytewise (.ok ⟨.endOfFile, line⟩) bytewise') ∧
    ∀ n bytewise line bytewise', Calls text n bytewise (.ok ⟨.endOfFile, line⟩) bytewise' →
      ∀ k > n, Calls text k bytewise' (.ok ⟨.endOfFile, line⟩) bytewise' := by
  refine ⟨fun n => ?_, ?_, fun n bytewise line bytewise' hcall k hk => ?_⟩
  · obtain ⟨bytewise, bytewise', hcall, hfollows, hfollows'⟩ := exists_calls text n
    refine ⟨bytewise, _, bytewise', hcall, hfollows.stands.isValid, hfollows, rfl, ?_⟩
    refine (Lexer.next_shortens _).imp_right fun hlt => ?_
    obtain ⟨chars, hcut, happend⟩ := exists_cut? hfollows hfollows'
    have hne : chars ≠ [] := by
      rintro rfl
      rw [happend] at hlt
      exact Nat.lt_irrefl _ hlt
    obtain ⟨c, cs, rfl⟩ := List.exists_cons_of_ne_nil hne
    exact ⟨c, cs, hcut⟩
  · obtain ⟨n, hn, line, hline⟩ := Lexer.exists_endsText (.ofText text)
    obtain ⟨bytewise, bytewise', hcall, -⟩ := exists_calls text n
    rw [hline] at hcall
    exact ⟨n, hn, bytewise, line, bytewise', hcall⟩
  · obtain ⟨_, stop, hcall₀, -, hstop⟩ := exists_calls text n
    obtain ⟨hend, rfl⟩ := hcall.unique hcall₀
    have hstays := Lexer.after_stays (Prod.ext hend.symm rfl)
    -- from the next call on both lexers stand behind the one that found the end
    obtain ⟨first, behind, hcalls, hfirst, hbehind⟩ := exists_calls text k
    rw [(hstays k hk).1] at hcalls hfirst
    rw [(hstays (k + 1) (Nat.lt_succ_of_lt hk)).1] at hbehind
    obtain rfl := hfirst.unique hstop
    obtain rfl := hbehind.unique hfirst
    rwa [(hstays k hk).2] at hcalls

end Bytewise

end Wordcode.Literal
