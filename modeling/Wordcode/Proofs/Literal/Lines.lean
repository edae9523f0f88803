import Mathlib.Data.List.Infix
import Wordcode.Proofs.Literal.Spacing

/-! # Lines of tokens

Reading crosses line feeds in two places. Those between tokens are counted (`Lexer.next_break`,
`Lexer.next_read`, `Lexer.next_fault`). A token has none, nor has what is read of a faulty one (`Scan.token_crosses`),
with one exception: a line feed behind a backslash is read as the letter of an escape, and then it is not counted.
So after any number of calls the line of a lexer is that of the text in front of it, less the line feeds that
were read as letters (`Lexer.lines_tracked`). Lines are counted in 32 bits: in numbers they are exact up to
`2 ^ 32 - 1`, and then they start over. -/

namespace Wordcode.Literal

/-- What stands in front of `rest` has `n` line feeds. -/
def Crosses (n : Nat) (cs rest : List Char) : Prop := ∃ chars, cs = chars ++ rest ∧ chars.count '\n' = n

/-- The line feeds that a fault takes up. The letter of an escape may be one. -/
def LexFault.breaks : LexFault → Nat
  | unknownEscape letter => if letter = '\n' then 1 else 0
  | _ => 0

/-! ### Crossing line feeds -/

namespace Crosses

variable {m n : Nat} {cs middle rest : List Char}

theorem refl (cs : List Char) : Crosses 0 cs cs := ⟨[], rfl, rfl⟩

theorem trans (h : Crosses m cs middle) (h' : Crosses n middle rest) : Crosses (m + n) cs rest := by
  obtain ⟨front, rfl, rfl⟩ := h
  obtain ⟨back, rfl, rfl⟩ := h'
  exact ⟨front ++ back, (List.append_assoc _ _ _).symm, List.count_append⟩

theorem cons {c : Char} (hc : c ≠ '\n') (h : Crosses n cs rest) : Crosses n (c :: cs) rest := by
  obtain ⟨chars, rfl, rfl⟩ := h
  exact ⟨c :: chars, rfl, List.count_cons_of_ne hc⟩

theorem drop_takeWhile {p : Char → Bool} (hp : p '\n' = false) (cs : List Char) :
    Crosses 0 cs (cs.drop (cs.takeWhile p).length) := by
  have hmem : '\n' ∉ cs.takeWhile p := by
    intro h
    have := List.mem_takeWhile_imp h
    rw [hp] at this
    cases this
  exact ⟨_, List.prefix_append_drop (List.takeWhile_prefix p), List.count_eq_zero_of_not_mem hmem⟩

end Crosses

/-! ### Single tokens -/

namespace Scan

/-- The line feeds that a result takes up. -/
def breaks {α : Type} : Except LexFault α → Nat
  | .ok _ => 0
  | .error fault => fault.breaks

theorem hexEscape_crosses (cs : List Char) : Crosses (breaks (hexEscape cs).1) cs (hexEscape cs).2 := by
  have hne : ∀ {c n}, hexValue? c = some n → c ≠ '\n' := by
    rintro c n h rfl
    cases h
  unfold hexEscape
  split
  · next a rest =>
    split
    · exact .refl _
    · next high ha =>
      split
      · next b rest =>
        split
        · exact .cons (hne ha) (.refl _)
        · next low hb => exact .cons (hne ha) (.cons (hne hb) (.refl _))
      · exact .cons (hne ha) (.refl _)
  · exact .refl _

/-- An escape takes up a line feed exactly if it is its letter. -/
theorem escape_crosses (cs : List Char) : Crosses (breaks (escape cs).1) cs (escape cs).2 := by
  unfold escape
  split
  · exact .refl _
  · exact .cons (by decide) (hexEscape_crosses _)
  · next letter rest _ =>
    split
    · next c hc =>
      have hne : letter ≠ '\n' := by
        rintro rfl
        cases hc
      exact .cons hne (.refl _)
    · refine ⟨[letter], rfl, ?_⟩
      show [letter].count '\n' = if letter = '\n' then 1 else 0
      rw [List.count_singleton]
      simp

theorem stringRest_crosses (done cs : List Char) :
    Crosses (breaks (stringRest done cs).1) cs (stringRest done cs).2 := by
  fun_induction stringRest done cs with
  | case1 | case2 => exact .refl _
  | case3 => exact .cons (by decide) (.refl _)
  | case4 done rest escaped c hc _ _ ih =>
    -- the escape is read, so its letter is no line feed
    have hescape : Crosses 0 rest escaped.2 := by
      have h := escape_crosses rest
      rwa [show (escape rest).1 = .ok c from hc] at h
    have h := (hescape.trans ih).cons (show '\\' ≠ '\n' by decide)
    rwa [Nat.zero_add] at h
  | case5 done rest escaped fault hfault =>
    have h := escape_crosses rest
    rw [show (escape rest).1 = .error fault from hfault] at h
    exact h.cons (by decide)
  | case6 done c rest hbreak _ _ ih => exact ih.cons hbreak

theorem characterEnd_crosses (c : Char) (cs : List Char) :
    Crosses (breaks (characterEnd c cs).1) cs (characterEnd c cs).2 := by
  unfold characterEnd
  split
  · exact .cons (by decide) (.refl _)
  · exact .refl _

theorem character_crosses (cs : List Char) :
    Crosses (breaks (character cs).1) cs (character cs).2 := by
  unfold character
  split
  · next rest =>
    have hescape := escape_crosses rest
    split
    · next c rest' he =>
      rw [he] at hescape
      have h := (hescape.trans (characterEnd_crosses c rest')).cons (show '\\' ≠ '\n' by decide)
      rwa [show breaks (.ok c : Except LexFault Char) = 0 from rfl, Nat.zero_add] at h
    · next fault rest' he =>
      rw [he] at hescape
      exact hescape.cons (by decide)
  · next c rest _ =>
    split_ifs with hc
    · exact .refl _
    · exact (characterEnd_crosses c rest).cons (not_or.mp hc).2
  · exact .refl _

theorem hexadecimal_crosses (mark cs : List Char) :
    Crosses (breaks (hexadecimal mark cs).1) cs (hexadecimal mark cs).2 := by
  have hdigits : Crosses 0 cs (cs.drop (cs.takeWhile isHex).length) := .drop_takeWhile rfl cs
  unfold hexadecimal
  dsimp only
  split_ifs <;> exact hdigits

theorem fraction_crosses (cs : List Char) : Crosses 0 cs (fraction cs).2 := by
  unfold fraction
  split
  · exact .cons (by decide) (.drop_takeWhile rfl _)
  · exact .refl _

theorem exponentSign_crosses (cs : List Char) : Crosses 0 cs (exponentSign cs).2 := by
  unfold exponentSign
  split
  · exact .cons (by decide) (.refl _)
  · exact .cons (by decide) (.refl _)
  · exact .refl _

theorem exponent_crosses (cs : List Char) : Crosses 0 cs (exponent cs).2 := by
  unfold exponent
  split
  · next e rest =>
    dsimp only
    have hcross (he : e = 'e' ∨ e = 'E') : Crosses 0 (e :: rest) ((exponentSign rest).2.drop
        ((exponentSign rest).2.takeWhile Char.isDigit).length) := by
      have hne : e ≠ '\n' := by rcases he with rfl | rfl <;> decide
      exact ((exponentSign_crosses rest).trans (.drop_takeWhile rfl _)).cons hne
    split_ifs with he
    · exact .refl _
    · exact hcross he
    · exact hcross he
    · exact .refl _
  · exact .refl _

theorem decimal_crosses (cs : List Char) : Crosses (breaks (decimal cs).1) cs (decimal cs).2 := by
  have hdecimal : Crosses 0 cs
      (exponent (fraction (cs.drop (cs.takeWhile Char.isDigit).length)).2).2 :=
    ((Crosses.drop_takeWhile rfl cs).trans (fraction_crosses _)).trans (exponent_crosses _)
  unfold decimal
  dsimp only
  split_ifs <;> exact hdecimal

theorem number_crosses (cs : List Char) : Crosses (breaks (number cs).1) cs (number cs).2 := by
  unfold number
  split
  · exact .cons (by decide) (.cons (by decide) (hexadecimal_crosses _ _))
  · exact .cons (by decide) (.cons (by decide) (hexadecimal_crosses _ _))
  · exact decimal_crosses cs

/-- **A token takes up no line feed**, and a fault takes up those that it was read for. -/
theorem token_crosses {cs : List Char} (h : ¬StartsSpacing cs) :
    Crosses (breaks (token cs).1) cs (token cs).2 := by
  cases cs with
  | nil => exact .refl _
  | cons c rest =>
    have hc : c ≠ '\n' := by
      rintro rfl
      exact h (.inl ⟨'\n', rfl, by decide⟩)
    unfold token
    dsimp only
    split_ifs
    · exact number_crosses _
    · exact (stringRest_crosses _ _).cons hc
    · exact (character_crosses _).cons hc
    · exact .drop_takeWhile rfl _
    · cases sign? c <;> exact .cons hc (.refl _)

end Scan

/-! ### Calls -/

/-- The line of a token or of an error. -/
def lineOf : Except ParseError Spanned → UInt32
  | .ok spanned => spanned.line
  | .error fault => fault.line

/-- The line feeds that a call reads as the letter of an escape. -/
def escapedBreaks : Except ParseError Spanned → Nat
  | .error (.syntaxError _ (.lexical fault)) => fault.breaks
  | _ => 0

namespace Lexer

/-- The lexer after the first calls, failed ones too. -/
def after (lexer : Lexer) : Nat → Lexer
  | 0 => lexer
  | n + 1 => (lexer.after n).next.2

/-- The line feeds that the first calls read as letters of escapes. -/
def missed (lexer : Lexer) : Nat → Nat
  | 0 => 0
  | n + 1 => lexer.missed n + escapedBreaks (lexer.after n).next.1

/-- Where the outcome of a call starts: `front` is what stands between the place of the lexer and the first line
break of a line feed, or the first character of a token or of a fault. -/
inductive Locates (last : Option Token) :
    (ahead : List Char) → (outcome : Except ParseError Spanned) → (front rest : List Char) → Prop
  | linefeed {front back s : List Char} {line : UInt32} (skipped : Skipped (front ++ '\n' :: back) s)
    (first : '\n' ∉ front) (breaks : Breaks last) :
    Locates last (front ++ '\n' :: back ++ s) (.ok ⟨.linefeed, line⟩) front s
  | token {front s rest : List Char} {token : Token} {line : UInt32} (skipped : Skipped front s)
    (quiet : ¬('\n' ∈ front ∧ Breaks last)) (read : Scan.token s = (.ok token, rest)) :
    Locates last (front ++ s) (.ok ⟨token, line⟩) front rest
  | fault {front s rest : List Char} {fault : LexFault} {line : UInt32} (skipped : Skipped front s)
    (quiet : ¬('\n' ∈ front ∧ Breaks last)) (read : Scan.token s = (.error fault, rest)) :
    Locates last (front ++ s) (.error (.syntaxError line (.lexical fault))) front rest

/-- **One call.** Its outcome has the line where it starts, and the lexer moves on by the line feeds that it
crosses, less one that is read as a letter. -/
theorem next_locates (lexer : Lexer) : ∃ front n,
    Locates lexer.last lexer.rest lexer.next.1 front lexer.next.2.rest ∧
    lineOf lexer.next.1 = lexer.line + .ofNat (front.count '\n') ∧
    Crosses (n + escapedBreaks lexer.next.1) lexer.rest lexer.next.2.rest ∧
    lexer.next.2.line = lexer.line + .ofNat n := by
  obtain ⟨cs, line, last⟩ := lexer
  obtain ⟨g, s, rfl, hskipped⟩ := exists_skipped cs
  by_cases hbreak : '\n' ∈ g ∧ Breaks last
  · obtain ⟨front, back, rfl, hfront⟩ := List.eq_append_cons_of_mem hbreak.1
    rw [next_break hskipped hbreak.1 hbreak.2]
    refine ⟨front, (front ++ '\n' :: back).count '\n', .linefeed hskipped hfront hbreak.2, ?_,
      ⟨_, rfl, rfl⟩, rfl⟩
    rw [List.count_eq_zero_of_not_mem hfront]
    exact (add_ofNat_zero line).symm
  · have htoken := Scan.token_crosses hskipped.ne_startsSpacing
    rcases hscan : Scan.token s with ⟨fault | token, rest⟩
    · rw [hscan] at htoken
      rw [next_fault hskipped hbreak hscan]
      exact ⟨g, g.count '\n', .fault hskipped hbreak hscan, rfl, .trans ⟨g, rfl, rfl⟩ htoken, rfl⟩
    · rw [hscan] at htoken
      rw [next_read hskipped hbreak hscan]
      exact ⟨g, g.count '\n', .token hskipped hbreak hscan, rfl, .trans ⟨g, rfl, rfl⟩ htoken, rfl⟩

theorem after_crosses (text : String) (n : Nat) : ∃ m,
    Crosses (m + (ofText text).missed n) text.toList ((ofText text).after n).rest ∧
      ((ofText text).after n).line = 1 + .ofNat m := by
  induction n with
  | zero => exact ⟨0, .refl _, rfl⟩
  | succ n ih =>
    obtain ⟨m, hcrosses, hline⟩ := ih
    obtain ⟨-, k, -, -, hnext, hmoved⟩ := next_locates ((ofText text).after n)
    have hcount : m + (ofText text).missed n + (k + escapedBreaks ((ofText text).after n).next.1) =
        m + k + (ofText text).missed (n + 1) := by
      rw [missed]
      omega
    refine ⟨m + k, hcount ▸ hcrosses.trans hnext, ?_⟩
    rw [after, hmoved, hline, add_ofNat_add]

theorem toNat_one_add_ofNat (n : Nat) : (1 + UInt32.ofNat n).toNat = (1 + n) % UInt32.size := by
  rw [UInt32.toNat_add, UInt32.toNat_ofNat', UInt32.toNat_one, Nat.add_mod_mod]

/-- **Lines.** After any number of calls, failed ones included, the line of the lexer is one more than the line
feeds of the text in front of it, and so is the line of what the next call gives, whether it is a token, a line
feed, the end of the text or a fault. Only those line feeds that were read as the letter of an escape
are left out from then on. -/
theorem lines_tracked (text : String) (n : Nat) : ∃ consumed front,
    text.toList = consumed ++ ((ofText text).after n).rest ∧
    (ofText text).missed n ≤ consumed.count '\n' ∧
    ((ofText text).after n).line.toNat =
      (1 + (consumed.count '\n' - (ofText text).missed n)) % UInt32.size ∧
    Locates ((ofText text).after n).last ((ofText text).after n).rest
      ((ofText text).after n).next.1 front ((ofText text).after (n + 1)).rest ∧
    (lineOf ((ofText text).after n).next.1).toNat =
      (1 + ((consumed ++ front).count '\n' - (ofText text).missed n)) % UInt32.size := by
  obtain ⟨m, ⟨consumed, htext, hcount⟩, hline⟩ := after_crosses text n
  obtain ⟨front, -, hlocates, houtcome, -⟩ := next_locates ((ofText text).after n)
  have hconsumed : consumed.count '\n' - (ofText text).missed n = m := by omega
  have hfront : (consumed ++ front).count '\n' - (ofText text).missed n = m + front.count '\n' := by
    rw [List.count_append]
    omega
  refine ⟨consumed, front, htext, by omega, ?_, hlocates, ?_⟩
  · rw [hline, toNat_one_add_ofNat, hconsumed]
  · rw [houtcome, hline, ← add_ofNat_add, toNat_one_add_ofNat, hfront]

/-- A line feed behind a backslash is not counted: the lexer is behind it and still on the first line. -/
theorem line_after_escaped_break :
    let lexer := (ofText "\x27\\\nx").after 1
    (∀ consumed, "\x27\\\nx".toList = consumed ++ lexer.rest → lexer.line.toNat ≠ 1 + consumed.count '\n') ∧
      lexer.next.1 = .ok ⟨.name "x", 1⟩ := by
  have hrest : ((ofText "\x27\\\nx").after 1).rest = ['x'] := by decide
  refine ⟨fun consumed h => ?_, by decide⟩
  have hconsumed : consumed = ['\x27', '\\', '\n'] := by
    have happend : consumed ++ ['x'] = ['\x27', '\\', '\n'] ++ ['x'] := by rw [← hrest, ← h]; rfl
    exact List.append_cancel_right happend
  rw [hconsumed]
  decide

end Lexer

end Wordcode.Literal
