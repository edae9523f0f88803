import Mathlib.Data.String.Basic
import Wordcode.Proofs.Literal.Bytewise
import Wordcode.Proofs.Literal.Numerals

/-! # Places in bytes

A place that is counted in bytes stands in front of characters (`StandsAt`) if it is reached over whole
characters. Every function that reads by bytes goes from such a place to another one, over the characters that the
scan of the same name takes up, and gives what that scan gives. So a cut never fails, and reading by bytes follows
reading by characters (`Bytewise.next?_follows`). -/

namespace Wordcode.Literal

/-! ### What is read by itself -/

namespace Scan

theorem isEmpty_takeWhile (p : Char → Bool) (cs : List Char) :
    (cs.takeWhile p).isEmpty = !cs.head?.any p := by
  rcases cs with _ | ⟨c, cs⟩
  · rfl
  · cases hc : p c <;> simp [hc]

theorem isHex_of_hexValue? {c : Char} {n : Nat} (h : hexValue? c = some n) : isHex c = true := by
  rw [isHex, h]
  rfl

theorem not_isHex_of_hexValue? {c : Char} (h : hexValue? c = none) : isHex c = false := by
  rw [isHex, h]
  rfl

theorem decimal_alone {s : List Char} (h : ∃ c ∈ s.head?, c.isDigit = true) (hmark : ¬IsMarked s) :
    ∃ front, s = front ++ (decimal s).2 ∧ (decimal front).1 = (decimal s).1 := by
  obtain ⟨outcome, rest, hreading⟩ := exists_numberReading h
  have hscan := hreading.token
  rw [number_unmarked h hmark] at hscan
  have hnone : ¬StartsExponent [] := by
    rintro ⟨tail, _, hscale, hpre⟩
    rw [List.prefix_nil] at hpre
    subst hpre
    cases hscale
  cases hreading with
  | hexadecimal marks | hexadecimalTooGreat marks | hexadecimalWithoutDigits marks =>
    exact absurd ⟨_, marks, List.prefix_append ['0', _] _⟩ hmark
  | @integer digits _ _ _ counts ends pointless unscaled
  | @integerTooGreat digits _ _ counts ends pointless unscaled =>
    have hends : ∀ c ∈ ([] : List Char).head?, c.isDigit = false := nofun
    have halone := decimal_integer counts hends nofun hnone
    rw [List.append_nil] at halone
    rw [hscan]
    refine ⟨digits, rfl, ?_⟩
    rw [halone, ← hscan, decimal_integer counts ends pointless unscaled]
  | @float digits tail text _ _ _ unmarked counts ends goesOn splits form longest =>
    have hfloat := not_isDigits_of_goesOn counts ends goesOn splits form longest
    have hlongest : IsLongest text (text ++ []) := fun _ _ _ _ hpre => by
      rw [List.append_nil] at hpre
      exact hpre.length_le
    have halone := decimal_number form hlongest hfloat
    rw [List.append_nil] at halone
    rw [hscan]
    exact ⟨text, splits, by rw [halone]⟩

end Scan

theorem skipGap_drop (line : UInt32) (firstBreak : Option UInt32) (cs : List Char) :
    skipGap true line firstBreak cs =
      skipGap false line firstBreak (cs.drop (cs.takeWhile (· ≠ '\n')).length) := by
  induction cs with
  | nil => rfl
  | cons c cs ih =>
    by_cases hbreak : c = '\n'
    · subst hbreak
      rfl
    · rw [skipGap, if_pos rfl, ih]
      · simp [hbreak]
      · exact hbreak

/-! ### Places -/

/-- The place is reached over whole characters, and `cs` is ahead of it. -/
def StandsAt (text : String) (place : Nat) (cs : List Char) : Prop :=
  ∃ front, text.toList = front ++ cs ∧ place = String.utf8Len front

/-- A reading ends at a place where `rest` is ahead. -/
def Moves (text : String) (moved : Option Nat) (rest : List Char) : Prop :=
  ∃ place, moved = some place ∧ StandsAt text place rest

/-- A reading gives what a scan gives, and ends where the same characters are ahead. -/
def Matches {α : Type} (text : String) (reading : Option (α × Nat)) (scan : α × List Char) : Prop :=
  ∃ place, reading = some (scan.1, place) ∧ StandsAt text place scan.2

namespace StandsAt

variable {text : String} {place start stop : Nat} {cs mid rest : List Char} {c : Char}

theorem zero (text : String) : StandsAt text 0 text.toList := ⟨[], rfl, rfl⟩

theorem isValid (h : StandsAt text place cs) : String.Pos.Raw.IsValid text ⟨place⟩ := by
  obtain ⟨front, htext, rfl⟩ := h
  refine String.Pos.Raw.isValid_iff_exists_append.mpr ⟨.ofList front, .ofList cs, ?_, ?_⟩
  · rw [← String.ofList_append, ← htext, String.ofList_toList]
  · rw [String.rawEndPos_ofList]

theorem tail (h : StandsAt text place (c :: cs)) : StandsAt text (place + c.utf8Size) cs := by
  obtain ⟨front, htext, rfl⟩ := h
  refine ⟨front ++ [c], by rw [htext, List.append_assoc]; rfl, ?_⟩
  rw [String.utf8Len_append, String.utf8Len_cons, String.utf8Len_nil, Nat.zero_add]

theorem behind (front rest : String) : StandsAt (front ++ rest) front.utf8ByteSize rest.toList :=
  ⟨front.toList, String.toList_append, (String.utf8Len_toList front).symm⟩

theorem byteSize (text : String) : StandsAt text text.utf8ByteSize [] :=
  ⟨text.toList, (List.append_nil _).symm, (String.utf8Len_toList text).symm⟩

theorem unique (h : StandsAt text start cs) (h' : StandsAt text stop cs) : start = stop := by
  obtain ⟨front, htext, rfl⟩ := h
  obtain ⟨front', htext', rfl⟩ := h'
  rw [List.append_cancel_right (htext.symm.trans htext')]

theorem cut?_eq (h : StandsAt text start (mid ++ rest)) (h' : StandsAt text stop rest) :
    Bytewise.cut? text start stop = some mid := by
  have hvalid := h.isValid
  have hvalid' := h'.isValid
  obtain ⟨front, htext, rfl⟩ := h
  obtain ⟨front', htext', rfl⟩ := h'
  have hfront : front' = front ++ mid := by
    rw [htext, ← List.append_assoc] at htext'
    exact (List.append_cancel_right htext').symm
  subst hfront
  have hextract := String.extract_of_valid front mid rest
  rw [← htext', String.ofList_toList, ← String.utf8Len_append] at hextract
  have hle : String.utf8Len front ≤ String.utf8Len (front ++ mid) := by
    rw [String.utf8Len_append]
    exact Nat.le_add_right _ _
  rw [Bytewise.cut?, if_pos ⟨hle, hvalid, hvalid'⟩, hextract, String.toList_ofList]

/-! ### Looking and moving -/

theorem ahead?_eq (h : StandsAt text place cs) : Bytewise.ahead? text place = some cs := by
  rw [← List.append_nil cs] at h
  exact h.cut?_eq (byteSize text)

theorem peek?_eq (h : StandsAt text place cs) : Bytewise.peek? text place = some cs.head? := by
  rw [Bytewise.peek?, h.ahead?_eq]
  rfl

theorem peekNext?_eq (h : StandsAt text place cs) : Bytewise.peekNext? text place = some cs.tail.head? := by
  rw [Bytewise.peekNext?, h.ahead?_eq]
  rfl

theorem bump?_eq (h : StandsAt text place (c :: cs)) : Bytewise.bump? text place = some (place + c.utf8Size) := by
  rw [Bytewise.bump?, h.peek?_eq]
  rfl

theorem skipOne?_pos {p : Char → Bool} (h : StandsAt text place (c :: cs)) (hc : p c = true) :
    Bytewise.skipOne? text p place = some (place + c.utf8Size) := by
  simp only [Bytewise.skipOne?, h.peek?_eq, h.bump?_eq, Option.bind_eq_bind, Option.bind_some, List.head?_cons,
    Option.any_some, hc, if_true]

theorem skipOne?_neg {p : Char → Bool} (h : StandsAt text place cs) (hcs : cs.head?.any p = false) :
    Bytewise.skipOne? text p place = some place := by
  simp [Bytewise.skipOne?, h.peek?_eq, hcs]

/-- All the characters of these are passed. -/
theorem skipAll? {p : Char → Bool} (h : StandsAt text place cs) :
    Moves text (Bytewise.skipAll? text p place) (cs.drop (cs.takeWhile p).length) := by
  induction cs generalizing place with
  | nil =>
    rw [Bytewise.skipAll?, h.peek?_eq]
    exact ⟨place, rfl, h⟩
  | cons c cs ih =>
    rw [Bytewise.skipAll?, h.peek?_eq]
    by_cases hc : p c = true
    · simpa [hc, h.bump?_eq] using ih h.tail
    · simpa [hc] using ⟨place, rfl, h⟩

/-- What is passed can be cut out. -/
theorem cut?_skipAll? {p : Char → Bool} (h : StandsAt text start cs) : ∃ stop,
    Bytewise.skipAll? text p start = some stop ∧ Bytewise.cut? text start stop = some (cs.takeWhile p) ∧
      StandsAt text stop (cs.drop (cs.takeWhile p).length) := by
  obtain ⟨stop, hstop, hrest⟩ := h.skipAll? (p := p)
  rw [← List.prefix_iff_eq_append.mp (List.takeWhile_prefix p (l := cs))] at h
  exact ⟨stop, hstop, h.cut?_eq hrest, hrest⟩

/-! ### Numbers -/

theorem hexadecimal? {mark : Char} (h : StandsAt text start ('0' :: mark :: cs)) :
    Matches text (Bytewise.hexadecimal? text start) (Scan.hexadecimal ['0', mark] cs) := by
  obtain ⟨stop, hstop, hdigits, hrest⟩ := h.tail.tail.cut?_skipAll? (p := Scan.isHex)
  have hwhole : Bytewise.cut? text start stop = some ('0' :: mark :: cs.takeWhile Scan.isHex) := by
    rw [← List.prefix_iff_eq_append.mp (List.takeWhile_prefix Scan.isHex (l := cs))] at h
    exact h.cut?_eq hrest
  refine ⟨stop, ?_, ?_⟩
  · unfold Bytewise.hexadecimal? Scan.hexadecimal
    simp only [h.bump?_eq, h.tail.bump?_eq, hstop, hdigits, hwhole, Option.bind_eq_bind, Option.bind_some]
    split_ifs <;> rfl
  · unfold Scan.hexadecimal
    dsimp only
    split_ifs <;> exact hrest

theorem fraction? (h : StandsAt text place cs) :
    Moves text (Bytewise.fraction? text place) (Scan.fraction cs).2 := by
  by_cases hpoint : cs.head? = some '.'
  · obtain ⟨cs, rfl⟩ := List.head?_eq_some_iff.mp hpoint
    simpa [Bytewise.fraction?, Scan.fraction, h.peek?_eq, h.bump?_eq] using h.tail.skipAll?
  · rw [Scan.fraction_of_head fun c hc he => hpoint (he ▸ hc)]
    simpa [Bytewise.fraction?, h.peek?_eq, hpoint] using ⟨place, rfl, h⟩

theorem exponentSign? (h : StandsAt text place cs) :
    Moves text (Bytewise.skipOne? text (fun c => c = '+' ∨ c = '-') place) (Scan.exponentSign cs).2 := by
  fun_cases Scan.exponentSign cs with
  | case1 => exact ⟨_, h.skipOne?_pos rfl, h.tail⟩
  | case2 => exact ⟨_, h.skipOne?_pos rfl, h.tail⟩
  | case3 _ hplus hminus =>
    refine ⟨_, h.skipOne?_neg ?_, h⟩
    rcases cs with _ | ⟨c, cs⟩
    · rfl
    have hne : ¬(c = '+' ∨ c = '-') := by
      rintro (rfl | rfl)
      · exact hplus cs rfl
      · exact hminus cs rfl
    exact decide_eq_false hne

theorem exponent? (h : StandsAt text place cs) :
    Moves text (Bytewise.exponent? text place) (Scan.exponent cs).2 := by
  rcases cs with _ | ⟨letter, cs⟩
  · simpa [Bytewise.exponent?, h.peek?_eq, Scan.exponent] using ⟨place, rfl, h⟩
  obtain ⟨digits, hdigits, hunsigned⟩ := h.tail.exponentSign?
  unfold Bytewise.exponent? Scan.exponent
  simp only [h.peek?_eq, h.bump?_eq, hdigits, hunsigned.peek?_eq, Scan.isEmpty_takeWhile, Option.bind_eq_bind,
    Option.bind_some, List.head?_cons, Option.any_some, decide_eq_true_iff]
  by_cases hletter : letter = 'e' ∨ letter = 'E'
  · rw [if_pos hletter, if_pos hletter]
    cases hdigit : (Scan.exponentSign cs).2.head?.any Char.isDigit with
    | true => exact hunsigned.skipAll?
    | false => exact ⟨place, rfl, h⟩
  · rw [if_neg hletter, if_neg hletter]
    exact ⟨place, rfl, h⟩

theorem decimal? (h : StandsAt text start cs) (hdigit : ∃ c ∈ cs.head?, c.isDigit = true)
    (hmark : ¬IsMarked cs) : Matches text (Bytewise.decimal? text start) (Scan.decimal cs) := by
  obtain ⟨whole, hwhole, hwhole'⟩ := h.skipAll? (p := Char.isDigit)
  obtain ⟨point, hpoint, hpoint'⟩ := hwhole'.fraction?
  obtain ⟨stop, hstop, hstop'⟩ := hpoint'.exponent?
  have hrest : StandsAt text stop (Scan.decimal cs).2 := by
    unfold Scan.decimal
    dsimp only
    split_ifs <;> exact hstop'
  obtain ⟨front, hfront, halone⟩ := Scan.decimal_alone hdigit hmark
  have hcut : Bytewise.cut? text start stop = some front := by
    rw [hfront] at h
    exact h.cut?_eq hrest
  refine ⟨stop, ?_, hrest⟩
  simp only [Bytewise.decimal?, hwhole, hpoint, hstop, hcut, halone, Option.bind_eq_bind, Option.bind_some]
  rfl

theorem number? (h : StandsAt text start (c :: cs)) (hdigit : c.isDigit = true) :
    Matches text (Bytewise.number? text start) (Scan.number (c :: cs)) := by
  have hhead : ∃ d ∈ (c :: cs).head?, d.isDigit = true := ⟨c, rfl, hdigit⟩
  unfold Bytewise.number?
  simp only [h.peek?_eq, h.peekNext?_eq, Option.bind_eq_bind, Option.bind_some, List.head?_cons, List.tail_cons]
  by_cases hmark : IsMarked (c :: cs)
  · obtain ⟨mark, marks, cs, hcs⟩ := hmark
    rw [List.cons_append, List.singleton_append] at hcs
    obtain ⟨rfl, rfl⟩ := List.cons.inj hcs
    have hnumber : Scan.number ('0' :: mark :: cs) = Scan.hexadecimal ['0', mark] cs := by
      rcases List.mem_pair.mp marks with rfl | rfl <;> rfl
    have hany : (mark :: cs).head?.any (fun c => c = 'x' ∨ c = 'X') = true :=
      decide_eq_true (List.mem_pair.mp marks)
    rw [hnumber, if_pos rfl, if_pos hany]
    exact h.hexadecimal?
  · rw [← Scan.token_eq_number hhead, Scan.number_unmarked hhead hmark]
    have hdecimal := h.decimal? hhead hmark
    split_ifs with hzero hany
    · obtain rfl := Option.some.inj hzero
      rcases cs with _ | ⟨mark, cs⟩
      · cases hany
      · have marks : mark ∈ ['x', 'X'] := List.mem_pair.mpr (of_decide_eq_true hany)
        exact absurd ⟨mark, marks, List.prefix_append ['0', mark] cs⟩ hmark
    · exact hdecimal
    · exact hdecimal

/-! ### Strings and characters -/

theorem hexEscape? (h : StandsAt text start cs) :
    Matches text (Bytewise.hexEscape? text start) (Scan.hexEscape cs) := by
  have hnone : Bytewise.cut? text start start = some [] := StandsAt.cut?_eq h h
  unfold Bytewise.hexEscape?
  simp only [Option.bind_eq_bind]
  fun_cases Scan.hexEscape cs with
  | case1 a cs ha =>
    have hskip := h.skipOne?_neg (p := Scan.isHex) (Scan.not_isHex_of_hexValue? ha)
    simp only [hskip, hnone, Option.bind_some]
    exact ⟨_, rfl, h⟩
  | case2 a high ha b cs hb =>
    have hskip := h.skipOne?_pos (Scan.isHex_of_hexValue? ha)
    have hskip' := h.tail.skipOne?_neg (p := Scan.isHex) (Scan.not_isHex_of_hexValue? hb)
    have hone : Bytewise.cut? text start (start + a.utf8Size) = some [a] := StandsAt.cut?_eq h h.tail
    simp only [hskip, hskip', hone, Option.bind_some]
    exact ⟨_, rfl, h.tail⟩
  | case3 a high ha b cs low hb =>
    have hskip := h.skipOne?_pos (Scan.isHex_of_hexValue? ha)
    have hskip' := h.tail.skipOne?_pos (Scan.isHex_of_hexValue? hb)
    have htwo : Bytewise.cut? text start (start + a.utf8Size + b.utf8Size) = some [a, b] :=
      StandsAt.cut?_eq h h.tail.tail
    have hnumber : Scan.hexNumber [a, b] = 16 * high + low := by simp [Scan.hexNumber, ha, hb]
    simp only [hskip, hskip', htwo, hnumber, Option.bind_some]
    exact ⟨_, rfl, h.tail.tail⟩
  | case4 a high ha =>
    have hskip := h.skipOne?_pos (Scan.isHex_of_hexValue? ha)
    have hone : Bytewise.cut? text start (start + a.utf8Size) = some [a] := StandsAt.cut?_eq h h.tail
    simp only [hskip, h.tail.skipOne?_neg rfl, hone, Option.bind_some]
    exact ⟨_, rfl, h.tail⟩
  | case5 =>
    simp only [h.skipOne?_neg rfl, hnone, Option.bind_some]
    exact ⟨_, rfl, h⟩

theorem escape? (h : StandsAt text place ('\\' :: cs)) :
    Matches text (Bytewise.escape? text place) (Scan.escape cs) := by
  unfold Bytewise.escape?
  simp only [h.bump?_eq, h.tail.peek?_eq, Option.bind_eq_bind, Option.bind_some]
  fun_cases Scan.escape cs with
  | case1 => exact ⟨_, rfl, h.tail⟩
  | case2 cs =>
    simp only [List.head?_cons, h.tail.bump?_eq, Option.bind_some]
    exact h.tail.tail.hexEscape?
  | case3 letter cs hx c hc =>
    simp only [List.head?_cons, h.tail.bump?_eq, Option.bind_some, if_neg (show letter ≠ 'x' from hx), hc]
    exact ⟨_, rfl, h.tail.tail⟩
  | case4 letter cs hx hnone =>
    simp only [List.head?_cons, h.tail.bump?_eq, Option.bind_some, if_neg (show letter ≠ 'x' from hx), hnone]
    exact ⟨_, rfl, h.tail.tail⟩

theorem stringRest? {done : List Char} (h : StandsAt text place cs) :
    Matches text (Bytewise.stringRest? text done place) (Scan.stringRest done cs) := by
  fun_induction Scan.stringRest done cs generalizing place with
  | case1 done =>
    rw [Bytewise.stringRest?, h.peek?_eq]
    exact ⟨place, rfl, h⟩
  | case2 =>
    rw [Bytewise.stringRest?, h.peek?_eq]
    exact ⟨place, rfl, h⟩
  | case3 =>
    rw [Bytewise.stringRest?, h.peek?_eq]
    exact ⟨_, rfl, h.tail⟩
  | case4 done cs escaped c hc =>
    rename_i ih
    obtain ⟨behind, hescape, hbehind⟩ := h.escape?
    rw [show (Scan.escape cs).1 = .ok c from hc] at hescape
    rw [Bytewise.stringRest?, h.peek?_eq]
    dsimp only [List.head?_cons]
    rw [if_neg (by decide), if_neg (by decide), if_pos rfl, hescape]
    exact ih hbehind
  | case5 done cs escaped fault hfault =>
    obtain ⟨behind, hescape, hbehind⟩ := h.escape?
    rw [show (Scan.escape cs).1 = .error fault from hfault] at hescape
    rw [Bytewise.stringRest?, h.peek?_eq]
    dsimp only [List.head?_cons]
    rw [if_neg (by decide), if_neg (by decide), if_pos rfl, hescape]
    exact ⟨behind, rfl, hbehind⟩
  | case6 done c cs hbreak hquote hslash ih =>
    rw [Bytewise.stringRest?, h.peek?_eq]
    dsimp only [List.head?_cons]
    rw [if_neg hbreak, if_neg hquote, if_neg hslash]
    exact ih h.tail

theorem characterEnd? (c : Char) (h : StandsAt text place cs) :
    Matches text (Bytewise.characterEnd? text c place) (Scan.characterEnd c cs) := by
  unfold Bytewise.characterEnd?
  simp only [h.peek?_eq, Option.bind_eq_bind, Option.bind_some]
  fun_cases Scan.characterEnd c cs with
  | case1 cs =>
    simp only [List.head?_cons, if_true, h.bump?_eq, Option.bind_some]
    exact ⟨_, rfl, h.tail⟩
  | case2 cs hquote =>
    have hne : cs.head? ≠ some '\x27' := fun he => by
      obtain ⟨rest, rfl⟩ := List.head?_eq_some_iff.mp he
      exact hquote rest rfl
    rw [if_neg hne]
    exact ⟨_, rfl, h⟩

theorem character? (h : StandsAt text place cs) :
    Matches text (Bytewise.character? text place) (Scan.character cs) := by
  unfold Bytewise.character?
  simp only [h.peek?_eq, Option.bind_eq_bind, Option.bind_some]
  fun_cases Scan.character cs with
  | case1 cs c rest hescape =>
    obtain ⟨behind, hread, hbehind⟩ := h.escape?
    rw [hescape] at hread hbehind
    simp only [List.head?_cons, if_true, hread, Option.bind_some]
    exact hbehind.characterEnd? c
  | case2 cs fault rest hescape =>
    obtain ⟨behind, hread, hbehind⟩ := h.escape?
    rw [hescape] at hread hbehind
    simp only [List.head?_cons, if_true, hread, Option.bind_some]
    exact ⟨behind, rfl, hbehind⟩
  | case3 c cs hslash hempty =>
    simp only [List.head?_cons, if_neg (show c ≠ '\\' from hslash), if_pos hempty]
    exact ⟨place, rfl, h⟩
  | case4 c cs hslash hempty =>
    simp only [List.head?_cons, if_neg (show c ≠ '\\' from hslash), if_neg hempty, h.bump?_eq, Option.bind_some]
    exact h.tail.characterEnd? c
  | case5 => exact ⟨place, rfl, h⟩

/-! ### Tokens -/

theorem name? (h : StandsAt text start cs) : Matches text (Bytewise.name? text start) (Scan.name cs) := by
  obtain ⟨stop, hstop, hchars, hrest⟩ := h.cut?_skipAll? (p := Scan.continuesName)
  refine ⟨stop, ?_, hrest⟩
  simp only [Bytewise.name?, hstop, hchars, Option.bind_eq_bind, Option.bind_some]
  rfl

theorem token? (h : StandsAt text place cs) : Matches text (Bytewise.token? text place) (Scan.token cs) := by
  rcases cs with _ | ⟨c, cs⟩
  · rw [Bytewise.token?, h.peek?_eq]
    exact ⟨place, rfl, h⟩
  unfold Bytewise.token? Scan.token
  simp only [h.peek?_eq, h.bump?_eq, Option.bind_eq_bind, Option.bind_some, List.head?_cons]
  split_ifs with hdigit hstring hcharacter hname
  · exact h.number? hdigit
  · exact h.tail.stringRest?
  · exact h.tail.character?
  · exact h.name?
  · exact ⟨_, rfl, h.tail⟩

end StandsAt

/-! ### Gaps -/

/-- Skipping by bytes skips the same gap. -/
theorem StandsAt.skipGap? {text : String} {place : Nat} {cs : List Char} (h : StandsAt text place cs) (line : UInt32)
    (firstBreak : Option UInt32) : ∃ behind, StandsAt text behind (skipGap false line firstBreak cs).rest ∧
      Bytewise.skipGap? text place line firstBreak = some ⟨behind, (skipGap false line firstBreak cs).line,
        (skipGap false line firstBreak cs).firstBreak⟩ := by
  -- a comment is skipped as a whole, so the induction is on what is left
  induction hn : cs.length using Nat.strong_induction_on generalizing cs place line firstBreak with
  | h n ih =>
    rw [Bytewise.skipGap?, h.peek?_eq]
    rcases cs with _ | ⟨c, cs⟩
    · exact ⟨place, h, rfl⟩
    dsimp only [List.head?_cons]
    have hlt : cs.length < n := by simp [← hn]
    by_cases hbreak : c = '\n'
    · subst hbreak
      rw [if_neg (by decide), if_pos rfl]
      exact ih _ hlt h.tail (line + 1) (firstBreak <|> some line) rfl
    rw [skipGap, if_neg (show ¬false = true by decide)]
    swap
    · exact hbreak
    by_cases hblank : c = ' ' ∨ c = '\t' ∨ c = '\r'
    · rw [if_pos hblank, if_pos hblank]
      exact ih _ hlt h.tail line firstBreak rfl
    rw [if_neg hblank, if_neg hblank, if_neg hbreak]
    by_cases hslash : c = '/'
    · subst hslash
      rw [dif_pos rfl, h.peekNext?_eq]
      dsimp only [List.tail_cons]
      by_cases hcomment : cs.head? = some '/'
      · obtain ⟨behind, hskip, hbehind⟩ := h.skipAll? (p := (· ≠ '\n'))
        rw [List.takeWhile_cons_of_pos rfl] at hbehind
        rw [if_pos hcomment, if_pos ⟨rfl, hcomment⟩, skipGap_drop, hskip]
        have hle : (cs.drop (cs.takeWhile (· ≠ '\n')).length).length < n :=
          Nat.lt_of_le_of_lt (by simp) hlt
        exact ih _ hle hbehind line firstBreak rfl
      · rw [if_neg hcomment, if_neg fun hand => hcomment hand.2]
        exact ⟨place, h, rfl⟩
    · rw [dif_neg hslash, if_neg fun hand => hslash hand.1]
      exact ⟨place, h, rfl⟩

namespace Bytewise

/-- The lexer stands where another one stands, as far as both have read. -/
structure Follows (text : String) (bytewise : Bytewise) (lexer : Lexer) : Prop where
  stands : StandsAt text bytewise.place lexer.rest
  line : bytewise.line = lexer.line
  last : bytewise.last = lexer.last

theorem Follows.unique {text : String} {bytewise bytewise' : Bytewise} {lexer : Lexer}
    (h : bytewise.Follows text lexer) (h' : bytewise'.Follows text lexer) : bytewise = bytewise' := by
  obtain ⟨place, line, last⟩ := bytewise
  obtain ⟨place', line', last'⟩ := bytewise'
  obtain ⟨hstands, rfl, rfl⟩ := h
  obtain ⟨hstands', rfl, rfl⟩ := h'
  obtain rfl := hstands.unique hstands'
  rfl

/-- **Reading by bytes is reading.** A call always succeeds in cutting the text, and gives what the same call
gives on the characters ahead. -/
theorem next?_follows {text : String} {bytewise : Bytewise} {lexer : Lexer} (h : bytewise.Follows text lexer) :
    ∃ bytewise', bytewise.next? text = some (lexer.next.1, bytewise') ∧
      bytewise'.Follows text lexer.next.2 := by
  obtain ⟨place, line, last⟩ := bytewise
  obtain ⟨rest, line', last'⟩ := lexer
  obtain ⟨hstands, rfl, rfl⟩ := h
  obtain ⟨behind, hbehind, hgap⟩ := hstands.skipGap? line none
  obtain ⟨stop, hread, hstop⟩ := hbehind.token?
  unfold next? Lexer.next
  simp only [hgap, Option.bind_eq_bind, Option.bind_some]
  generalize (if last.any (!·.continuesLine) then (skipGap false line none rest).firstBreak
    else none) = breakLine
  cases breakLine with
  | some breakLine => exact ⟨_, rfl, hbehind, rfl, rfl⟩
  | none =>
    simp only [hread, Option.bind_some]
    rcases hscan : Scan.token (skipGap false line none rest).rest with ⟨fault | token, left⟩
    · rw [hscan] at hstop
      exact ⟨_, rfl, hstop, rfl, rfl⟩
    · rw [hscan] at hstop
      exact ⟨_, rfl, hstop, rfl, rfl⟩

/-- What a call reads from the characters ahead it reads from their bytes, whatever stands in front of them. -/
theorem next?_of_next {front taken rest : String} {line line' : UInt32} {last last' : Option Token}
    {outcome : Except ParseError Spanned}
    (h : Lexer.next ⟨taken.toList ++ rest.toList, line, last⟩ = (outcome, ⟨rest.toList, line', last'⟩)) :
    next? (front ++ taken ++ rest) ⟨front.utf8ByteSize, line, last⟩ =
      some (outcome, ⟨(front ++ taken).utf8ByteSize, line', last'⟩) := by
  have hstart : StandsAt (front ++ taken ++ rest) front.utf8ByteSize (taken.toList ++ rest.toList) := by
    rw [String.append_assoc, ← String.toList_append]
    exact .behind front _
  have hfollows : Follows (front ++ taken ++ rest) ⟨front.utf8ByteSize, line, last⟩
      ⟨taken.toList ++ rest.toList, line, last⟩ := ⟨hstart, rfl, rfl⟩
  have hstop : Follows (front ++ taken ++ rest) ⟨(front ++ taken).utf8ByteSize, line', last'⟩
      ⟨rest.toList, line', last'⟩ := ⟨.behind _ rest, rfl, rfl⟩
  obtain ⟨behind, hread, hbehind⟩ := next?_follows hfollows
  rw [h] at hread hbehind
  rw [hread, hbehind.unique hstop]

end Bytewise

end Wordcode.Literal
