import Wordcode.Proofs.Literal.Scanning
import Wordcode.Proofs.Literal.Spacing

/-! # How far a token looks ahead

A string or a character ends by itself: what follows its last quote is not looked at (`Scan.Enclosed`). A number
or a name ends where its characters end, and a number looks two characters further for an exponent; none of
these is a blank or a slash. So a token in front of spacing stays the same in front of any other spacing
(`Scan.token_replace`). -/

namespace Wordcode.Literal

/-- Spacing starts with a blank or a slash. -/
theorem StartsSpacing.head_mem {x : List Char} (h : StartsSpacing x) : ∀ c ∈ x.head?, c ∈ '/' :: blanks := by
  intro c hc
  rcases h with ⟨d, hd, hblank⟩ | ⟨rest, rfl⟩
  · obtain rfl : d = c := Option.some.inj (hd.symm.trans hc)
    exact List.mem_cons_of_mem _ hblank
  · obtain rfl : '/' = c := Option.some.inj hc
    exact List.mem_cons_self

theorem StartsSpacing.head_ne {x : List Char} {c : Char} (h : StartsSpacing x) (hc : c ∉ '/' :: blanks) :
    ∀ d ∈ x.head?, d ≠ c := by
  rintro d hd rfl
  exact hc (h.head_mem d hd)

namespace Scan

/-! ### What ends by itself -/

/-- The scan leaves `rest`, and it would read the same in front of anything else. -/
def Enclosed {α : Type} (scan : List Char → Except LexFault α × List Char) (cs : List Char) : Prop :=
  ∀ {a rest}, scan cs = (.ok a, rest) →
    ∃ chars, cs = chars ++ rest ∧ ∀ rest', scan (chars ++ rest') = (.ok a, rest')

theorem hexEscape_enclosed (cs : List Char) : Enclosed hexEscape cs := by
  intro c rest h
  unfold hexEscape at h
  split at h
  · next a _ =>
    split at h
    · cases h
    · next high ha =>
      split at h
      · next b _ =>
        split at h
        · cases h
        · next low hb =>
          obtain ⟨rfl, rfl⟩ := by simpa using h
          exact ⟨[a, b], rfl, fun rest' => hexEscape_cons rest' ha hb⟩
      · cases h
  · cases h

theorem escape_enclosed (cs : List Char) : Enclosed escape cs := by
  intro c rest h
  unfold escape at h
  split at h
  · cases h
  · obtain ⟨chars, rfl, hchars⟩ := hexEscape_enclosed _ h
    exact ⟨'x' :: chars, rfl, hchars⟩
  · next letter _ hx =>
    split at h
    · next c' hletter =>
      obtain ⟨rfl, rfl⟩ := by simpa using h
      refine ⟨[letter], rfl, fun rest' => ?_⟩
      have hne : letter ≠ 'x' := fun he => hx he
      unfold escape
      simp [hletter]
    · cases h

theorem stringRest_enclosed (done cs : List Char) : Enclosed (stringRest done) cs := by
  intro t rest h
  fun_induction stringRest done cs with
  | case1 | case2 | case5 => cases h
  | case3 =>
    cases h
    exact ⟨['"'], rfl, fun _ => stringRest_quote⟩
  | case4 done cs escaped c hc _ _ ih =>
    obtain ⟨front, hcs, hfront⟩ := escape_enclosed cs (Prod.ext hc rfl)
    obtain ⟨chars, hescaped, hchars⟩ := ih h
    refine ⟨'\\' :: (front ++ chars), ?_, fun rest' => ?_⟩
    · rw [List.cons_append, List.append_assoc, ← hescaped, ← hcs]
    · rw [List.cons_append, List.append_assoc, stringRest_escape (hfront _), hchars]
  | case6 done c cs hbreak hquote hslash ih =>
    obtain ⟨chars, rfl, hchars⟩ := ih h
    refine ⟨c :: chars, rfl, fun rest' => ?_⟩
    rw [List.cons_append, stringRest_plain ⟨hbreak, hquote, hslash⟩, hchars]

theorem characterEnd_enclosed (c : Char) (cs : List Char) : Enclosed (characterEnd c) cs := by
  intro t rest h
  unfold characterEnd at h
  split at h <;> cases h
  exact ⟨['\x27'], rfl, fun _ => rfl⟩

theorem character_enclosed (cs : List Char) : Enclosed character cs := by
  intro t rest h
  unfold character at h
  split at h
  · next cs =>
    split at h
    · next c cs' hescape =>
      obtain ⟨front, rfl, hfront⟩ := escape_enclosed cs hescape
      obtain ⟨chars, rfl, hchars⟩ := characterEnd_enclosed c cs' h
      refine ⟨'\\' :: (front ++ chars), by simp, fun rest' => ?_⟩
      rw [List.cons_append, List.append_assoc, character, hfront]
      exact hchars rest'
    · cases h
  · next c cs hslash =>
    split_ifs at h with hc
    · cases h
    · obtain ⟨chars, rfl, hchars⟩ := characterEnd_enclosed c cs h
      refine ⟨c :: chars, rfl, fun rest' => ?_⟩
      rw [List.cons_append, character, if_neg hc, hchars]
      exact fun he => hslash he
  · cases h

/-! ### Numbers and names -/

theorem exponentSign_of_head {cs : List Char} (hplus : ∀ c ∈ cs.head?, c ≠ '+')
    (hminus : ∀ c ∈ cs.head?, c ≠ '-') : exponentSign cs = (false, cs) := by
  unfold exponentSign
  split
  · exact absurd rfl (hplus '+' rfl)
  · exact absurd rfl (hminus '-' rfl)
  · rfl

section Spacing

variable {x : List Char} (hx : StartsSpacing x)

theorem drop_append_takeWhile (p : Char → Bool) (u x : List Char) :
    (u ++ x).drop (u.takeWhile p).length = u.drop (u.takeWhile p).length ++ x :=
  List.drop_append_of_le_length (List.takeWhile_prefix p).length_le

include hx

theorem takeWhile_append_spacing {p : Char → Bool} (hp : ('/' :: blanks).any p = false) (u : List Char) :
    (u ++ x).takeWhile p = u.takeWhile p :=
  takeWhile_append_of_head
    (fun c hc => Bool.eq_false_iff.mpr (List.any_eq_false.mp hp c (hx.head_mem c hc))) u

theorem hexadecimal_append (mark u : List Char) :
    hexadecimal mark (u ++ x) = ((hexadecimal mark u).1, (hexadecimal mark u).2 ++ x) := by
  have hhex : ('/' :: blanks).any isHex = false := by decide
  unfold hexadecimal
  simp only [takeWhile_append_spacing hx hhex, drop_append_takeWhile]
  split_ifs <;> rfl

theorem fraction_append (u : List Char) :
    fraction (u ++ x) = ((fraction u).1, (fraction u).2 ++ x) := by
  have hdigits : ('/' :: blanks).any Char.isDigit = false := by decide
  rcases u with _ | ⟨c, u⟩
  · exact fraction_of_head (hx.head_ne (by decide))
  · by_cases hpoint : c = '.'
    · subst hpoint
      simp only [List.cons_append, fraction, takeWhile_append_spacing hx hdigits,
        drop_append_takeWhile]
    · have hhead : ∀ v : List Char, ∀ d ∈ (c :: v).head?, d ≠ '.' := by simpa using hpoint
      rw [List.cons_append, fraction_of_head (hhead _), fraction_of_head (hhead u), List.cons_append]

theorem exponentSign_append (u : List Char) :
    exponentSign (u ++ x) = ((exponentSign u).1, (exponentSign u).2 ++ x) := by
  rcases u with _ | ⟨c, u⟩
  · exact exponentSign_of_head (hx.head_ne (by decide)) (hx.head_ne (by decide))
  · by_cases hplus : c = '+'
    · subst hplus
      rfl
    · by_cases hminus : c = '-'
      · subst hminus
        rfl
      · have hnone (v : List Char) : exponentSign (c :: v) = (false, c :: v) :=
          exponentSign_of_head (by simpa using hplus) (by simpa using hminus)
        rw [List.cons_append, hnone, hnone, List.cons_append]

theorem exponent_append (u : List Char) :
    exponent (u ++ x) = ((exponent u).1, (exponent u).2 ++ x) := by
  have hdigits : ('/' :: blanks).any Char.isDigit = false := by decide
  rcases u with _ | ⟨e, u⟩
  · exact exponent_of_head (hx.head_ne (by decide)) (hx.head_ne (by decide))
  · unfold exponent
    simp only [List.cons_append, exponentSign_append hx, takeWhile_append_spacing hx hdigits,
      drop_append_takeWhile]
    split_ifs <;> rfl

theorem decimal_append (u : List Char) :
    decimal (u ++ x) = ((decimal u).1, (decimal u).2 ++ x) := by
  have hdigits : ('/' :: blanks).any Char.isDigit = false := by decide
  unfold decimal
  simp only [takeWhile_append_spacing hx hdigits, drop_append_takeWhile, fraction_append hx,
    exponent_append hx]
  split_ifs <;> rfl

theorem number_append (c : Char) (u : List Char) :
    number (c :: u ++ x) = ((number (c :: u)).1, (number (c :: u)).2 ++ x) := by
  by_cases hmark : c = '0' ∧ ∃ d ∈ u.head?, d = 'x' ∨ d = 'X'
  · obtain ⟨rfl, d, hd, hmark⟩ := hmark
    obtain ⟨u, rfl⟩ := List.head?_eq_some_iff.mp hd
    rcases hmark with rfl | rfl <;> exact hexadecimal_append hx _ u
  · have hmark' : ¬(c = '0' ∧ ∃ d ∈ (u ++ x).head?, d = 'x' ∨ d = 'X') := by
      rintro ⟨rfl, d, hd, he⟩
      rcases u with _ | ⟨d', u⟩
      · rcases he with rfl | rfl <;> exact hx.head_ne (by decide) _ hd rfl
      · exact hmark ⟨rfl, d, hd, he⟩
    rw [List.cons_append, number_eq_decimal hmark', number_eq_decimal hmark, ← List.cons_append,
      decimal_append hx]

theorem name_append (u : List Char) : name (u ++ x) = ((name u).1, (name u).2 ++ x) := by
  have hname : ('/' :: blanks).any continuesName = false := by decide
  unfold name
  simp only [takeWhile_append_spacing hx hname, drop_append_takeWhile]

end Spacing

/-- **A token does not see the spacing behind it**: in front of other spacing the same token is read, up to
the same place. -/
theorem token_replace {u u' x x' : List Char} {t : Token} (hx : StartsSpacing x) (hx' : StartsSpacing x')
    (h : token (u ++ x) = (.ok t, u' ++ x)) : token (u ++ x') = (.ok t, u' ++ x') := by
  -- what is read the same in front of anything
  have henclosed {scan : List Char → Scan} {v : List Char} (hscan : Enclosed scan (v ++ x))
      (hv : scan (v ++ x) = (.ok t, u' ++ x)) : scan (v ++ x') = (.ok t, u' ++ x') := by
    obtain ⟨chars, happend, hchars⟩ := hscan hv
    rw [← List.append_assoc] at happend
    rw [List.append_cancel_right happend, List.append_assoc, hchars]
  -- what ends where the spacing starts
  have happends {scan : List Char → Scan} {v : List Char}
      (hscan : ∀ {x}, StartsSpacing x → scan (v ++ x) = ((scan v).1, (scan v).2 ++ x))
      (hv : scan (v ++ x) = (.ok t, u' ++ x)) : scan (v ++ x') = (.ok t, u' ++ x') := by
    rw [hscan hx, Prod.mk.injEq] at hv
    rw [hscan hx', hv.1, List.append_cancel_right hv.2]
  rcases u with _ | ⟨c, u⟩
  · exact absurd hx (not_startsSpacing_of_token h)
  · rw [List.cons_append] at h ⊢
    unfold token at h ⊢
    dsimp only at h ⊢
    split_ifs at h ⊢
    · exact happends (fun hx => number_append hx c u) h
    · exact henclosed (stringRest_enclosed [] _) h
    · exact henclosed (character_enclosed _) h
    · exact happends (fun hx => name_append hx (c :: u)) h
    · rw [Prod.mk.injEq] at h
      rw [h.1, List.append_cancel_right h.2]

end Scan

end Wordcode.Literal
