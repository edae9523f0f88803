import Wordcode.Proofs.Literal.Tokens

/-! # What stands between tokens

Tokens are separated by spacing (`Spacing`): blanks, line feeds and comments up to a line feed; behind the last
token a comment may also end with the text (`Skipped`). Every text is what is skipped and what a token is then
read from (`exists_skipped`), in one way only. A lexer that skips spacing counts its line feeds, and the first
one has the line where the spacing starts (`skipGap_skipped`); so what it reads next is given by what is read
behind the spacing and by whether there is a line feed in it (`Lexer.next_break`, `Lexer.next_read`,
`Lexer.next_fault`, `Lexer.next_eq_ok`). -/

namespace Wordcode.Literal

/-- The characters that mean nothing between tokens. -/
def blanks : List Char := [' ', '\t', '\r', '\n']

/-- Blanks, line feeds and comments that a line feed ends. -/
inductive Spacing : List Char → Prop
  | nil : Spacing []
  | blank {c : Char} {g : List Char} (blank : c ∈ blanks) (rest : Spacing g) : Spacing (c :: g)
  | comment {text g : List Char} (line : '\n' ∉ text) (rest : Spacing g) :
    Spacing ('/' :: '/' :: (text ++ '\n' :: g))

/-- The characters go on with a blank or a comment. -/
def StartsSpacing (s : List Char) : Prop := (∃ c ∈ s.head?, c ∈ blanks) ∨ ['/', '/'] <+: s

/-- What is skipped in front of `s`: all spacing, and a comment that ends with the text. -/
def Skipped (skipped s : List Char) : Prop :=
  (Spacing skipped ∧ ¬StartsSpacing s) ∨
    ∃ g text, skipped = g ++ '/' :: '/' :: text ∧ Spacing g ∧ '\n' ∉ text ∧ s = []

theorem skipped_nil {s : List Char} (h : ¬StartsSpacing s) : Skipped [] s := .inl ⟨.nil, h⟩

theorem Spacing.startsSpacing {g : List Char} (h : Spacing g) (hne : g ≠ []) (s : List Char) :
    StartsSpacing (g ++ s) := by
  cases h with
  | nil => exact absurd rfl hne
  | blank blank => exact .inl ⟨_, rfl, blank⟩
  | comment => exact .inr (List.prefix_append ['/', '/'] _)

theorem Skipped.ne_startsSpacing {g s : List Char} (h : Skipped g s) : ¬StartsSpacing s := by
  rcases h with ⟨-, h⟩ | ⟨_, _, -, -, -, rfl⟩
  · exact h
  · rintro (⟨c, hc, -⟩ | h)
    · cases hc
    · exact List.cons_ne_nil _ _ (List.prefix_nil.mp h)

/-! ### Skipping -/

theorem skipGap_comment {text : List Char} (h : '\n' ∉ text) (line : UInt32) (firstBreak : Option UInt32)
    (s : List Char) : skipGap true line firstBreak (text ++ '\n' :: s) =
      skipGap false (line + 1) (firstBreak <|> some line) s := by
  induction text with
  | nil => rw [List.nil_append, skipGap]
  | cons c text ih =>
    obtain ⟨hc, htext⟩ := not_or.mp (mt List.mem_cons.mpr h)
    rw [List.cons_append, skipGap, if_pos rfl, ih htext]
    exact fun he => hc he.symm

theorem skipGap_lastComment {text : List Char} (h : '\n' ∉ text) (line : UInt32) (firstBreak : Option UInt32) :
    skipGap true line firstBreak text = ⟨[], line, firstBreak⟩ := by
  induction text with
  | nil => rfl
  | cons c text ih =>
    obtain ⟨hc, htext⟩ := not_or.mp (mt List.mem_cons.mpr h)
    rw [skipGap, if_pos rfl, ih htext]
    exact fun he => hc he.symm

theorem skipGap_slashes (line : UInt32) (firstBreak : Option UInt32) (text : List Char) :
    skipGap false line firstBreak ('/' :: '/' :: text) = skipGap true line firstBreak text := by
  rw [skipGap, if_neg (by decide), if_neg (by decide), if_pos ⟨rfl, rfl⟩, skipGap, if_pos rfl]
  · decide
  · decide

theorem skipGap_blank {c : Char} (h : c ∈ blanks) (line : UInt32) (firstBreak : Option UInt32) (s : List Char) :
    skipGap false line firstBreak (c :: s) =
      if c = '\n' then skipGap false (line + 1) (firstBreak <|> some line) s
      else skipGap false line firstBreak s := by
  simp only [blanks, List.mem_cons, List.not_mem_nil, or_false] at h
  rcases h with rfl | rfl | rfl | rfl <;> rfl

theorem skipGap_of_not_startsSpacing {s : List Char} (h : ¬StartsSpacing s) (line : UInt32)
    (firstBreak : Option UInt32) : skipGap false line firstBreak s = ⟨s, line, firstBreak⟩ := by
  cases s with
  | nil => rfl
  | cons c s =>
    have hc : c ∉ blanks := fun hc => h (.inl ⟨c, rfl, hc⟩)
    have hslash : ¬(c = '/' ∧ s.head? = some '/') := by
      rintro ⟨rfl, hs⟩
      obtain ⟨s, rfl⟩ := List.head?_eq_some_iff.mp hs
      exact h (.inr (List.prefix_append ['/', '/'] s))
    simp only [blanks, List.mem_cons, List.not_mem_nil, or_false, not_or] at hc
    obtain ⟨hspace, htab, hreturn, hbreak⟩ := hc
    rw [skipGap, if_neg (by decide), if_neg (by simp [hspace, htab, hreturn]), if_neg hslash]
    exact hbreak

theorem add_ofNat_zero (line : UInt32) : line + .ofNat 0 = line := UInt32.add_zero line

theorem add_ofNat_add (line : UInt32) (m n : Nat) :
    line + .ofNat (m + n) = line + .ofNat m + .ofNat n := by
  rw [UInt32.ofNat_add, UInt32.add_assoc]

theorem add_ofNat_one_add (line : UInt32) (n : Nat) : line + .ofNat (1 + n) = line + 1 + .ofNat n :=
  add_ofNat_add line 1 n

theorem orElse_some_orElse (first later : Option UInt32) (line : UInt32) :
    ((first <|> some line) <|> later) = (first <|> some line) := by
  cases first <;> rfl

/-- Skipping spacing counts its line feeds; the first one stands on the line where the spacing starts. -/
theorem skipGap_spacing {g : List Char} (h : Spacing g) (line : UInt32) (firstBreak : Option UInt32)
    (s : List Char) : skipGap false line firstBreak (g ++ s) =
      skipGap false (line + .ofNat (g.count '\n'))
        (firstBreak <|> if '\n' ∈ g then some line else none) s := by
  induction h generalizing line firstBreak with
  | nil => simp
  | @blank c g hc rest ih =>
    rw [List.cons_append, skipGap_blank hc]
    split_ifs with hbreak hmem hmem
    · subst hbreak
      have hcount : line + .ofNat (('\n' :: g).count '\n') = line + 1 + .ofNat (g.count '\n') := by
        rw [List.count_cons_self, Nat.add_comm, add_ofNat_one_add]
      rw [ih, hcount, orElse_some_orElse]
    · exact absurd (hbreak ▸ List.mem_cons_self) hmem
    · have hmem' : '\n' ∈ g := (List.mem_cons.mp hmem).resolve_left (Ne.symm hbreak)
      rw [ih, List.count_cons_of_ne hbreak, if_pos hmem']
    · have hmem' : '\n' ∉ g := fun h => hmem (List.mem_cons_of_mem c h)
      rw [ih, List.count_cons_of_ne hbreak, if_neg hmem']
  | @comment text g hline rest ih =>
    have hmem : '\n' ∈ '/' :: '/' :: (text ++ '\n' :: g) := by simp
    have hcount : ('/' :: '/' :: (text ++ '\n' :: g)).count '\n' = 1 + g.count '\n' := by
      simp [List.count_eq_zero_of_not_mem hline, Nat.add_comm]
    have happend : '/' :: '/' :: (text ++ '\n' :: g) ++ s = '/' :: '/' :: (text ++ '\n' :: (g ++ s)) := by
      simp
    rw [happend, skipGap_slashes, skipGap_comment hline, ih, hcount, if_pos hmem,
      orElse_some_orElse, add_ofNat_one_add]

/-- **What is skipped** in front of a token leaves the token and what follows it. -/
theorem skipGap_skipped {g s : List Char} (h : Skipped g s) (line : UInt32) :
    skipGap false line none (g ++ s) =
      ⟨s, line + .ofNat (g.count '\n'), if '\n' ∈ g then some line else none⟩ := by
  rcases h with ⟨hg, hs⟩ | ⟨g, text, rfl, hg, htext, rfl⟩
  · rw [skipGap_spacing hg, skipGap_of_not_startsSpacing hs]
    rfl
  · have hmem : '\n' ∈ g ++ '/' :: '/' :: text ↔ '\n' ∈ g := by simp [htext]
    have hcount : (g ++ '/' :: '/' :: text).count '\n' = g.count '\n' := by
      simp [List.count_eq_zero_of_not_mem htext]
    rw [List.append_nil, skipGap_spacing hg, skipGap_slashes, skipGap_lastComment htext, hcount]
    simp only [hmem]
    rfl

theorem Skipped.unique {g s g' s' : List Char} (h : Skipped g s) (h' : Skipped g' s')
    (heq : g ++ s = g' ++ s') : g = g' ∧ s = s' := by
  have hskip := skipGap_skipped h 0
  rw [heq, skipGap_skipped h' 0, Gap.mk.injEq] at hskip
  obtain rfl := hskip.1
  exact ⟨List.append_cancel_right heq, rfl⟩

/-- **Every text** goes on with something to skip, perhaps nothing, and a token behind it. -/
theorem exists_skipped (cs : List Char) : ∃ g s, cs = g ++ s ∧ Skipped g s := by
  induction hn : cs.length using Nat.strong_induction_on generalizing cs with
  | h n ih =>
    by_cases hstarts : StartsSpacing cs
    swap
    · exact ⟨[], cs, rfl, skipped_nil hstarts⟩
    have hfront : ∀ {g s : List Char} (front : List Char), (∀ {g}, Spacing g → Spacing (front ++ g)) →
        Skipped g s → Skipped (front ++ g) s := by
      rintro g s front hfront (⟨hg, hs⟩ | ⟨g, text, rfl, hg, htext, rfl⟩)
      · exact .inl ⟨hfront hg, hs⟩
      · exact .inr ⟨front ++ g, text, (List.append_assoc _ _ _).symm, hfront hg, htext, rfl⟩
    rcases hstarts with ⟨c, hc, hblank⟩ | ⟨rest, rfl⟩
    · obtain ⟨rest, rfl⟩ := List.head?_eq_some_iff.mp hc
      obtain ⟨g, s, rfl, hskipped⟩ := ih rest.length (by simp [← hn]) rest rfl
      exact ⟨c :: g, s, rfl, hfront [c] (.blank hblank) hskipped⟩
    · by_cases hbreak : '\n' ∈ rest
      · obtain ⟨text, rest, rfl, htext⟩ := List.eq_append_cons_of_mem hbreak
        have hlength : rest.length < n := by simp [← hn]; omega
        obtain ⟨g, s, rfl, hskipped⟩ := ih rest.length hlength rest rfl
        refine ⟨['/', '/'] ++ text ++ ['\n'] ++ g, s, by simp, hfront _ (fun hg => ?_) hskipped⟩
        simpa using Spacing.comment htext hg
      · exact ⟨'/' :: '/' :: rest, [], by simp, .inr ⟨[], rest, rfl, .nil, hbreak, rfl⟩⟩

theorem Scan.token_blank {c : Char} (hc : c ∈ '/' :: blanks) (cs : List Char) :
    Scan.token (c :: cs) = (.error (.illegalCharacter c), cs) := by
  simp only [blanks, List.mem_cons, List.not_mem_nil, or_false] at hc
  rcases hc with rfl | rfl | rfl | rfl | rfl <;> rfl

theorem not_startsSpacing {s : List Char} (h : ∀ c, (Scan.token s).1 ≠ .error (.illegalCharacter c)) :
    ¬StartsSpacing s := by
  rintro (⟨c, hc, hmem⟩ | ⟨rest, rfl⟩)
  · obtain ⟨rest, rfl⟩ := List.head?_eq_some_iff.mp hc
    exact h c (by rw [Scan.token_blank (List.mem_cons_of_mem _ hmem)])
  · exact h '/' (congrArg Prod.fst (Scan.token_blank List.mem_cons_self ('/' :: rest)))

theorem not_startsSpacing_of_token {s r : List Char} {t : Token} (h : Scan.token s = (.ok t, r)) :
    ¬StartsSpacing s := not_startsSpacing (by simp [h])

theorem Spacing.skipped {g s r : List Char} {t : Token} (h : Spacing g)
    (ht : Scan.token s = (.ok t, r)) : Skipped g s := .inl ⟨h, not_startsSpacing_of_token ht⟩

/-! ### Single calls -/

namespace Lexer

instance (last : Option Token) : Decidable (Breaks last) := inferInstanceAs (Decidable (_ = true))

variable {g s rest : List Char} {line : UInt32} {last : Option Token}

theorem no_break (h : ¬('\n' ∈ g ∧ Breaks last)) :
    (if last.any (!·.continuesLine) then (if '\n' ∈ g then some line else none) else none) = none := by
  split_ifs with hlast hmem
  · exact absurd ⟨hmem, hlast⟩ h
  · rfl
  · rfl

/-- A line feed behind a token at which an element can end is read as a token. -/
theorem next_break (h : Skipped g s) (hbreak : '\n' ∈ g) (hlast : Breaks last) :
    next ⟨g ++ s, line, last⟩ =
      (.ok ⟨.linefeed, line⟩, ⟨s, line + .ofNat (g.count '\n'), some .linefeed⟩) := by
  have hany : last.any (!·.continuesLine) = true := hlast
  unfold next
  simp only [skipGap_skipped h, if_pos hbreak, if_pos hany]

/-- Otherwise a token is read behind the spacing. -/
theorem next_read (h : Skipped g s) (hbreak : ¬('\n' ∈ g ∧ Breaks last)) {t : Token}
    (ht : Scan.token s = (.ok t, rest)) : next ⟨g ++ s, line, last⟩ =
      (.ok ⟨t, line + .ofNat (g.count '\n')⟩, ⟨rest, line + .ofNat (g.count '\n'), some t⟩) := by
  unfold next
  simp only [skipGap_skipped h, no_break hbreak, ht]

/-- A fault has the line where its token starts. -/
theorem next_fault (h : Skipped g s) (hbreak : ¬('\n' ∈ g ∧ Breaks last)) {fault : LexFault}
    (ht : Scan.token s = (.error fault, rest)) : next ⟨g ++ s, line, last⟩ =
      (.error (.syntaxError (line + .ofNat (g.count '\n')) (.lexical fault)),
        ⟨rest, line + .ofNat (g.count '\n'), last⟩) := by
  unfold next
  simp only [skipGap_skipped h, no_break hbreak, ht]

theorem next_of_token {t : Token} (h : Scan.token s = (.ok t, rest)) :
    next ⟨s, line, last⟩ = (.ok ⟨t, line⟩, ⟨rest, line, some t⟩) := by
  have hnext : next ⟨[] ++ s, line, last⟩ = _ :=
    next_read (skipped_nil (not_startsSpacing_of_token h)) (fun h => List.not_mem_nil h.1) h
  rwa [List.count_nil, add_ofNat_zero] at hnext

theorem next_of_fault {fault : LexFault} (h : Scan.token s = (.error fault, rest))
    (hfault : ∀ c, fault ≠ .illegalCharacter c) :
    next ⟨s, line, last⟩ = (.error (.syntaxError line (.lexical fault)), ⟨rest, line, last⟩) := by
  have hnext : next ⟨[] ++ s, line, last⟩ = _ :=
    next_fault (skipped_nil (not_startsSpacing (by simpa [h] using hfault))) (fun h => List.not_mem_nil h.1) h
  rwa [List.count_nil, add_ofNat_zero] at hnext

/-- **What a call reads** is a line feed of the spacing or the token behind it. -/
theorem next_eq_ok (h : Skipped g s) {t : Token} {l : UInt32} {lexer : Lexer}
    (hnext : next ⟨g ++ s, line, last⟩ = (.ok ⟨t, l⟩, lexer)) :
    (('\n' ∈ g ∧ Breaks last) ∧ t = .linefeed ∧ lexer = ⟨s, line + .ofNat (g.count '\n'), some .linefeed⟩) ∨
    (¬('\n' ∈ g ∧ Breaks last) ∧ ∃ rest, Scan.token s = (.ok t, rest) ∧
      lexer = ⟨rest, line + .ofNat (g.count '\n'), some t⟩) := by
  by_cases hbreak : '\n' ∈ g ∧ Breaks last
  · rw [next_break h hbreak.1 hbreak.2] at hnext
    cases hnext
    exact .inl ⟨hbreak, rfl, rfl⟩
  · refine .inr ⟨hbreak, ?_⟩
    rcases hscan : Scan.token s with ⟨fault | token, rest⟩
    · rw [next_fault h hbreak hscan] at hnext
      cases hnext
    · rw [next_read h hbreak hscan] at hnext
      cases hnext
      exact ⟨rest, rfl, rfl⟩

end Lexer

end Wordcode.Literal
