import Wordcode.Proofs.Literal.Lines
import Wordcode.Proofs.Literal.Lookahead

/-! # Gaps between tokens

Up to a token, a text is laid out as spacing and tokens by turns (`Lexer.Laid`). A layout does not depend on the
spacing that comes next (`Lexer.Laid.replace`), and what is read behind some spacing depends only on whether it
has a line feed (`Lexer.Yields.replace`). So one gap can stand for another in the middle of a text. How many
line feeds are read between two tokens is seen from the gap and from the left one (`Lexer.linefeeds_between`). -/

namespace Wordcode.Literal

/-- A gap: some spacing, and not nothing. -/
def IsGap (gap : String) : Prop := Spacing gap.toList ∧ gap ≠ ""

theorem Scan.token_ne_linefeed {cs rest : List Char} {t : Token} (h : token cs = (.ok t, rest)) :
    t ≠ .linefeed := by
  rintro rfl
  cases cs with
  | nil => cases h
  | cons c cs => exact readable_token h

/-- In front of a token all of the spacing is ended by a blank or a line feed. -/
theorem Skipped.spacing {g s rest : List Char} {t : Token} (h : Skipped g s)
    (hread : Scan.token s = (.ok t, rest)) (hlive : t ≠ .endOfFile) : Spacing g := by
  rcases h with ⟨hg, -⟩ | ⟨_, _, -, -, -, rfl⟩
  · exact hg
  · cases hread
    exact absurd rfl hlive

namespace Lexer

variable {lexer place stop : Lexer} {W : List Token}

/-! ### Runs -/

theorem Reads.last_eq (h : lexer.Reads W stop) : stop.last = W.getLast?.or lexer.last := by
  induction h with
  | done => rfl
  | @token lexer lexer' stop token line W read live _ ih =>
    rw [ih, (next_ok read live).1, List.getLast?_cons]
    cases W.getLast? <;> rfl

theorem Reads.split (h : lexer.Reads W place) {V : List Token} (hV : lexer.Yields V) :
    ∃ V', V = W ++ V' ∧ place.Yields V' := by
  induction h generalizing V with
  | done => exact ⟨V, rfl, hV⟩
  | token read live _ ih =>
    obtain ⟨stop, line, after, hreads, hend⟩ := hV
    cases hreads with
    | done =>
      rw [read] at hend
      cases hend
      exact absurd rfl live
    | token read' live' rest' =>
      rw [read] at read'
      cases read'
      obtain ⟨V', rfl, hV'⟩ := ih ⟨stop, line, after, rest', hend⟩
      exact ⟨V', rfl, hV'⟩

/-! ### Other spacing in front -/

/-- One call: behind other spacing, with a line feed exactly if the first one has one, the same token is read, and
the lexer stands at the same place. -/
theorem next_replace {g g' s : List Char} (h : Skipped g s) (h' : Skipped g' s)
    (hbreak : '\n' ∈ g' ↔ '\n' ∈ g) {last : Option Token} {line l : UInt32} {t : Token}
    (hnext : next ⟨g ++ s, line, last⟩ = (.ok ⟨t, l⟩, stop)) (line' : UInt32) : ∃ l' stopLine,
    next ⟨g' ++ s, line', last⟩ = (.ok ⟨t, l'⟩, ⟨stop.rest, stopLine, stop.last⟩) := by
  rcases next_eq_ok h hnext with ⟨⟨hmem, hlast⟩, rfl, rfl⟩ | ⟨hquiet, rest, hread, rfl⟩
  · exact ⟨_, _, next_break h' (hbreak.mpr hmem) hlast⟩
  · have hquiet' : ¬('\n' ∈ g' ∧ Breaks last) := by rwa [hbreak]
    exact ⟨_, _, next_read h' hquiet' hread⟩

theorem next_line {line : UInt32} {t : Token} (h : lexer.next = (.ok ⟨t, line⟩, stop)) (line' : UInt32) :
    ∃ l stopLine, next ⟨lexer.rest, line', lexer.last⟩ =
      (.ok ⟨t, l⟩, ⟨stop.rest, stopLine, stop.last⟩) := by
  obtain ⟨cs, _, last⟩ := lexer
  obtain ⟨g, s, rfl, hskipped⟩ := exists_skipped cs
  exact next_replace hskipped hskipped Iff.rfl h line'

theorem Reads.line (h : lexer.Reads W stop) (line : UInt32) :
    ∃ stopLine, Reads ⟨lexer.rest, line, lexer.last⟩ W ⟨stop.rest, stopLine, stop.last⟩ := by
  induction h generalizing line with
  | done => exact ⟨line, .done _⟩
  | token read live _ ih =>
    obtain ⟨_, nextLine, hnext⟩ := next_line read line
    obtain ⟨stopLine, hrest⟩ := ih nextLine
    exact ⟨stopLine, .token hnext live hrest⟩

/-- **Other spacing in front** of the text that is left, with a line feed exactly if the first one has one, gives
the same tokens. -/
theorem Yields.replace {g g' s : List Char} (h : Skipped g s) (h' : Skipped g' s)
    (hbreak : '\n' ∈ g' ↔ '\n' ∈ g) {line line' : UInt32} {last : Option Token}
    (hyields : Yields ⟨g ++ s, line, last⟩ W) : Yields ⟨g' ++ s, line', last⟩ W := by
  obtain ⟨stop, _, _, hreads, hend⟩ := hyields
  cases hreads with
  | done =>
    obtain ⟨_, _, hend'⟩ := next_replace h h' hbreak hend line'
    exact ⟨_, _, _, .done _, hend'⟩
  | token read live rest =>
    obtain ⟨_, nextLine, hnext⟩ := next_replace h h' hbreak read line'
    obtain ⟨stopLine, hrest⟩ := rest.line nextLine
    obtain ⟨_, _, hend'⟩ := next_line hend stopLine
    exact ⟨_, _, _, .token hnext live hrest, hend'⟩

/-! ### Layouts -/

/-- The line feeds that are read of some spacing behind the token `last`. -/
def lineBreak (last : Option Token) (g : List Char) : List Token :=
  if '\n' ∈ g ∧ Breaks last then [.linefeed] else []

/-- From behind the token `last` on, the characters are spacing and tokens by turns, up to behind the token
`final`, where `rest` is left. -/
inductive Laid : (last : Option Token) → (cs : List Char) → (W : List Token) → (final : Option Token) →
    (rest : List Char) → Prop
  | nil {last : Option Token} {cs : List Char} : Laid last cs [] last cs
  | cons {last final : Option Token} {g s rest stop : List Char} {t : Token} {W : List Token}
    (spacing : Spacing g) (read : Scan.token s = (.ok t, rest)) (live : t ≠ .endOfFile)
    (laid : Laid (some t) rest W final stop) :
    Laid last (g ++ s) (lineBreak last g ++ t :: W) final stop

theorem Reads.laid (h : lexer.Reads W stop) (hstop : stop.last ≠ some .linefeed) :
    Laid lexer.last lexer.rest W stop.last stop.rest := by
  induction h with
  | done => exact .nil
  | @token lexer lexer' stop t line W read live _ ih =>
    obtain ⟨cs, line₀, last⟩ := lexer
    obtain ⟨g, s, rfl, hskipped⟩ := exists_skipped cs
    obtain ⟨stopRest, stopLine, final⟩ := stop
    rcases next_eq_ok hskipped read with ⟨hbreak, rfl, rfl⟩ | ⟨hquiet, rest, hread, rfl⟩
    · -- the token behind the line feed belongs to the same step of the layout
      have hlaid : Laid (some .linefeed) s W final stopRest := ih hstop
      cases hlaid with
      | nil => exact absurd rfl hstop
      | @cons _ _ g' s rest _ t W spacing read' live' laid =>
        obtain ⟨rfl, -⟩ := (skipped_nil hskipped.ne_startsSpacing).unique (spacing.skipped read') rfl
        have hlinefeed : lineBreak last g = [.linefeed] := if_pos hbreak
        have hcons : Laid last (g ++ s) (lineBreak last g ++ t :: W) final stopRest :=
          .cons (hskipped.spacing read' live') read' live' laid
        rwa [hlinefeed] at hcons
    · have hnone : lineBreak last g = [] := if_neg hquiet
      have hcons : Laid last (g ++ s) (lineBreak last g ++ t :: W) final stopRest :=
        .cons (hskipped.spacing hread live) hread live (ih hstop)
      rwa [hnone] at hcons

section Laid

variable {last final : Option Token} {cs rest : List Char}

theorem Laid.reads (h : Laid last cs W final rest) (line : UInt32) :
    ∃ stopLine, Reads ⟨cs, line, last⟩ W ⟨rest, stopLine, final⟩ := by
  induction h generalizing line with
  | nil => exact ⟨line, .done _⟩
  | @cons last final g s rest stop t W spacing read live _ ih =>
    have hskipped := spacing.skipped read
    by_cases hbreak : '\n' ∈ g ∧ Breaks last
    · have hfirst : next ⟨g ++ s, line, last⟩ =
        (.ok ⟨.linefeed, line⟩, ⟨s, line + .ofNat (g.count '\n'), some .linefeed⟩) :=
        next_break hskipped hbreak.1 hbreak.2
      have hsecond : next ⟨s, line + .ofNat (g.count '\n'), some .linefeed⟩ =
        (.ok ⟨t, line + .ofNat (g.count '\n')⟩, ⟨rest, line + .ofNat (g.count '\n'), some t⟩) := next_of_token read
      obtain ⟨stopLine, hrest⟩ := ih _
      rw [lineBreak, if_pos hbreak]
      exact ⟨stopLine, .token hfirst (by simp) (.token hsecond live hrest)⟩
    · obtain ⟨stopLine, hrest⟩ := ih _
      rw [lineBreak, if_neg hbreak]
      exact ⟨stopLine, .token (next_read hskipped hbreak read) live hrest⟩

theorem Laid.suffix (h : Laid last cs W final rest) : ∃ u, cs = u ++ rest := by
  induction h with
  | nil => exact ⟨[], rfl⟩
  | @cons _ _ g s rest _ _ _ spacing read _ _ ih =>
    obtain ⟨u, rfl⟩ := ih
    obtain ⟨chars, hs, -⟩ := Scan.token_crosses (not_startsSpacing_of_token read)
    rw [read] at hs
    exact ⟨g ++ (chars ++ u), by simp [hs]⟩

/-- **A layout does not depend on the spacing behind it.** -/
theorem Laid.replace {u x x' : List Char} (hx : StartsSpacing x) (hx' : StartsSpacing x')
    (h : Laid last (u ++ x) W final x) : Laid last (u ++ x') W final x' := by
  generalize hcs : u ++ x = cs at h
  induction h generalizing u with
  | nil =>
    obtain rfl := List.append_left_eq_self.mp hcs
    exact .nil
  | @cons _ _ g s rest x t _ spacing read live laid ih =>
    obtain ⟨v, rfl⟩ := laid.suffix
    obtain ⟨chars, hs, -⟩ := Scan.token_crosses (not_startsSpacing_of_token read)
    rw [read] at hs
    have hw : s = (chars ++ v) ++ x := by rw [hs, List.append_assoc]
    have hu : u = g ++ (chars ++ v) := by
      rw [hw, ← List.append_assoc] at hcs
      exact List.append_cancel_right hcs
    rw [hw] at read
    rw [hu, List.append_assoc]
    exact .cons spacing (Scan.token_replace hx hx' read) live (ih hx rfl)

end Laid

/-! ### Between two tokens -/

/-- The tokens behind which a line break means nothing. -/
def openTokens : List Token := [.comma, .leftBracket, .leftCurly, .minus]

theorem breaks_iff {last : Option Token} (h : last ≠ some .linefeed) :
    Breaks last ↔ last.any (· ∉ openTokens) := by
  rcases last with _ | token
  · rfl
  · cases token <;> simp_all [Breaks, openTokens, Token.continuesLine]

/-- **Between two tokens** at most one line feed is read, and whether it is one is seen from the spacing between
them and from the left token. -/
theorem linefeeds_between {right after : Lexer} {L : List Token} {b : Token} {line : UInt32}
    (hL : place.Reads L right) (hlinefeeds : ∀ t ∈ L, t = .linefeed)
    (hb : right.next = (.ok ⟨b, line⟩, after)) (hne : b ≠ .linefeed) :
    ∃ g s, place.rest = g ++ s ∧ Skipped g s ∧ Scan.token s = (.ok b, after.rest) ∧
      L = lineBreak place.last g := by
  obtain ⟨cs, _, last⟩ := place
  obtain ⟨g, s, rfl, hskipped⟩ := exists_skipped cs
  have hnil : Skipped [] s := skipped_nil hskipped.ne_startsSpacing
  cases hL with
  | done =>
    rcases next_eq_ok hskipped hb with ⟨-, rfl, -⟩ | ⟨hquiet, rest, hread, rfl⟩
    · exact absurd rfl hne
    · exact ⟨g, s, rfl, hskipped, hread, (if_neg hquiet).symm⟩
  | token read live rest =>
    rcases next_eq_ok hskipped read with ⟨hbreak, rfl, rfl⟩ | ⟨-, _, hread, -⟩
    · have hone : lineBreak last g = [.linefeed] := if_pos hbreak
      cases rest with
      | done =>
        rcases next_eq_ok hnil hb with ⟨⟨hmem, -⟩, -⟩ | ⟨-, rest, hread, rfl⟩
        · exact absurd hmem List.not_mem_nil
        · exact ⟨g, s, rfl, hskipped, hread, hone.symm⟩
      | token read' =>
        -- a second line feed would stand behind nothing that was skipped
        rcases next_eq_ok hnil read' with ⟨⟨hmem, -⟩, -⟩ | ⟨-, _, hread, -⟩
        · exact absurd hmem List.not_mem_nil
        · exact absurd (hlinefeeds _ (by simp)) (Scan.token_ne_linefeed hread)
    · exact absurd (hlinefeeds _ List.mem_cons_self) (Scan.token_ne_linefeed hread)

theorem Reads.head_ne {text : String} (h : (ofText text).Reads W stop) : W.head? ≠ some .linefeed := by
  cases h with
  | done => simp
  | token read live _ =>
    rintro he
    obtain rfl := Option.some.inj he
    rcases (next_ok read live).2.2 with ⟨-, hbreak⟩ | hreadable
    · cases hbreak
    · exact hreadable

/-! ### One gap for another -/

/-- The gap stands between two tokens of the text, or in front of its first one: the tokens up to a place, the last
of which is no line feed, are read from what is in front of the gap, and behind the gap there is a token again. -/
structure SeparatedBy (before gap after : String) : Prop where
  isGap : IsGap gap
  place : ∃ W place, (ofText (before ++ gap ++ after)).Reads W place ∧ W.getLast? ≠ some .linefeed ∧
    place.rest = (gap ++ after).toList
  follows : ∃ t rest, Scan.token after.toList = (.ok t, rest)

/-- **Any gap can stand for any other** that has a line feed exactly if the other one has one. -/
theorem SeparatedBy.yields_replace {before gap gap' after : String} (h : SeparatedBy before gap after)
    (hgap' : IsGap gap') (hbreak : '\n' ∈ gap'.toList ↔ '\n' ∈ gap.toList)
    (hyields : (ofText (before ++ gap ++ after)).Yields W) :
    (ofText (before ++ gap' ++ after)).Yields W := by
  obtain ⟨hgap, ⟨V, ⟨x, line, last⟩, hreads, hlast, hx⟩, t, rest, hread⟩ := h
  have hstarts {g : String} (hg : IsGap g) : StartsSpacing (g.toList ++ after.toList) :=
    hg.1.startsSpacing (fun he => hg.2 (String.toList_eq_nil_iff.mp he)) _
  have hplace : last ≠ some .linefeed := by
    have hlast_eq : last = V.getLast?.or none := hreads.last_eq
    rwa [hlast_eq, Option.or_none]
  obtain rfl : x = gap.toList ++ after.toList := by rw [← String.toList_append]; exact hx
  -- in front of the gap
  have hlaid : Laid none (before.toList ++ (gap.toList ++ after.toList)) V last
      (gap.toList ++ after.toList) := by
    have hlaid := hreads.laid hplace
    rwa [ofText, String.toList_append, String.toList_append, List.append_assoc] at hlaid
  obtain ⟨line', hreads'⟩ := (hlaid.replace (hstarts hgap) (hstarts hgap')).reads 1
  have htext : ofText (before ++ gap' ++ after) =
      ⟨before.toList ++ (gap'.toList ++ after.toList), 1, none⟩ := by
    rw [ofText, String.toList_append, String.toList_append, List.append_assoc]
  -- behind it
  obtain ⟨V', rfl, hV'⟩ := hreads.split hyields
  obtain ⟨stop, l, end', hreads'', hend⟩ :=
    hV'.replace (hgap.1.skipped hread) (hgap'.1.skipped hread) hbreak
  rw [htext]
  exact ⟨stop, l, end', hreads'.append hreads'', hend⟩

/-- **Only the line breaks of gaps matter.** In a text that is read to its end, a gap between two tokens, or in
front of the first one, can be replaced by any other gap that has a line feed exactly if it has one. Between two
tokens one line feed is read if there is one between them and the left one is not open; otherwise none is.
What is read neither starts with a line feed nor has one behind an open token or behind another one. -/
theorem gaps_interchangeable :
    (∀ {before gap gap' after : String} {W : List Token}, SeparatedBy before gap after → IsGap gap' →
      ('\n' ∈ gap'.toList ↔ '\n' ∈ gap.toList) →
      (ofText (before ++ gap ++ after)).Yields W → (ofText (before ++ gap' ++ after)).Yields W) ∧
    (∀ {text : String} {W L : List Token} {place right after : Lexer} {b : Token} {line : UInt32},
      (ofText text).Reads W place → W.getLast? ≠ some .linefeed →
      place.Reads L right → (∀ t ∈ L, t = .linefeed) →
      right.next = (.ok ⟨b, line⟩, after) → b ≠ .linefeed →
      ∃ g s, place.rest = g ++ s ∧ Skipped g s ∧ Scan.token s = (.ok b, after.rest) ∧
        L = if '\n' ∈ g ∧ W.getLast?.any (· ∉ openTokens) then [.linefeed] else []) ∧
    (∀ {text : String} {W : List Token} {stop : Lexer}, (ofText text).Reads W stop →
      W.head? ≠ some .linefeed ∧ W.IsChain fun a b => a ∈ .linefeed :: openTokens → b ≠ .linefeed) := by
  refine ⟨SeparatedBy.yields_replace, ?_, ?_⟩
  · intro text W L place right after b line hreads hlast hL hlinefeeds hb hne
    obtain ⟨g, s, hrest, hskipped, hread, rfl⟩ := linefeeds_between hL hlinefeeds hb hne
    have hplace : place.last = W.getLast? := by rw [hreads.last_eq]; exact Option.or_none
    refine ⟨g, s, hrest, hskipped, hread, ?_⟩
    simp only [lineBreak, hplace, breaks_iff hlast]
  · intro text W stop hreads
    have hopen : ∀ a ∈ Token.linefeed :: openTokens, a.continuesLine = true := by decide
    exact ⟨hreads.head_ne, hreads.isChain.right_of_append.imp fun a b hchain ha => hchain (hopen a ha)⟩

/-- The number `1` ends in front of a letter that starts no exponent, and the name `e` in front of the gap. -/
theorem gaps_interchangeable_exponent :
    SeparatedBy "[1e" " // c\n\n\t" "-2 ]" ∧
    (ofText ("[1e" ++ "\n" ++ "-2 ]")).Yields
      [.leftBracket, .int 1, .name "e", .linefeed, .minus, .int 2, .rightBracket] ∧
    ∃ g s, (" // c\n\n\t" ++ "-2 ]").toList = g ++ s ∧ Skipped g s ∧
      Scan.token s = (.ok .minus, ['2', ' ', ']']) ∧
      [Token.linefeed] =
        if '\n' ∈ g ∧ (some (Token.name "e")).any (· ∉ openTokens) then [.linefeed] else [] := by
  have hgap : IsGap " // c\n\n\t" := by
    have hblanks : Spacing ['\n', '\t'] := .blank (by decide) (.blank (by decide) .nil)
    have hcomment : Spacing ('/' :: '/' :: ([' ', 'c'] ++ '\n' :: ['\n', '\t'])) :=
      .comment (by decide) hblanks
    exact ⟨.blank (by decide) hcomment, by decide⟩
  have hfront : Reads (ofText ("[1e" ++ " // c\n\n\t" ++ "-2 ]")) [.leftBracket, .int 1, .name "e"]
      ⟨(" // c\n\n\t" ++ "-2 ]").toList, 1, some (.name "e")⟩ :=
    .token rfl (by decide) (.token rfl (by decide) (.token rfl (by decide) (.done _)))
  have hbreak : Reads ⟨(" // c\n\n\t" ++ "-2 ]").toList, 1, some (.name "e")⟩ [.linefeed]
      ⟨['-', '2', ' ', ']'], 3, some .linefeed⟩ := .token rfl (by decide) (.done _)
  have hback : Reads ⟨['-', '2', ' ', ']'], 3, some .linefeed⟩ [.minus, .int 2, .rightBracket]
      ⟨[], 3, some .rightBracket⟩ :=
    .token rfl (by decide) (.token rfl (by decide) (.token rfl (by decide) (.done _)))
  have hseparated : SeparatedBy "[1e" " // c\n\n\t" "-2 ]" :=
    ⟨hgap, ⟨_, _, hfront, by decide, rfl⟩, .minus, ['2', ' ', ']'], by decide⟩
  refine ⟨hseparated, ?_, ?_⟩
  · exact gaps_interchangeable.1 hseparated ⟨.blank (by decide) .nil, by decide⟩ (by decide)
      ⟨_, 3, _, hfront.append (hbreak.append hback), rfl⟩
  · exact gaps_interchangeable.2.1 hfront (by decide) hbreak (by simp) rfl (by decide)

end Lexer

end Wordcode.Literal
