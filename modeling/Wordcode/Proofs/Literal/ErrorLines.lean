import Wordcode.Proofs.Literal.Lines
import Wordcode.Proofs.Literal.Refusals
import Wordcode.Proofs.Literal.RoundTrip
import Wordcode.Proofs.Literal.Typing

/-! # Lines of errors

An error about a struct literal has the line of the token behind the brace up to which the parser has read. Behind
a closing brace a line break is a token of its own, on the line of the brace, so the error about a field without a
default is on the line of the closing brace, whatever follows (`noDefault_on_line_of_brace`). Behind an opening
brace line breaks mean nothing. So the error about a name is on the line of the name only if the next token is,
and otherwise further down by the line breaks behind the brace (`misnamed_behind_brace`). The count of lines
wraps around at 32 bits. -/

namespace Wordcode.Literal

/-! ### Characters of tokens -/

namespace Scan

variable {s rest : List Char}

theorem token_name_eq {name : String} (h : token s = (.ok (.name name), rest)) : s = name.toList ++ rest := by
  cases s with
  | nil => cases h
  | cons c cs =>
    cases startsWith_of_token h with
    | name starts read =>
      unfold Scan.name at read
      dsimp only at read
      split_ifs at read
      · cases read
      · rw [Prod.mk.injEq, Except.ok.injEq, Token.name.injEq] at read
        obtain ⟨rfl, rfl⟩ := read
        rw [String.toList_ofList]
        exact List.prefix_append_drop (List.takeWhile_prefix _)
    | sign read =>
      unfold sign? at read
      split at read <;> cases read

theorem sign?_injective {c d : Char} {t : Token} (hc : sign? c = some t) (hd : sign? d = some t) : c = d := by
  unfold sign? at hc hd
  split at hc <;> cases hc <;> split at hd <;> cases hd <;> rfl

theorem token_sign_eq {c : Char} {t : Token} (hc : sign? c = some t) (h : token s = (.ok t, rest)) :
    s = c :: rest := by
  have hsign : t.datum? = none ∧ (∀ name, t ≠ .name name) ∧ t ≠ .endOfFile := by
    unfold sign? at hc
    split at hc <;> cases hc <;> exact ⟨rfl, nofun, nofun⟩
  cases s with
  | nil =>
    cases h
    exact absurd rfl hsign.2.2
  | cons d cs =>
    cases startsWith_of_token h with
    | int | float | string => cases hsign.1
    | name starts read =>
      unfold Scan.name at read
      dsimp only at read
      split_ifs at read <;> cases read
      · cases hsign.1
      · exact absurd rfl (hsign.2.1 _)
    | sign read => rw [sign?_injective hc read]

end Scan

/-! ### Runs of a lexer -/

namespace Lexer

variable {lexer stop : Lexer} {W : List Token} {t token : Token} {line : UInt32}

theorem Reads.crosses (h : lexer.Reads W stop) :
    ∃ n, Crosses n lexer.rest stop.rest ∧ stop.line = lexer.line + .ofNat n := by
  induction h with
  | done lexer => exact ⟨0, .refl _, (add_ofNat_zero _).symm⟩
  | @token lexer lexer' stop token line W read live _ ih =>
    obtain ⟨n, hrest, hline⟩ := ih
    obtain ⟨-, m, -, -, hnext, hmoved⟩ := next_locates lexer
    rw [read] at hnext hmoved
    refine ⟨m + n, hnext.trans hrest, ?_⟩
    rw [hline, hmoved, ← add_ofNat_add]

theorem Reads.single (h : lexer.Reads [t] stop) (ht : t ≠ .linefeed) : ∃ g s, lexer.rest = g ++ s ∧
    Skipped g s ∧ ¬('\n' ∈ g ∧ Breaks lexer.last) ∧ Scan.token s = (.ok t, stop.rest) ∧
      stop.line = lexer.line + .ofNat (g.count '\n') ∧ stop.last = some t := by
  obtain ⟨cs, line, last⟩ := lexer
  obtain ⟨g, s, rfl, hskipped⟩ := exists_skipped cs
  cases h with
  | token read live rest =>
    cases rest
    rcases next_eq_ok hskipped read with ⟨-, rfl, -⟩ | ⟨hquiet, rest, hread, rfl⟩
    · exact absurd rfl ht
    · exact ⟨g, s, rfl, hskipped, hquiet, hread, rfl, rfl⟩

/-- Behind a token at which an element can end, what comes next has the line of that token. -/
theorem next_line_of_breaks (h : Breaks lexer.last) (hnext : lexer.next.1 = .ok ⟨token, line⟩) :
    line = lexer.line := by
  obtain ⟨front, n, hlocates, hline, -, -⟩ := next_locates lexer
  rw [hnext] at hlocates hline
  have hfront : '\n' ∉ front := by
    generalize lexer.rest = ahead, lexer.next.2.rest = rest at hlocates
    cases hlocates with
    | linefeed skipped first breaks => exact first
    | token skipped quiet read => exact fun hmem => quiet ⟨hmem, h⟩
  rw [List.count_eq_zero_of_not_mem hfront] at hline
  exact hline.trans (add_ofNat_zero _)

/-- Behind any other token, it is further down by the line feeds in front of it. -/
theorem next_line_of_not_breaks (h : ¬ Breaks lexer.last) (hnext : lexer.next.1 = .ok ⟨token, line⟩) :
    ∃ g s, lexer.rest = g ++ s ∧ Skipped g s ∧ line = lexer.line + .ofNat (g.count '\n') := by
  obtain ⟨front, n, hlocates, hline, -, -⟩ := next_locates lexer
  rw [hnext] at hlocates hline
  generalize lexer.rest = ahead, lexer.next.2.rest = rest at hlocates
  cases hlocates with
  | linefeed skipped first breaks => exact absurd breaks h
  | token skipped quiet read => exact ⟨front, _, rfl, skipped, hline⟩

end Lexer

/-! ### Errors about struct literals -/

section Errors
variable {ctx : TypeContext} {heap : HeapId} {depth : Nat} {type : TypeIndex} {text : String} {store : Store}

/-- **Where a struct literal is refused**: the text goes on with the tokens that lead to it and with those of the
literal up to one of its braces, and the error has the line of what comes next. -/
theorem exists_refused {fault : ParseError} (h : (parse ctx heap depth type text store).1 = .error fault)
    (hfault : fault.OfStruct) : ∃ U place token, Refused ctx depth type U fault ∧
      (Lexer.ofText text).Reads U place ∧ place.next.1 = .ok ⟨token, fault.line⟩ := by
  refine (parse_iff_ends ctx heap depth type text store (p := fun r => r.1 = .error fault → _)).mpr
    ((Parser.wholeText_ofText_blames ctx heap depth type text store).mono (fun _ _ _ h => by cases h) ?_) h
  rintro other s ⟨⟨front, hfront⟩, hblame⟩ hother
  obtain rfl : other = fault := Except.error.inj hother
  obtain ⟨U, token, hU, hrefused, hcurrent⟩ := hblame hfault
  obtain ⟨place, hreads, hnext⟩ := Lexer.reads_front (Lexer.length_ofText_lt text) hfront.symm
  obtain rfl : front.map (·.token) = U := by
    rw [← hfront, List.map_append] at hU
    exact List.append_cancel_right hU
  have hplace : place.next.1 = (Source.ofText ctx heap text).current s.tokens := by
    rw [hnext]
    cases s.tokens <;> rfl
  exact ⟨_, place, token, hrefused, hreads, hplace.trans hcurrent⟩

theorem Lacks.eq_append {V : List Token} (h : Lacks ctx depth type V) : ∃ V', V = V' ++ [.rightCurly] := by
  cases h with
  | intro => exact ⟨_, rfl⟩

/-- **An error about a missing default is on the line of the closing brace** of the struct literal that leaves the
field out, whatever stands behind the brace. -/
theorem noDefault_on_line_of_brace {line : UInt32}
    (h : (parse ctx heap depth type text store).1 = .error (.noDefault line)) :
    ∃ W V depth' type' place before, Leads ctx depth type W depth' type' ∧ Lacks ctx depth' type' V ∧
      (Lexer.ofText text).Reads (W ++ V) place ∧ text.toList = before ++ '}' :: place.rest ∧
      line.toNat = (1 + before.count '\n') % UInt32.size := by
  obtain ⟨_, place, token, ⟨W, V, depth', type', rfl, leads, refuses⟩, hreads, hnext⟩ :=
    exists_refused h trivial
  cases refuses with
  | lacking line lacks =>
    obtain ⟨V', rfl⟩ := lacks.eq_append
    have hsplit : (Lexer.ofText text).Reads ((W ++ V') ++ [.rightCurly]) place := by
      rwa [List.append_assoc]
    obtain ⟨middle, hfront, hbrace⟩ := hsplit.of_append
    obtain ⟨_, ⟨consumed, htext, rfl⟩, hmiddle⟩ := hfront.crosses
    obtain ⟨g, s, hrest, -, -, hread, hplace, hlast⟩ := hbrace.single (by simp)
    refine ⟨W, _, depth', type', place, consumed ++ g, leads, lacks, hreads, ?_, ?_⟩
    · have hsign : s = '}' :: place.rest := Scan.token_sign_eq rfl hread
      rw [show text.toList = _ from htext, hrest, hsign, List.append_assoc]
    · have hbreaks : Lexer.Breaks place.last := by rw [hlast]; rfl
      have hline : line = place.line := Lexer.next_line_of_breaks hbreaks hnext
      have hcount : line = 1 + .ofNat ((consumed ++ g).count '\n') := by
        rw [hline, hplace, hmiddle, List.count_append, add_ofNat_add]
        rfl
      rw [hcount, Lexer.toNat_one_add_ofNat]

/-- The weight of the tree has a default value, but its children have none, and the text goes on behind the brace
on line 3. -/
theorem noDefault_on_line_of_brace_tree :
    (parse treeContext ⟨0⟩ 9 ⟨8⟩ "Tree\x7b // one\n1\n\x7d // two\n\n2" .empty).1 = .error (.noDefault 3) ∧
      ∃ W V depth type place before, Leads treeContext 9 ⟨8⟩ W depth type ∧ Lacks treeContext depth type V ∧
        (Lexer.ofText "Tree\x7b // one\n1\n\x7d // two\n\n2").Reads (W ++ V) place ∧
        "Tree\x7b // one\n1\n\x7d // two\n\n2".toList = before ++ '}' :: place.rest ∧
        (3 : UInt32).toNat = (1 + before.count '\n') % UInt32.size := by
  have hlexed : Lexed.ofText "Tree\x7b // one\n1\n\x7d // two\n\n2" = ⟨[⟨.name "Tree", 1⟩, ⟨.leftCurly, 1⟩,
      ⟨.int 1, 2⟩, ⟨.linefeed, 2⟩, ⟨.rightCurly, 3⟩, ⟨.linefeed, 3⟩, ⟨.int 2, 5⟩], .ok 5⟩ := rfl
  have hrefused : (parse treeContext ⟨0⟩ 9 ⟨8⟩ "Tree\x7b // one\n1\n\x7d // two\n\n2" .empty).1 =
      .error (.noDefault 3) := by
    unfold parse
    rw [hlexed]
    rfl
  exact ⟨hrefused, noDefault_on_line_of_brace hrefused⟩

/-- **An error about a struct name is on the line of the token behind the opening brace.** From the name to the
brace no line breaks, and so the line is that of the name, plus the line breaks between the brace and whatever
comes next. -/
theorem misnamed_behind_brace {line : UInt32} {cause : SyntaxFault} (hcause : cause.OfName)
    (h : (parse ctx heap depth type text store).1 = .error (.syntaxError line cause)) :
    ∃ W depth' type' name place front gap back rest, Leads ctx depth type W depth' type' ∧
      Misnames ctx type' name cause ∧ (Lexer.ofText text).Reads (W ++ [.name name, .leftCurly]) place ∧
      text.toList = front ++ name.toList ++ gap ++ '{' :: place.rest ∧ Skipped gap ('{' :: place.rest) ∧
      '\n' ∉ gap ∧ place.rest = back ++ rest ∧ Skipped back rest ∧
      line.toNat = (1 + front.count '\n' + back.count '\n') % UInt32.size := by
  obtain ⟨_, place, token, ⟨W, V, depth', type', rfl, leads, refuses⟩, hreads, hnext⟩ :=
    exists_refused h hcause
  cases refuses with
  | @misnamed depth' _ name _ line misnames =>
    obtain ⟨before, hfront, hliteral⟩ := hreads.of_append
    obtain ⟨between, hname, hbrace⟩ := hliteral.of_append (W := [.name name])
    obtain ⟨_, ⟨consumed, htext, rfl⟩, hbefore⟩ := hfront.crosses
    obtain ⟨g, s, hrest, -, -, hread, hbetween, hlast⟩ := hname.single (by simp)
    obtain ⟨gap, s', hrest', hskipped', hquiet, hread', hplace, hlast'⟩ := hbrace.single (by simp)
    have hopen : ¬ Lexer.Breaks place.last := by rw [hlast']; simp [Lexer.Breaks, Token.continuesLine]
    obtain ⟨back, rest, hback, hskipped, hline⟩ := Lexer.next_line_of_not_breaks hopen hnext
    have hgap : '\n' ∉ gap := fun hmem => hquiet ⟨hmem, by rw [hlast]; rfl⟩
    have hsign : s' = '{' :: place.rest := Scan.token_sign_eq rfl hread'
    refine ⟨W, _, type', name, place, consumed ++ g, gap, back, rest, leads, misnames, hreads, ?_, hsign ▸ hskipped',
      hgap, hback, hskipped, ?_⟩
    · rw [show text.toList = _ from htext, hrest, Scan.token_name_eq hread, hrest', hsign]
      simp only [List.append_assoc]
    · have hcount : line = 1 + .ofNat ((consumed ++ g).count '\n' + back.count '\n') := by
        calc line = place.line + .ofNat (back.count '\n') := hline
          _ = 1 + .ofNat (consumed.count '\n') + .ofNat (g.count '\n') + .ofNat (gap.count '\n') +
              .ofNat (back.count '\n') := by rw [hplace, hbetween, hbefore]; rfl
          _ = 1 + .ofNat ((consumed ++ g).count '\n' + back.count '\n') := by
            rw [List.count_eq_zero_of_not_mem hgap, List.count_append]
            simp only [add_ofNat_add, add_ofNat_zero]
      rw [hcount, Lexer.toNat_one_add_ofNat, Nat.add_assoc]

/-- A comment behind the brace puts the error about the name two lines below the name. -/
theorem misnamed_behind_brace_tree :
    (SyntaxFault.structMismatch "Tree" "Leaf").OfName ∧
      (parse treeContext ⟨0⟩ 9 ⟨8⟩ "\nLeaf \x7b // none\n\n\x7d" .empty).1 =
        .error (.syntaxError 4 (.structMismatch "Tree" "Leaf")) ∧
      ∃ W depth type name place front gap back rest, Leads treeContext 9 ⟨8⟩ W depth type ∧
        Misnames treeContext type name (.structMismatch "Tree" "Leaf") ∧
        (Lexer.ofText "\nLeaf \x7b // none\n\n\x7d").Reads (W ++ [.name name, .leftCurly]) place ∧
        "\nLeaf \x7b // none\n\n\x7d".toList = front ++ name.toList ++ gap ++ '{' :: place.rest ∧
        Skipped gap ('{' :: place.rest) ∧ '\n' ∉ gap ∧ place.rest = back ++ rest ∧ Skipped back rest ∧
        (4 : UInt32).toNat = (1 + front.count '\n' + back.count '\n') % UInt32.size := by
  have hlexed : Lexed.ofText "\nLeaf \x7b // none\n\n\x7d" =
      ⟨[⟨.name "Leaf", 2⟩, ⟨.leftCurly, 2⟩, ⟨.rightCurly, 4⟩], .ok 4⟩ := rfl
  have hrefused : (parse treeContext ⟨0⟩ 9 ⟨8⟩ "\nLeaf \x7b // none\n\n\x7d" .empty).1 =
      .error (.syntaxError 4 (.structMismatch "Tree" "Leaf")) := by
    unfold parse
    rw [hlexed]
    rfl
  exact ⟨trivial, hrefused, misnamed_behind_brace trivial hrefused⟩

/-- The only name of the text is on line 1, but the error about it is on line 2. -/
theorem misnamed_on_later_line :
    (parse builtinContext ⟨0⟩ 256 .any "Nope\x7b\n\x7d" .empty).1 = .error (.syntaxError 2 (.unknownStruct "Nope")) ∧
      (Lexer.ofText "Nope\x7b\n\x7d").next.1 = .ok ⟨.name "Nope", 1⟩ := by
  have hlexed : Lexed.ofText "Nope\x7b\n\x7d" =
      ⟨[⟨.name "Nope", 1⟩, ⟨.leftCurly, 1⟩, ⟨.rightCurly, 2⟩], .ok 2⟩ := rfl
  refine ⟨?_, rfl⟩
  unfold parse
  rw [hlexed]
  -- the search for the struct by its name unfolds only here
  with_unfolding_all rfl

end Errors

end Wordcode.Literal
