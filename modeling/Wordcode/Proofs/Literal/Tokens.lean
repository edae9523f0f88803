import Mathlib.Data.List.TakeWhile
import Wordcode.Proofs.Literal.Sound

/-! # The tokens of a text

Reading token by token leads from one lexer to another (`Lexer.Reads`), and a text whose reading comes to
the end of the text yields its tokens (`Lexer.Yields`). Every token takes up a character at least, so
the bound on the number of tokens of a text is no restriction (`Lexed.ofText_iff`). What is read are
tokens of a text (`Lexer.Reads.lexical`). -/

namespace Wordcode.Literal

/-! ### Progress -/

namespace Scan

theorem length_fraction_le (cs : List Char) : (fraction cs).2.length ≤ cs.length := by
  unfold fraction
  split <;> simp
  omega

theorem length_exponentSign_le (cs : List Char) : (exponentSign cs).2.length ≤ cs.length := by
  unfold exponentSign
  split <;> simp

theorem length_exponent_le (cs : List Char) : (exponent cs).2.length ≤ cs.length := by
  unfold exponent
  split
  · next e rest =>
    have := length_exponentSign_le rest
    dsimp only
    split_ifs <;> simp only [List.length_drop, List.length_cons] <;> omega
  · exact Nat.le_refl _

theorem length_drop_takeWhile_le {p : Char → Bool} {c : Char} {rest : List Char} (h : p c = true) :
    ((c :: rest).drop ((c :: rest).takeWhile p).length).length ≤ rest.length := by
  rw [List.takeWhile_cons_of_pos h]
  simp

theorem length_hexadecimal_le (mark cs : List Char) :
    (hexadecimal mark cs).2.length ≤ cs.length := by
  unfold hexadecimal
  dsimp only
  split_ifs <;> simp

theorem length_decimal_le {c : Char} {rest : List Char} (h : c.isDigit = true) :
    (decimal (c :: rest)).2.length ≤ rest.length := by
  have hrest : (exponent (fraction ((c :: rest).drop
      ((c :: rest).takeWhile Char.isDigit).length)).2).2.length ≤ rest.length :=
    (length_exponent_le _).trans ((length_fraction_le _).trans (length_drop_takeWhile_le h))
  unfold decimal
  dsimp only
  split_ifs <;> exact hrest

theorem length_number_le {c : Char} {rest : List Char} (h : c.isDigit = true) :
    (number (c :: rest)).2.length ≤ rest.length := by
  unfold number
  split
  · next rest' he =>
    obtain ⟨-, rfl⟩ := List.cons.inj he
    exact (length_hexadecimal_le _ _).trans (by simp)
  · next rest' he =>
    obtain ⟨-, rfl⟩ := List.cons.inj he
    exact (length_hexadecimal_le _ _).trans (by simp)
  · exact length_decimal_le h

theorem length_stringRest_le (done cs : List Char) : (stringRest done cs).2.length ≤ cs.length := by
  fun_induction stringRest done cs with
  | case1 | case2 | case3 => simp
  | case4 done rest escaped _ _ _ _ ih =>
    have : escaped.2.length ≤ rest.length := length_escape_le rest
    simp only [List.length_cons]
    omega
  | case5 done rest escaped =>
    have : escaped.2.length ≤ rest.length := length_escape_le rest
    simp only [List.length_cons]
    omega
  | case6 done c rest _ _ _ ih =>
    simp only [List.length_cons]
    omega

theorem length_characterEnd_le (c : Char) (cs : List Char) :
    (characterEnd c cs).2.length ≤ cs.length := by
  unfold characterEnd
  split <;> simp

theorem length_character_le (cs : List Char) : (character cs).2.length ≤ cs.length := by
  unfold character
  split
  · next rest =>
    have := length_escape_le rest
    split
    · next c rest' he =>
      rw [he] at this
      exact (length_characterEnd_le _ _).trans (this.trans (by simp))
    · next fault rest' he =>
      rw [he] at this
      exact this.trans (by simp)
  · split_ifs
    · exact Nat.le_refl _
    · exact (length_characterEnd_le _ _).trans (by simp)
  · exact Nat.le_refl _

theorem continuesName_of_startsName {c : Char} (h : startsName c = true) :
    continuesName c = true := by
  unfold startsName at h
  unfold continuesName
  rw [Bool.or_eq_true] at h ⊢
  rcases h with h | h
  · exact .inl (by rw [h, Bool.true_or])
  · exact .inr h

/-- Every token takes up a character at least, and so does every fault. -/
theorem length_token_le (c : Char) (rest : List Char) :
    (token (c :: rest)).2.length ≤ rest.length := by
  unfold token
  dsimp only
  split_ifs with h₁ h₂ h₃ h₄
  · exact length_number_le h₁
  · exact length_stringRest_le _ _
  · exact length_character_le _
  · exact length_drop_takeWhile_le (continuesName_of_startsName h₄)
  · exact Nat.le_refl _

end Scan

/-! ### What tokens look like -/

/-- What is known of a token that is read: names are names, floats have no sign, and the end of the text
is no token of it. -/
def Token.Readable : Token → Prop
  | name text => text ≠ "nil" ∧ (∃ c cs, text.toList = c :: cs ∧ Scan.startsName c = true) ∧
      ∀ c ∈ text.toList, Scan.continuesName c = true
  | float x => ∃ rank, x = .ofRank false rank
  | endOfFile => False
  | linefeed => False
  | _ => True

namespace Scan

theorem readable_name {c : Char} {rest : List Char} {t : Token} {rest' : List Char}
    (hc : startsName c = true) (h : name (c :: rest) = (.ok t, rest')) : t.Readable := by
  unfold name at h
  dsimp only at h
  rw [Prod.mk.injEq, Except.ok.injEq] at h
  obtain ⟨rfl, -⟩ := h
  split_ifs with hn
  · trivial
  · refine ⟨?_, ?_, ?_⟩
    · intro he
      exact hn (by rw [← String.toList_ofList (l := (c :: rest).takeWhile continuesName), he]; rfl)
    · rw [String.toList_ofList, List.takeWhile_cons_of_pos (continuesName_of_startsName hc)]
      exact ⟨_, _, rfl, hc⟩
    · rw [String.toList_ofList]
      exact fun d hd => List.mem_takeWhile_imp hd

theorem number_ok {cs : List Char} {t : Token} {rest : List Char} (h : number cs = (.ok t, rest)) :
    (∃ n, t = .int n) ∨ ∃ rank, t = .float (.ofRank false rank) := by
  have hhex : ∀ {mark cs}, hexadecimal mark cs = (.ok t, rest) → ∃ n, t = .int n := by
    intro mark cs h
    unfold hexadecimal at h
    dsimp only at h
    split_ifs at h
    · cases h
    · cases h; exact ⟨_, rfl⟩
    · cases h
  unfold number at h
  split at h
  · exact .inl (hhex h)
  · exact .inl (hhex h)
  · unfold decimal at h
    dsimp only at h
    split_ifs at h
    · cases h; exact .inl ⟨_, rfl⟩
    · cases h
    · cases h; exact .inr ⟨_, rfl⟩

theorem stringRest_ok {done cs : List Char} {t : Token} {rest : List Char}
    (h : stringRest done cs = (.ok t, rest)) : ∃ text, t = .string text := by
  fun_induction stringRest done cs with
  | case1 | case2 | case5 => cases h
  | case3 => cases h; exact ⟨_, rfl⟩
  | case4 _ _ _ _ _ _ _ ih => exact ih h
  | case6 _ _ _ _ _ _ ih => exact ih h

theorem character_ok {cs : List Char} {t : Token} {rest : List Char}
    (h : character cs = (.ok t, rest)) : ∃ n, t = .int n := by
  have hend : ∀ {c cs}, characterEnd c cs = (.ok t, rest) → ∃ n, t = .int n := by
    intro c cs h
    unfold characterEnd at h
    split at h <;> cases h
    exact ⟨_, rfl⟩
  unfold character at h
  split at h
  · split at h
    · exact hend h
    · cases h
  · split_ifs at h
    · cases h
    · exact hend h
  · cases h

/-- What a token can be that starts with the character `c` and leaves `rest` of the text. -/
inductive StartsWith (c : Char) (cs : List Char) : (t : Token) → (rest : List Char) → Prop
  | int (n : Int64) (rest : List Char) : StartsWith c cs (.int n) rest
  | float (rank : Nat) (rest : List Char) : StartsWith c cs (.float (.ofRank false rank)) rest
  | string (text : String) (rest : List Char) : StartsWith c cs (.string text) rest
  | name {t : Token} {rest : List Char} (starts : startsName c = true)
    (read : name (c :: cs) = (.ok t, rest)) : StartsWith c cs t rest
  | sign {t : Token} (read : sign? c = some t) : StartsWith c cs t cs

/-- **A token is read as its first character says.** -/
theorem startsWith_of_token {c : Char} {cs : List Char} {t : Token} {rest : List Char}
    (h : token (c :: cs) = (.ok t, rest)) : StartsWith c cs t rest := by
  unfold token at h
  dsimp only at h
  split_ifs at h with h₁ h₂ h₃ h₄
  · obtain ⟨n, rfl⟩ | ⟨rank, rfl⟩ := number_ok h
    · exact .int n rest
    · exact .float rank rest
  · obtain ⟨text, rfl⟩ := stringRest_ok h
    exact .string text rest
  · obtain ⟨n, rfl⟩ := character_ok h
    exact .int n rest
  · exact .name h₄ h
  · rw [Prod.mk.injEq] at h
    obtain ⟨hread, rfl⟩ := h
    cases hs : sign? c with
    | none => rw [hs] at hread; cases hread
    | some t' =>
      rw [hs, Option.elim_some, Except.ok.injEq] at hread
      exact .sign (hread ▸ hs)

theorem readable_sign {c : Char} {t : Token} (h : sign? c = some t) : t.Readable := by
  unfold sign? at h
  split at h <;> cases h <;> trivial

/-- What is read where the text goes on is a token of it. -/
theorem readable_token {c : Char} {cs : List Char} {t : Token} {rest : List Char}
    (h : token (c :: cs) = (.ok t, rest)) : t.Readable := by
  cases startsWith_of_token h with
  | int | string => trivial
  | float rank => exact ⟨rank, rfl⟩
  | name starts read => exact readable_name starts read
  | sign read => exact readable_sign read

end Scan

/-! ### Single steps -/

theorem length_skipGap_le (comment : Bool) (line : UInt32) (firstBreak : Option UInt32) (cs : List Char) :
    (skipGap comment line firstBreak cs).rest.length ≤ cs.length := by
  fun_induction skipGap comment line firstBreak cs <;> simp only [List.length_cons] at * <;> omega

theorem length_skipGap_lt (comment : Bool) (line : UInt32) (firstBreak : Option UInt32) (cs : List Char) :
    (skipGap comment line firstBreak cs).firstBreak = firstBreak ∨
      (skipGap comment line firstBreak cs).rest.length < cs.length := by
  fun_induction skipGap comment line firstBreak cs with
  | case1 | case6 => exact .inl rfl
  | case2 _ _ _ rest => exact .inr (Nat.lt_succ_of_le (length_skipGap_le ..))
  | case3 | case4 | case5 =>
    rename_i ih
    exact ih.imp_right Nat.lt_succ_of_lt

namespace Lexer

variable {lexer lexer' stop : Lexer} {W : List Token}

/-- A line break is read only behind a token at which an element can end. -/
def Breaks (last : Option Token) : Prop := last.any (!·.continuesLine)

theorem next_ok {token : Token} {line : UInt32} (h : lexer.next = (.ok ⟨token, line⟩, lexer'))
    (hne : token ≠ .endOfFile) : lexer'.last = some token ∧
      lexer'.rest.length < lexer.rest.length ∧
      ((token = .linefeed ∧ Breaks lexer.last) ∨ token.Readable) := by
  unfold next at h
  dsimp only at h
  have hle := length_skipGap_le false lexer.line none lexer.rest
  split at h
  · next breakLine hb =>
    split_ifs at hb with hlast
    rw [Prod.mk.injEq, Except.ok.injEq, Spanned.mk.injEq] at h
    obtain ⟨⟨rfl, -⟩, rfl⟩ := h
    refine ⟨rfl, ?_, .inl ⟨rfl, hlast⟩⟩
    refine (length_skipGap_lt false lexer.line none lexer.rest).resolve_left fun hn => ?_
    rw [hn] at hb
    cases hb
  · cases hg : (skipGap false lexer.line none lexer.rest).rest with
    | nil =>
      rw [hg] at h
      cases h
      exact absurd rfl hne
    | cons c rest =>
      rw [hg] at h hle
      have hlen := Scan.length_token_le c rest
      split at h
      · next token' rest' ht =>
        rw [ht] at hlen
        cases h
        exact ⟨rfl, Nat.lt_of_le_of_lt hlen hle, .inr (Scan.readable_token ht)⟩
      · cases h

/-! ### Runs -/

/-- Reading the tokens one after the other leads from one lexer to the other. -/
inductive Reads : Lexer → List Token → Lexer → Prop
  | done (lexer : Lexer) : Reads lexer [] lexer
  | token {lexer lexer' stop : Lexer} {token : Token} {line : UInt32} {W : List Token}
    (read : lexer.next = (.ok ⟨token, line⟩, lexer')) (live : token ≠ .endOfFile)
    (rest : Reads lexer' W stop) : Reads lexer (token :: W) stop

/-- The lexer reads the tokens and comes to the end of the text. -/
def Yields (lexer : Lexer) (W : List Token) : Prop :=
  ∃ stop line after, lexer.Reads W stop ∧ stop.next = (.ok ⟨.endOfFile, line⟩, after)

theorem Reads.append {middle : Lexer} {W' : List Token} (h : lexer.Reads W middle)
    (h' : middle.Reads W' stop) : lexer.Reads (W ++ W') stop := by
  induction h with
  | done => exact h'
  | token read live _ ih => exact .token read live (ih h')

theorem Reads.of_append {W' : List Token} (h : lexer.Reads (W ++ W') stop) :
    ∃ middle, lexer.Reads W middle ∧ middle.Reads W' stop := by
  induction W generalizing lexer with
  | nil => exact ⟨lexer, .done lexer, h⟩
  | cons token W ih =>
    cases h with
    | token read live rest =>
      obtain ⟨middle, hW, hW'⟩ := ih rest
      exact ⟨middle, .token read live hW, hW'⟩

theorem Reads.readable (h : lexer.Reads W stop) :
    ∀ token ∈ W, token = .linefeed ∨ token.Readable := by
  induction h with
  | done => simp
  | token read live _ ih =>
    exact List.forall_mem_cons.mpr ⟨(next_ok read live).2.2.imp_left And.left, ih⟩

/-- No line break is read behind a token that continues the line. -/
theorem Reads.isChain (h : lexer.Reads W stop) :
    (lexer.last.toList ++ W).IsChain fun a b => a.continuesLine → b ≠ .linefeed := by
  induction h with
  | done lexer => cases lexer.last <;> simp
  | @token lexer _ _ token _ _ read live _ ih =>
    obtain ⟨hlast, -, hbreak⟩ := next_ok read live
    rw [hlast] at ih
    cases hl : lexer.last with
    | none => exact ih
    | some last =>
      refine List.isChain_cons_cons.mpr ⟨fun hc he => ?_, ih⟩
      subst he
      rcases hbreak with ⟨-, hb⟩ | hr
      · rw [Breaks, hl, Option.any_some, hc] at hb
        cases hb
      · exact hr

/-- **What is read are tokens of a text.** -/
theorem Reads.lexical (h : lexer.Reads W stop) : Lexical W where
  breaks := h.isChain.right_of_append
  names := by
    rintro name hn rfl
    obtain ⟨-, ⟨c, cs, hc, -⟩, -⟩ := (h.readable _ hn).resolve_left (by simp)
    simp at hc
  ends := fun he => (h.readable _ he).elim (by simp) id

/-! ### All tokens of a text -/

/-- The tokens of a text up to a place are read one after the other, and the next call gives what stands there:
a token, the end of the text or a fault. -/
theorem reads_front {bound : Nat} {lexer : Lexer} (hlen : lexer.rest.length < bound)
    {front rest : List Spanned} (htokens : (lexer.tokensWithin bound).tokens = front ++ rest) :
    ∃ place, lexer.Reads (front.map (·.token)) place ∧
      place.next.1 = rest.head?.elim ((lexer.tokensWithin bound).ending.map (⟨.endOfFile, ·⟩)) .ok := by
  fun_induction tokensWithin bound lexer generalizing front with
  | case1 lexer => omega
  | case2 _ lexer fault _ hnext =>
    obtain ⟨rfl, rfl⟩ := List.append_eq_nil_iff.mp htokens.symm
    exact ⟨lexer, .done lexer, congrArg Prod.fst hnext⟩
  | case3 _ lexer line after hnext =>
    obtain ⟨rfl, rfl⟩ := List.append_eq_nil_iff.mp htokens.symm
    exact ⟨lexer, .done lexer, congrArg Prod.fst hnext⟩
  | case4 bound lexer spanned lexer' hne hnext lexed ih =>
    cases front with
    | nil =>
      obtain rfl : _ = rest := htokens
      exact ⟨lexer, .done lexer, congrArg Prod.fst hnext⟩
    | cons first front =>
      obtain ⟨rfl, htail⟩ : spanned = first ∧ lexed.tokens = front ++ rest := List.cons.inj htokens
      have live : spanned.token ≠ .endOfFile := fun h => hne spanned.line (by rw [← h])
      have hshorter := (next_ok hnext live).2.1
      obtain ⟨place, hreads, hcurrent⟩ := ih (by omega) htail
      exact ⟨place, .token hnext live hreads, hcurrent⟩

theorem tokensWithin_of_yields {line : UInt32} {after : Lexer} (h : lexer.Reads W stop)
    (hend : stop.next = (.ok ⟨.endOfFile, line⟩, after)) : ∀ bound, lexer.rest.length < bound →
      (lexer.tokensWithin bound).tokens.map (·.token) = W ∧
        (lexer.tokensWithin bound).ending = .ok line := by
  induction h with
  | done lexer =>
    rintro (_ | bound) hb
    · omega
    · simp [tokensWithin, hend]
  | @token lexer lexer' stop token line' W read live rest ih =>
    rintro (_ | bound) hb
    · omega
    · have hlen := (next_ok read live).2.1
      obtain ⟨hW, hl⟩ := ih hend bound (by omega)
      have : lexer.tokensWithin (bound + 1) =
          ⟨⟨token, line'⟩ :: (lexer'.tokensWithin bound).tokens,
            (lexer'.tokensWithin bound).ending⟩ := by
        rw [tokensWithin.eq_def]
        simp only [read]
        split
        · next h => cases h
        · next h => cases h; exact absurd rfl live
        · next h => cases h; rfl
      rw [this]
      exact ⟨by rw [List.map_cons, hW], hl⟩

end Lexer

theorem Lexer.length_ofText_lt (text : String) : (Lexer.ofText text).rest.length < text.length + 1 := by
  rw [Lexer.ofText, String.length_toList]
  omega

/-- **The tokens of a text are what is read from it** until it ends. -/
theorem Lexed.ofText_iff {text : String} {W : List Token} :
    (Lexer.ofText text).Yields W ↔ (Lexed.ofText text).tokens.map (·.token) = W ∧
      ∃ line, (Lexed.ofText text).ending = .ok line := by
  constructor
  · rintro ⟨stop, line, after, hreads, hend⟩
    obtain ⟨hW, hl⟩ := Lexer.tokensWithin_of_yields hreads hend _ (Lexer.length_ofText_lt text)
    exact ⟨hW, line, hl⟩
  · rintro ⟨rfl, line, hl⟩
    obtain ⟨stop, hreads, hend⟩ := Lexer.reads_front (Lexer.length_ofText_lt text) (List.append_nil _).symm
    have hlast : stop.next.1 = .ok ⟨.endOfFile, line⟩ := hend.trans (congrArg (Except.map _) hl)
    exact ⟨stop, line, stop.next.2, hreads, Prod.ext hlast rfl⟩

theorem Lexed.lexical_ofText (text : String) :
    Lexical ((Lexed.ofText text).tokens.map (·.token)) := by
  obtain ⟨_, hreads, -⟩ := Lexer.reads_front (Lexer.length_ofText_lt text) (List.append_nil _).symm
  exact hreads.lexical

theorem Parser.ready_ofText (ctx : TypeContext) (heap : HeapId) (text : String) (store : Store) :
    Ready (.ofText ctx heap text) (Parsing.ofText text store).ahead :=
  ⟨Lexed.lexical_ofText text, (List.length_map _).le⟩

end Wordcode.Literal
