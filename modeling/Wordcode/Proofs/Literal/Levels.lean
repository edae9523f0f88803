import Wordcode.Proofs.Literal.Canonical

/-! # What canonical tokens derive

The tokens of a datum reach exactly as many levels as the datum needs, so nothing is derived from them in
fewer (`need_le_of_derives`). Names stand in front of curly brackets only, so nothing is derived from the
name that is written for an infinite float (`finite_of_derives`). -/

namespace Wordcode.Literal

variable {ctx : TypeContext} {sub : Derivation} {slots slots' : Parser.Slots} {E W : List Token}
  {data : List Datum} {type : TypeIndex} {datum : Datum} {depth : Nat}

/-! ### Levels of tokens -/

/-- The greatest number of values that contain each other among the tokens, where the first token stands
in `level` brackets and behind `signs` minus signs. -/
def peak (level signs : Nat) : List Token → Nat
  | [] => 0
  | token :: rest =>
    match token with
    | .minus => peak level (signs + 1) rest
    | .leftBracket | .leftCurly => max (level + signs + 1) (peak (level + 1) 0 rest)
    | .rightBracket | .rightCurly => peak (level - 1) 0 rest
    | .comma | .linefeed | .endOfFile => peak level signs rest
    | .int _ | .float _ | .string _ | .nil | .name _ => max (level + signs + 1) (peak level 0 rest)

section Peak
variable {token : Token} (level signs : Nat) (rest : List Token)

theorem peak_nil : peak level signs [] = 0 := rfl

theorem peak_minus : peak level signs (.minus :: rest) = peak level (signs + 1) rest := rfl

theorem peak_datum (h : token.datum?.isSome) :
    peak level signs (token :: rest) = max (level + signs + 1) (peak level 0 rest) := by
  cases token with
  | int | float | string | nil => rfl
  | _ => cases h

theorem peak_separator (h : token = .comma ∨ token = .linefeed) :
    peak level signs (token :: rest) = peak level signs rest := by
  rcases h with rfl | rfl <;> rfl

theorem peak_enclosing (ctx : TypeContext) (type : TypeIndex) :
    max (level + signs + 1) (peak (level + 1) 0 rest) ≤
        peak level signs ((Datum.enclosing ctx type).1 ++ rest) ∧
      peak (level + 1) 0 ((Datum.enclosing ctx type).2 :: rest) = peak level 0 rest := by
  unfold Datum.enclosing
  split
  · exact ⟨Nat.max_le.mpr ⟨Nat.le_max_left .., (Nat.le_max_right ..).trans (Nat.le_max_right ..)⟩, rfl⟩
  · exact ⟨Nat.le_refl _, rfl⟩

end Peak

theorem Frame.peak_le {opening : List Token} {close : Token} {vectorType : TypeIndex}
    (h : Frame ctx type opening close vectorType slots) (level signs : Nat) (rest : List Token) :
    peak level signs (opening ++ rest) ≤ max (level + signs + 1) (peak (level + 1) 0 rest) ∧
      peak (level + 1) 0 (close :: rest) = peak level 0 rest := by
  cases h with
  | vector | anyVector => exact ⟨Nat.le_refl _, rfl⟩
  | struct | anyStruct =>
    refine ⟨?_, rfl⟩
    show max (level + signs + 1) (max (level + 0 + 1) (peak (level + 1) 0 rest)) ≤ _
    omega

theorem Items.peak_le (h : Items sub slots E data slots')
    (hsub : ∀ {type W datum}, sub type W datum → ∀ level signs rest,
      peak level signs (W ++ rest) ≤ max (level + signs + depth) (peak level 0 rest)) :
    ∀ level rest, peak level 0 (E ++ rest) ≤ max (level + depth) (peak level 0 rest) := by
  have hitem : ∀ {slots W data slots'}, Item sub slots W data slots' → ∀ level rest,
      peak level 0 (W ++ rest) ≤ max (level + depth) (peak level 0 rest) := by
    rintro slots W data slots' (⟨-, derived⟩ | ⟨-, derived⟩) level rest <;>
      exact hsub derived level 0 rest
  induction h with
  | last item => exact hitem item
  | lastBreak item =>
    intro level rest
    rw [List.append_assoc]
    exact (hitem item level _).trans (by rw [List.singleton_append, peak_separator _ _ _ (.inr rfl)])
  | @more _ _ _ W E _ _ separator item hsep _ ih =>
    intro level rest
    rw [List.append_assoc, List.cons_append]
    have hW := hitem item level (separator :: (E ++ rest))
    have hE := ih level rest
    rw [peak_separator _ _ _ hsep] at hW
    omega

theorem Derives.peak_le : ∀ {depth : Nat} {type : TypeIndex} {W : List Token} {datum : Datum},
    Derives ctx depth type W datum → ∀ level signs rest,
      peak level signs (W ++ rest) ≤ max (level + signs + depth) (peak level 0 rest)
  | depth + 1, type, W, datum, h, level, signs, rest => by
    cases h with
    | scalar known stands admits =>
      rw [List.singleton_append, peak_datum _ _ _ (by rw [stands]; rfl)]
      omega
    | @minus kind W operand negated known signs' derived negates =>
      have := derived.peak_le level (signs + 1) rest
      rw [List.cons_append, peak_minus]
      omega
    | @aggregate opening close vectorType slots slots' E data defaults frame body missing =>
      obtain ⟨hopen, -⟩ := frame.peak_le level signs (E ++ [close] ++ rest)
      have hclose := (frame.peak_le level signs rest).2
      have hbody : peak (level + 1) 0 (E ++ close :: rest) ≤
          max (level + 1 + depth) (peak (level + 1) 0 (close :: rest)) := by
        cases body with
        | empty => exact Nat.le_max_right ..
        | items h => exact h.peak_le (fun derived => derived.peak_le) (level + 1) (close :: rest)
      rw [hclose] at hbody
      simp only [List.append_assoc, List.singleton_append] at hopen ⊢
      omega

namespace Datum

mutual

theorem le_peak_tokens (ctx : TypeContext) : ∀ (datum : Datum) (level : Nat) (rest : List Token),
    max (level + datum.need) (peak level 0 rest) ≤ peak level 0 (datum.tokens ctx ++ rest)
  | nil, level, rest | string _, level, rest => Nat.le_refl _
  | int value, level, rest => by
    rw [tokens, tokensOfInt, need]
    split_ifs
    · exact Nat.le_refl _
    · exact Nat.le_refl _
  | float .nan, level, rest => Nat.le_refl _
  | float (.signed negative rank), level, rest => by
    rw [tokens, tokensOfFloat]
    cases negative
    · rw [if_neg (by decide)]
      split_ifs <;> exact Nat.le_refl _
    · rw [if_pos rfl]
      split_ifs <;> exact Nat.le_refl _
  | vector type elements, level, rest => by
    have helements := le_peak_separated ctx elements (level + 1) ((enclosing ctx type).2 :: rest)
    rw [tokens, need, List.append_assoc, List.append_assoc, List.singleton_append]
    have hopen := (peak_enclosing level 0
      (separated ctx elements ++ (enclosing ctx type).2 :: rest) ctx type).1
    rw [(peak_enclosing level 0 rest ctx type).2] at helements
    omega

theorem le_peak_separated (ctx : TypeContext) : ∀ (data : List Datum) (level : Nat)
    (rest : List Token),
    max (level + needOfAll data) (peak level 0 rest) ≤
      max level (peak level 0 (separated ctx data ++ rest))
  | [], level, rest => by simp [needOfAll, separated]
  | [datum], level, rest => by
    have := le_peak_tokens ctx datum level rest
    rw [separated, needOfAll, needOfAll]
    omega
  | datum :: datum' :: data, level, rest => by
    have hdata := le_peak_separated ctx (datum' :: data) level rest
    have hdatum := le_peak_tokens ctx datum level (.comma :: (separated ctx (datum' :: data) ++ rest))
    rw [peak_separator _ _ _ (.inl rfl)] at hdatum
    rw [separated, needOfAll, List.append_assoc, List.cons_append]
    · omega
    · simp

end

end Datum

/-- **A datum is not derived from its canonical tokens in fewer levels than it needs.** -/
theorem need_le_of_derives {datum' : Datum} (h : Derives ctx depth type (datum.tokens ctx) datum') :
    datum.need ≤ depth := by
  have hle := datum.le_peak_tokens ctx 0 []
  have hge := h.peak_le 0 0 []
  rw [peak_nil] at hle hge
  omega

/-! ### Names -/

/-- Whether the token is a name. -/
def Token.isName : Token → Bool
  | name _ => true
  | _ => false

/-- Names are followed by curly brackets: there are as many of them. -/
def Paired (W : List Token) : Prop := W.countP Token.isName = W.count .leftCurly

theorem Paired.append {W' : List Token} (h : Paired W) (h' : Paired W') : Paired (W ++ W') := by
  unfold Paired at *
  rw [List.countP_append, List.count_append, h, h']

theorem Items.paired (h : Items sub slots E data slots')
    (hsub : ∀ {type W datum}, sub type W datum → Paired W) : Paired E := by
  have hitem : ∀ {slots W data slots'}, Item sub slots W data slots' → Paired W := by
    rintro slots W data slots' (⟨-, derived⟩ | ⟨-, derived⟩) <;> exact hsub derived
  induction h with
  | last item => exact hitem item
  | lastBreak item => exact (hitem item).append rfl
  | more item hsep _ ih =>
    refine (hitem item).append (Paired.append (W := [_]) ?_ ih)
    rcases hsep with rfl | rfl <;> rfl

theorem Derives.paired : ∀ {depth : Nat} {type : TypeIndex} {W : List Token} {datum : Datum},
    Derives ctx depth type W datum → Paired W
  | depth + 1, type, W, datum, h => by
    cases h with
    | @scalar kind token datum known stands admits => cases token <;> cases stands <;> rfl
    | minus known signs derived negates => exact Paired.append (W := [.minus]) rfl derived.paired
    | aggregate frame body missing =>
      have hbody := body
      refine Paired.append ?_ ?_
      · refine Paired.append ?_ ?_
        · cases frame <;> rfl
        · cases body with
          | empty => rfl
          | items h => exact h.paired fun derived => derived.paired
      · cases frame <;> rfl

namespace Datum

/-- Whether the datum is a float that is not finite. -/
def isUnbounded : Datum → Bool
  | float .nan => true
  | float (.signed _ rank) => rank.val == infinityRank
  | _ => false

mutual

/-- Every float that is not finite adds a name to the canonical tokens. -/
theorem names_tokens (ctx : TypeContext) : ∀ datum : Datum,
    (datum.tokens ctx).countP Token.isName =
      (datum.tokens ctx).count .leftCurly + datum.parts.countP isUnbounded
  | nil | string _ | float .nan => rfl
  | int value => by
    rw [tokens, tokensOfInt]
    split_ifs <;> rfl
  | float (.signed negative rank) => by
    have hparts : (float (.signed negative rank)).parts = [float (.signed negative rank)] := rfl
    rw [tokens, tokensOfFloat, hparts]
    cases negative <;> by_cases hrank : rank.val = infinityRank <;>
      simp [hrank, isUnbounded, Token.isName]
  | vector type elements => by
    have := names_separated ctx elements
    rw [tokens, parts]
    unfold enclosing
    split
    · simp [List.countP_cons, Token.isName, isUnbounded, this]
      omega
    · simp [Token.isName, isUnbounded, this]

theorem names_separated (ctx : TypeContext) : ∀ data : List Datum,
    (separated ctx data).countP Token.isName =
      (separated ctx data).count .leftCurly + (partsOfAll data).countP isUnbounded
  | [] => rfl
  | [datum] => by
    rw [separated, names_tokens ctx datum, partsOfAll, partsOfAll, List.append_nil]
  | datum :: datum' :: data => by
    have := names_separated ctx (datum' :: data)
    rw [separated, partsOfAll, List.countP_append, List.count_append, List.countP_append,
      names_tokens ctx datum]
    · simp [Token.isName, this]
      omega
    · simp

end

end Datum

/-- **What is derived from canonical tokens is finite**: a name in the place of a float is no literal. -/
theorem finite_of_derives {datum' : Datum}
    (h : Derives ctx depth type (datum.tokens ctx) datum') : datum.Finite := by
  -- the names in front of curly brackets are all the names there are
  have hcount : datum.parts.countP Datum.isUnbounded = 0 := by
    have := h.paired
    unfold Paired at this
    rw [datum.names_tokens ctx] at this
    omega
  rintro part hpart x rfl
  have hx := List.countP_eq_zero.mp hcount _ hpart
  cases x with
  | nan => exact absurd rfl hx
  | signed negative rank => exact ⟨by simp, by simpa [Datum.isUnbounded, Double.isInfinite] using hx⟩

end Wordcode.Literal
