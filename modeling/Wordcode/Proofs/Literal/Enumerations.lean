import Wordcode.Proofs.Literal.Depth
import Wordcode.Proofs.Literal.Refusals
import Wordcode.Proofs.Literal.RoundTrip

/-! # Separators of elements

By the grammar a separator may stand behind every element, the last one included:

    elements := ( value ( ',' | linefeed ) )* value?

A line break behind a literal is never skipped (`Derives.next_linefeed`), so the tokens of a text have all of its
separators. The parser looks for the closing bracket in front of an element, right behind one, and behind the line
break that follows one, but not behind a comma. So the elements of a vector literal are read as the grammar has
them, in order and with any mix of separators, unless a comma stands in front of the bracket. Then the parser takes
the bracket for the start of another element and refuses it, at every depth that is enough for the elements
(`parse_enumeration`). -/

namespace Wordcode.Literal

/-! ### The grammar of elements -/

/-- The elements of a type with a separator behind each, which the last one may lack, and their data. -/
inductive Enumerates (sub : Derivation) (type : TypeIndex) : List Token → List Datum → Prop
  | none : Enumerates sub type [] []
  | last {W : List Token} {datum : Datum} (derived : sub type W datum) : Enumerates sub type W [datum]
  | more {W E : List Token} {datum : Datum} {data : List Datum} {separator : Token} (derived : sub type W datum)
    (separates : separator = .comma ∨ separator = .linefeed) (rest : Enumerates sub type E data) :
    Enumerates sub type (W ++ separator :: E) (datum :: data)

/-- The literals of a type, in as many levels as they take. -/
def Denotes (ctx : TypeContext) : Derivation := fun type W datum => ∃ depth, Derives ctx depth type W datum

section Enumerates
variable {sub : Derivation} {type : TypeIndex} {E : List Token} {data : List Datum}

theorem Derives.getLast?_ne_comma {ctx : TypeContext} {depth : Nat} {W : List Token} {datum : Datum}
    (h : Derives ctx depth type W datum) : W.getLast? ≠ some .comma := by
  obtain ⟨init, token, rfl, ht⟩ := h.ends
  rw [List.getLast?_concat]
  rintro ⟨⟩
  cases ht

theorem Enumerates.exists_depth {ctx : TypeContext} (h : Enumerates (Denotes ctx) type E data) :
    ∃ least, ∀ depth, least ≤ depth → Enumerates (Derives ctx depth) type E data := by
  induction h with
  | none => exact ⟨0, fun _ _ => .none⟩
  | last derived =>
    obtain ⟨least, derived⟩ := derived
    exact ⟨least, fun _ hle => .last (derived.deeper hle)⟩
  | more derived separates _ ih =>
    obtain ⟨first, derived⟩ := derived
    obtain ⟨least, ih⟩ := ih
    refine ⟨max first least, fun depth hle => ?_⟩
    obtain ⟨hfirst, hleast⟩ := Nat.max_le.mp hle
    exact .more (derived.deeper hfirst) separates (ih depth hleast)

theorem Enumerates.starts (hsub : sub.Starting) (h : Enumerates sub type E data) :
    (E = [] ∧ data = []) ∨ ∃ token rest, E = token :: rest ∧ token.Starts := by
  cases h with
  | none => exact .inl ⟨rfl, rfl⟩
  | last derived => exact .inr (hsub _ _ _ derived)
  | more derived _ _ =>
    obtain ⟨token, rest, rfl, ht⟩ := hsub _ _ _ derived
    exact .inr ⟨token, _, rfl, ht⟩

theorem Enumerates.exists_derived (h : Enumerates sub type E data) (hne : E ≠ []) :
    ∃ W datum, sub type W datum := by
  cases h with
  | none => exact absurd rfl hne
  | last derived | more derived => exact ⟨_, _, derived⟩

/-- Elements without a comma at the end are elements as the parser reads them. -/
theorem Enumerates.body (hsub : sub.Starting) (h : Enumerates sub type E data)
    (hcomma : E.getLast? ≠ some .comma) : Body sub (.every type) E data (.every type) := by
  induction h with
  | none => exact .empty _
  | last derived => exact .items (.last (.kept rfl derived))
  | more derived separates rest ih =>
    have item : Item sub (.every type) _ [_] (.every type) := .kept rfl derived
    rcases rest.starts hsub with ⟨rfl, rfl⟩ | ⟨token, tail, rfl, -⟩
    · have hbreak : _ = Token.linefeed := separates.resolve_left fun he => hcomma (by simp [he])
      subst hbreak
      exact .items (.lastBreak item)
    · rw [List.getLast?_append_cons, List.getLast?_cons_cons] at hcomma
      cases ih hcomma with
      | items items => exact .items (.more item separates items)

end Enumerates

/-- **A line feed behind a literal is read** as a separator, however much spacing it stands in. -/
theorem Derives.next_linefeed {ctx : TypeContext} {depth : Nat} {type : TypeIndex} {W : List Token} {datum : Datum}
    (h : Derives ctx depth type W datum) {lexer stop : Lexer} (hreads : lexer.Reads W stop) {g s : List Char}
    (hrest : stop.rest = g ++ s) (hskipped : Skipped g s) (hbreak : '\n' ∈ g) :
    stop.next = (.ok ⟨.linefeed, stop.line⟩, ⟨s, stop.line + .ofNat (g.count '\n'), some .linefeed⟩) := by
  obtain ⟨init, token, rfl, ht⟩ := h.ends
  obtain ⟨middle, -, hlast⟩ := hreads.of_append
  cases hlast with
  | token read live done =>
    cases done
    have hbreaks : Lexer.Breaks stop.last := by
      rw [(Lexer.next_ok read live).1, Lexer.Breaks, Option.any_some, ht]
      rfl
    obtain ⟨rest, line, last⟩ := stop
    obtain rfl : rest = g ++ s := hrest
    exact Lexer.next_break hskipped hbreak hbreaks

/-! ### The bracket behind a comma -/

namespace Parser

variable {α β : Type} {src : Source} {s : Parsing} {line : UInt32} {close : Token} {rest : List Token}

/-- The step fails in front of the closing bracket, where it expects a value. -/
def FailsAt (src : Source) (close : Token) (rest : List Token) (step : Parser α) (s : Parsing) : Prop :=
  Ends step src s (fun _ _ => False) fun fault s' => s'.ahead = close :: rest ∧
    ∃ line, src.current s'.tokens = .ok ⟨close, line⟩ ∧ fault = .syntaxError line (.illegalStart close)

theorem FailsAt.bind {x : Parser β} (h : FailsAt src close rest x s) (f : β → Parser α) :
    FailsAt src close rest (x >>= f) s := Ends.bind h fun _ _ hfalse => hfalse.elim

theorem FailsAt.holding {step : Parser α} (h : FailsAt src close rest step s) (values : List Value) :
    FailsAt src close rest (holding values step) s := ends_holding.mpr h

theorem getElem?_of_current {tokens : List Spanned} {W : List Token} {token : Token}
    (hsuffix : s.tokens <:+ tokens) (htokens : tokens.map (·.token) = W ++ token :: rest)
    (hs : s.ahead = token :: rest) (hcurrent : src.current s.tokens = .ok ⟨token, line⟩) :
    tokens[W.length]? = some ⟨token, line⟩ := by
  obtain ⟨front, rfl⟩ := hsuffix
  obtain ⟨spanned, spans, ht⟩ : ∃ spanned spans, s.tokens = spanned :: spans := by
    refine List.exists_cons_of_ne_nil fun hnil => ?_
    rw [Parsing.ahead, hnil] at hs
    cases hs
  obtain rfl : spanned = ⟨token, line⟩ := by
    rw [ht] at hcurrent
    exact Except.ok.inj hcurrent
  have hfront : front.map (·.token) = W := by
    rw [List.map_append, ← hs] at htokens
    exact List.append_cancel_right htokens
  rw [ht, ← hfront, List.length_map, List.getElem?_append_right le_rfl, Nat.sub_self]
  rfl

section Closing
variable (hend : src.ending = .ok line) (hclose : close = .rightBracket ∨ close = .rightCurly)
include hend hclose

theorem value_failsAt {type : TypeIndex} {descriptor : TypeDescriptor}
    (hd : src.ctx.types.get? type = some descriptor) (depth : Nat) (hs : s.ahead = close :: rest) :
    FailsAt src close rest (value (depth + 1) type) s := by
  obtain ⟨⟨token, line'⟩, hcurrent, htoken⟩ := current_eq hend s
  obtain rfl : token = close := htoken.trans (by rw [hs]; rfl)
  have hliteral : literal (value depth) type descriptor token = fail (.illegalStart token) := by
    rcases hclose with rfl | rfl <;> rfl
  refine ends_value hend hd ?_
  rw [hs, List.headD_cons, hliteral, ends_fail, hcurrent]
  exact ⟨hs, line', rfl, rfl⟩

variable {item : TypeIndex → Parser Value} {sub : Derivation} {type : TypeIndex} {E : List Token}
  {data : List Datum}
  (hitem : CompleteFor src item sub) (hsub : sub.Starting)
  (hlast : ∀ {W datum}, sub type W datum → W.getLast? ≠ some .comma)
  (hfail : ∀ {s : Parsing}, s.ahead = close :: rest → FailsAt src close rest (item type) s)
include hitem hsub hlast hfail

/-- Behind the comma of the last element, another element is read. -/
theorem elementsFrom_failsAt (h : Enumerates sub type E data) (hcomma : E.getLast? = some .comma) :
    ∀ (bound : Nat) (done : List Value) (s : Parsing), s.ahead = E ++ close :: rest →
      s.ahead.length ≤ bound → s.ahead.length ≤ src.size →
      FailsAt src close rest (elementsFrom item close bound (.every type) done) s := by
  induction h with
  | none => cases hcomma
  | last derived => exact absurd hcomma (hlast derived)
  | @more W E datum data separator derived separates rest' ih =>
    intro bound done s hs hb hlen
    rw [List.append_assoc, List.cons_append] at hs
    obtain ⟨bound, rfl⟩ : ∃ n, bound = n + 1 := exists_bound hs hb
    refine Ends.behind (ends_holding.mpr (element_complete hitem (.kept rfl derived) hs hlen)) ?_
    rintro ⟨_, done₁⟩ s₁ ⟨hs₁, rfl, -⟩
    rcases rest'.starts hsub with ⟨rfl, rfl⟩ | ⟨token, tail, rfl, htoken⟩
    · -- the comma was the last token
      obtain rfl : separator = .comma := by simpa using hcomma
      refine Ends.behind (ends_holding.mpr (atEnd_comma hend hclose hs₁)) ?_
      rintro _ s₂ ⟨rfl, hs₂⟩
      have hlt : s₂.ahead.length < s.ahead.length := by
        rw [hs₂, hs]
        simp
        omega
      obtain ⟨bound, rfl⟩ : ∃ n, bound = n + 1 := exists_bound (W := []) hs₂ (by omega)
      exact FailsAt.bind (FailsAt.holding (FailsAt.bind (hfail hs₂) _) _) _
    · rw [List.getLast?_append_cons, List.getLast?_cons_cons] at hcomma
      refine Ends.behind (ends_holding.mpr (atEnd_separator hend hclose separates htoken hs₁)) ?_
      rintro _ s₂ ⟨rfl, hs₂⟩
      have hlt : s₂.ahead.length < s.ahead.length := by
        rw [hs₂, hs]
        simp
        omega
      exact ih hcomma bound done₁ s₂ hs₂ (by omega) (by omega)

theorem elements_failsAt (h : Enumerates sub type E data) (hcomma : E.getLast? = some .comma)
    (hs : s.ahead = E ++ close :: rest) (hlen : s.ahead.length ≤ src.size) :
    FailsAt src close rest (elements item close (.every type)) s := by
  have hne : E ≠ [] := List.ne_nil_of_mem (List.mem_of_getLast? hcomma)
  obtain ⟨token, tail, hE, htoken⟩ := (h.starts hsub).resolve_left fun hnil => hne hnil.1
  refine ends_elements_of_starts hend hclose htoken (by rw [hs, hE]; rfl) ?_
  exact FailsAt.bind
    (elementsFrom_failsAt hend hclose hitem hsub hlast hfail h hcomma _ [] s hs hlen hlen) _

end Closing

/-! ### Vectors -/

section Vectors
variable (hend : src.ending = .ok line) {depth : Nat} {type : TypeIndex} {descriptor : TypeDescriptor}
  (hd : src.ctx.types.get? type = some descriptor) (hadmits : Admits descriptor.kind .vector) {E : List Token}
  {data : List Datum} (h : Enumerates (Derives src.ctx depth) (vectorTypes type descriptor).2 E data)
  (hcomma : E.getLast? = some .comma)
include hend hd hadmits h hcomma

theorem vector_failsAt (hs : s.ahead = .leftBracket :: (E ++ .rightBracket :: rest))
    (hlen : s.ahead.length ≤ src.size) : FailsAt src .rightBracket rest (value (depth + 1) type) s := by
  obtain ⟨_, _, derived⟩ := h.exists_derived (List.ne_nil_of_mem (List.mem_of_getLast? hcomma))
  obtain ⟨element, helement⟩ := derived.described
  obtain ⟨depth, rfl⟩ : ∃ n, depth = n + 1 := by
    cases depth with
    | zero => exact derived.elim
    | succ n => exact ⟨n, rfl⟩
  refine ends_value hend hd ?_
  rw [hs, List.headD_cons]
  refine ends_vectorLiteral hend hadmits hs hlen fun s₁ hs₁ hlen₁ => ?_
  exact FailsAt.bind (elements_failsAt hend (.inl rfl) (value_complete hend (depth + 1))
    (fun _ _ _ derived => derived.starts) Derives.getLast?_ne_comma (value_failsAt hend (.inl rfl) helement depth) h
    hcomma hs₁ hlen₁) _

theorem wholeText_failsAt (hs : s.ahead = .leftBracket :: (E ++ .rightBracket :: rest))
    (hlen : s.ahead.length ≤ src.size) : FailsAt src .rightBracket rest (wholeText (depth + 1) type) s := by
  unfold wholeText
  refine Ends.behind (m := fun _ s' => s' = s) (ends_discard.mpr (current_complete hend fun _ _ => rfl)) ?_
  rintro _ s₁ rfl
  exact FailsAt.bind (vector_failsAt hend hd hadmits h hcomma hs hlen) _

end Vectors

end Parser

/-! ### Whole texts -/

section Texts
variable {ctx : TypeContext} {heap : HeapId} {depth : Nat} {type : TypeIndex} {descriptor : TypeDescriptor}
  {text : String} {store : Store} {E rest : List Token} {data : List Datum}

section Vectors
variable (hd : ctx.types.get? type = some descriptor) (hadmits : Admits descriptor.kind .vector)
  (h : Enumerates (Derives ctx depth) (Parser.vectorTypes type descriptor).2 E data)
include hd hadmits h

theorem Enumerates.isLiteral (hcomma : E.getLast? ≠ some .comma) (hrest : rest = [] ∨ rest = [.linefeed])
    (htext : (Lexer.ofText text).Yields ([.leftBracket] ++ E ++ [.rightBracket] ++ rest)) :
    IsLiteral ctx (depth + 1) type text (.vector (Parser.vectorTypes type descriptor).1 data) := by
  refine ⟨[.leftBracket] ++ E ++ [.rightBracket], ?_, ?_⟩
  · have hbody := h.body (fun _ _ _ derived => derived.starts) hcomma
    have hrule := Rule.aggregate (Parser.frame_vectorTypes hd hadmits) hbody rfl
    rwa [List.reverse_nil, List.append_nil] at hrule
  · rcases hrest with rfl | rfl
    · exact .inl (by simpa using htext)
    · exact .inr htext

/-- The error is on the line of the bracket, which is the token behind the elements. -/
theorem Enumerates.refused (hcomma : E.getLast? = some .comma)
    (htext : (Lexer.ofText text).Yields ([.leftBracket] ++ E ++ [.rightBracket] ++ rest)) :
    ∃ line, (Lexed.ofText text).tokens[E.length + 1]? = some ⟨.rightBracket, line⟩ ∧
      (parse ctx heap (depth + 1) type text store).1 =
        .error (.syntaxError line (.illegalStart .rightBracket)) := by
  obtain ⟨htokens, line, hend⟩ := Lexed.ofText_iff.mp htext
  have hahead : (Parsing.ofText text store).ahead = .leftBracket :: (E ++ .rightBracket :: rest) := by
    rw [Parsing.ahead, Parsing.ofText, htokens]
    simp
  have hfails : Parser.FailsAt (.ofText ctx heap text) .rightBracket rest (Parser.wholeText (depth + 1) type)
      (.ofText text store) := Parser.wholeText_failsAt hend hd hadmits h hcomma hahead (List.length_map _).le
  have hbehind := Parser.wholeText_ofText_blames ctx heap (depth + 1) type text store
  refine (parse_iff_ends ctx heap (depth + 1) type text store (p := fun r => ∃ line,
    (Lexed.ofText text).tokens[E.length + 1]? = some ⟨.rightBracket, line⟩ ∧
      r.1 = .error (.syntaxError line (.illegalStart .rightBracket)))).mpr
    ((Parser.Ends.and hfails hbehind).mono (fun _ _ hfalse => hfalse.1.elim) ?_)
  rintro fault s ⟨⟨hs, line, hcurrent, rfl⟩, ⟨front, hfront⟩, -⟩
  have hplace : (Lexed.ofText text).tokens.map (·.token) = (.leftBracket :: E) ++ .rightBracket :: rest := hahead
  exact ⟨line, Parser.getElem?_of_current ⟨front, hfront⟩ hplace hs hcurrent, rfl⟩

end Vectors

/-- **Which elements are read.** With enough levels, elements between square brackets are read at `Any` as the
vector of their data, in order, unless a comma stands in front of the closing bracket. If it does, the bracket is
refused, and the error has its line. -/
theorem parse_enumeration (hbuiltins : TypeTable.builtins.entries.toList <+: ctx.types.entries.toList)
    (h : Enumerates (Denotes ctx) .any E data) (hrest : rest = [] ∨ rest = [.linefeed])
    (htext : (Lexer.ofText text).Yields ([.leftBracket] ++ E ++ [.rightBracket] ++ rest)) :
    ∃ least, ∀ depth, least ≤ depth → ∀ heap store,
      (E.getLast? ≠ some .comma → ∃ value, (parse ctx heap depth .any text store).1 = .ok value ∧
        value.datum = .vector .vectorAny data) ∧
      (E.getLast? = some .comma → ∃ line, (Lexed.ofText text).tokens[E.length + 1]? = some ⟨.rightBracket, line⟩ ∧
        (parse ctx heap depth .any text store).1 = .error (.syntaxError line (.illegalStart .rightBracket))) := by
  have hany : ctx.types.get? .any = some (.scalar .any) := TypeTable.get?_of_builtins hbuiltins rfl
  have hadmits : Admits (TypeDescriptor.scalar .any).kind .vector := .inr rfl
  obtain ⟨least, hleast⟩ := h.exists_depth
  refine ⟨least + 1, fun depth hle heap store => ?_⟩
  obtain ⟨depth, rfl⟩ : ∃ n, depth = n + 1 := ⟨depth - 1, by omega⟩
  have hderived := hleast depth (Nat.le_of_succ_le_succ hle)
  exact ⟨fun hcomma => exists_parse_of_isLiteral heap store (hderived.isLiteral hany hadmits hcomma hrest htext),
    fun hcomma => hderived.refused hany hadmits hcomma htext⟩

/-- A comma and line breaks in turn, the last one in front of the bracket. -/
theorem parse_enumeration_mixed :
    TypeTable.builtins.entries.toList <+: builtinContext.types.entries.toList ∧
      Enumerates (Denotes builtinContext) .any [.int 1, .comma, .nil, .linefeed, .int 2, .linefeed]
        [.int 1, .nil, .int 2] ∧
      (Lexer.ofText "[1,nil\n2\n]").Yields
        ([.leftBracket] ++ [.int 1, .comma, .nil, .linefeed, .int 2, .linefeed] ++ [.rightBracket] ++ []) ∧
      ∃ least, ∀ depth, least ≤ depth → ∃ value,
        (parse builtinContext ⟨0⟩ depth .any "[1,nil\n2\n]" .empty).1 = .ok value ∧
          value.datum = .vector .vectorAny [.int 1, .nil, .int 2] := by
  have hbuiltins : TypeTable.builtins.entries.toList <+: builtinContext.types.entries.toList := by decide
  have hscalar : ∀ {token : Token} {datum : Datum}, token.datum? = some datum →
      Denotes builtinContext .any [token] datum := fun stands => ⟨1, Rule.scalar rfl stands (.inr rfl)⟩
  have helements : Enumerates (Denotes builtinContext) .any
      [.int 1, .comma, .nil, .linefeed, .int 2, .linefeed] [.int 1, .nil, .int 2] :=
    .more (hscalar rfl) (.inl rfl) (.more (hscalar rfl) (.inr rfl) (.more (hscalar rfl) (.inr rfl) .none))
  have htext : (Lexer.ofText "[1,nil\n2\n]").Yields
      ([.leftBracket] ++ [.int 1, .comma, .nil, .linefeed, .int 2, .linefeed] ++ [.rightBracket] ++ []) :=
    Lexed.ofText_iff.mpr ⟨rfl, 3, rfl⟩
  obtain ⟨least, hleast⟩ := parse_enumeration hbuiltins helements (.inl rfl) htext
  exact ⟨hbuiltins, helements, htext, least, fun depth hle => (hleast depth hle ⟨0⟩ .empty).1 (by decide)⟩

/-- One element and a comma are elements as the grammar has them, but no depth is enough to read their vector. -/
theorem trailing_comma_refused :
    TypeTable.builtins.entries.toList <+: builtinContext.types.entries.toList ∧
      Enumerates (Denotes builtinContext) .any [.int 1, .comma] [.int 1] ∧
      (Lexer.ofText "[1,]").Yields ([.leftBracket] ++ [.int 1, .comma] ++ [.rightBracket]) ∧
      ∀ depth value, (parse builtinContext ⟨0⟩ depth .any "[1,]" .empty).1 ≠ .ok value := by
  have hderived : Derives builtinContext 1 .any [.int 1] (.int 1) := Rule.scalar rfl rfl (.inr rfl)
  have hdenotes : Denotes builtinContext .any [.int 1] (.int 1) := ⟨1, hderived⟩
  have htext : (Lexer.ofText "[1,]").Yields ([.leftBracket] ++ [.int 1, .comma] ++ [.rightBracket] ++ []) :=
    Lexed.ofText_iff.mpr ⟨rfl, 1, rfl⟩
  refine ⟨by decide, .more hdenotes (.inl rfl) .none, htext, fun depth value hparse => ?_⟩
  -- two more levels are enough for the element, so the bracket would be refused there
  have helements : Enumerates (Derives builtinContext (depth + 1)) .any [.int 1, .comma] [.int 1] :=
    .more (hderived.deeper (Nat.le_add_left 1 depth)) (.inl rfl) .none
  have hany : builtinContext.types.get? .any = some (.scalar .any) := rfl
  obtain ⟨line, -, hrefused⟩ := helements.refused hany (.inr rfl) rfl htext
  have hdeeper := (parse_deeper (Nat.le_add_right depth 2) builtinContext ⟨0⟩ .any "[1,]" .empty).2
    fun line hline => by
      rw [hparse] at hline
      cases hline
  rw [hdeeper, hparse] at hrefused
  cases hrefused

end Texts

end Wordcode.Literal
