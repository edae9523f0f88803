import Wordcode.Proofs.Literal.Sound
import Wordcode.Proofs.Literal.Tags

/-! # Two parsers side by side

Two runs of the parser read the same tokens and make the same objects, while they may tag vectors
differently. Their states stay alike (`Parsing.Alike`). One step follows another one if it gets from alike
states to alike states wherever that one succeeds (`Parser.Follows`); steps in sequence follow others if
each of them does (`Parser.Follows.bind`). -/

namespace Wordcode.Literal

variable {ctx : TypeContext}

/-- The same state, up to the tags of plain vectors, in front of tokens of a text. -/
structure Parsing.Alike (ctx : TypeContext) (s s' : Parsing) : Prop where
  tokens : s'.tokens = s.tokens
  store : s'.store = s.store
  roster : Value.SameAll ctx s.roster s'.roster
  names : ∀ name, .name name ∈ s.ahead → name ≠ ""

theorem Parsing.Alike.track {s s' : Parsing} {v v' : Value} (hs : Parsing.Alike ctx s s')
    (h : Value.Same ctx v v') (store : Store) :
    Parsing.Alike ctx { s with store := store.retain v, roster := v :: s.roster }
      { s' with store := store.retain v', roster := v' :: s'.roster } where
  tokens := hs.tokens
  store := store.retain_same h
  roster := .cons h hs.roster
  names := hs.names

namespace Parser

variable {α β γ δ : Type} {src : Source} {s s' : Parsing} {R : α → β → Prop} {Q : γ → δ → Prop}

/-- The second step follows the first one: where that succeeds, the second one does so from an alike state,
with a related result. -/
def Follows (src : Source) (R : α → β → Prop) (p : Parser α) (q : Parser β) : Prop :=
  ∀ s s', Parsing.Alike src.ctx s s' → Ends p src s
    (fun a t => ∃ b t', q src s' = .ok b t' ∧ R a b ∧ Parsing.Alike src.ctx t t') AnyError

theorem follows_pure {a : α} {b : β} (h : R a b) : Follows src R (pure a) (pure b) :=
  fun _ s' hs => ⟨b, s', rfl, h, hs⟩

theorem Follows.bind {x : Parser γ} {y : Parser δ} {f : γ → Parser α} {g : δ → Parser β}
    (hx : Follows src Q x y) (hf : ∀ a b, Q a b → Follows src R (f a) (g b)) :
    Follows src R (x >>= f) (y >>= g) := by
  intro s s' hs
  refine (hx s s' hs).bind ?_
  rintro a t ⟨b, t', hy, hab, ht⟩
  refine (hf a b hab t t' ht).mono ?_ fun _ _ h => h
  rintro c u ⟨d, u', hg, hcd, hu⟩
  exact ⟨d, u', (bind_apply_ok hy g).trans hg, hcd, hu⟩

theorem Follows.bind_eq {x y : Parser γ} {f : γ → Parser α} {g : γ → Parser β} (hx : Follows src Eq x y)
    (hf : ∀ a, Follows src R (f a) (g a)) : Follows src R (x >>= f) (y >>= g) :=
  hx.bind fun a _ hab => hab ▸ hf a

theorem follows_read {f : Source → Parser α} {g : Source → Parser β} (h : Follows src R (f src) (g src)) :
    Follows src R (do let src ← read; f src) (do let src ← read; g src) := h

theorem Follows.holding {p : Parser α} {q : Parser β} (h : Follows src R p q) (values values' : List Value) :
    Follows src R (holding values p) (holding values' q) := by
  intro s s' hs
  refine ends_holding.mpr ((h s s' hs).mono ?_ fun _ _ h => h)
  rintro a t ⟨b, t', hq, hab, ht⟩
  exact ⟨b, t', holding_apply_ok hq values', hab, ht⟩

theorem Follows.discard {p : Parser α} {q : Parser β} (h : Follows src R p q) :
    Follows src Eq (discard p) (discard q) := h.bind fun _ _ _ => follows_pure rfl

theorem follows_fail {cause : SyntaxFault} {q : Parser β} : Follows src R (fail cause) q :=
  fun _ _ _ => fail_sound

theorem follows_holding_fail (values : List Value) {cause : SyntaxFault} {q : Parser β} :
    Follows src R (holding values (fail cause)) q := fun _ _ _ => ends_holding.mpr fail_sound

/-! ### Tokens -/

theorem follows_current : Follows src Eq current current := by
  intro s s' hs
  rw [ends_current]
  cases hc : src.current s.tokens with
  | error fault => trivial
  | ok spanned =>
    refine exists_apply_ok_iff.mpr ?_
    rw [ends_current, hs.tokens, hc]
    exact ⟨rfl, hs⟩

theorem follows_current_named : Follows src (fun spanned spanned' => spanned' = spanned ∧
    ∀ name, spanned.token = .name name → name ≠ "") current current := by
  intro s s' hs
  have hnamed : Ends current src s (fun spanned _ => ∀ name, spanned.token = .name name → name ≠ "")
      AnyError := by
    refine current_sound fun spanned hspanned name hname => ?_
    rcases hspanned with ⟨rest, hrest⟩ | hend
    · exact hs.names name (Parsing.ahead_of_tokens hrest hname ▸ List.mem_cons_self)
    · rw [hend] at hname
      cases hname
  refine ((follows_current s s' hs).and hnamed).mono ?_ fun _ _ _ => trivial
  rintro spanned t ⟨⟨_, t', hrun, rfl, ht⟩, hname⟩
  exact ⟨spanned, t', hrun, ⟨rfl, hname⟩, ht⟩

theorem follows_advance : Follows src Eq advance advance := by
  intro s s' hs
  rw [ends_advance]
  cases hc : src.current s.tokens.tail with
  | error fault => trivial
  | ok spanned =>
    refine exists_apply_ok_iff.mpr ?_
    rw [ends_advance, hs.tokens, hc]
    refine ⟨rfl, rfl, hs.store, hs.roster, fun name hn => hs.names name ?_⟩
    exact List.mem_of_mem_tail (List.map_tail ▸ hn)

theorem follows_expect (wanted : Token) : Follows src Eq (expect wanted) (expect wanted) :=
  follows_current.bind_eq fun found => by
    dsimp only
    split_ifs
    · exact follows_advance
    · exact follows_fail

theorem follows_accept (wanted : Token) : Follows src Eq (accept wanted) (accept wanted) :=
  follows_current.bind_eq fun found => by
    split_ifs
    · exact follows_advance.bind_eq fun _ => follows_pure rfl
    · exact follows_pure rfl

theorem follows_atEnd (close : Token) : Follows src Eq (atEnd close) (atEnd close) :=
  (follows_accept _).bind_eq fun separated => follows_current.bind_eq fun found => by
    split_ifs
    · exact follows_pure rfl
    · exact (follows_expect _).bind_eq fun _ => follows_pure rfl
    · exact follows_pure rfl

/-! ### Objects -/

theorem follows_newString (text : String) :
    Follows src (Value.Same src.ctx) (newString text) (newString text) := by
  intro s s' hs
  refine exists_apply_ok_iff.mpr ?_
  rw [ends_newString, hs.store]
  exact ⟨rfl, hs.track rfl _⟩

theorem follows_newVector {tag tag' : TypeIndex} {values values' : List Value}
    (htag : src.ctx.plainTag tag' = src.ctx.plainTag tag) (h : Value.SameAll src.ctx values values') :
    Follows src (Value.Same src.ctx) (newVector tag values) (newVector tag' values') := by
  intro s s' hs
  have hsame : Value.Same src.ctx (s.store.newVector src.heap tag values).1
      (s.store.newVector src.heap tag' values').1 := by
    show Value.vector _ _ _ = Value.vector _ _ _
    rw [htag, h]
  refine exists_apply_ok_iff.mpr ?_
  rw [ends_newVector, hs.store]
  exact ⟨hsame, hs.track hsame _⟩

theorem follows_drop {values values' : List Value} (h : Value.SameAll src.ctx values values') :
    Follows src Eq (drop values) (drop values') := by
  intro s s' hs
  refine ⟨(), _, rfl, rfl, hs.tokens, ?_, hs.roster, hs.names⟩
  show s'.store.releaseAll values' = s.store.releaseAll values
  rw [hs.store, Store.releaseAll_same _ h]

/-! ### Fields -/

theorem follows_defaultOf (type : TypeIndex) : Follows src Eq (defaultOf type) (defaultOf type) := by
  unfold defaultOf
  refine follows_read ?_
  split
  · exact follows_pure rfl
  · exact follows_current.bind_eq fun _ _ _ _ => trivial

theorem follows_defaults : ∀ types : List TypeIndex,
    Follows src Eq (types.mapM defaultOf) (types.mapM defaultOf)
  | [] => follows_pure rfl
  | type :: types => by
    rw [List.mapM_cons]
    exact (follows_defaultOf type).bind_eq fun _ => (follows_defaults types).bind_eq fun _ => follows_pure rfl

theorem follows_fieldTypes (type : TypeIndex) (name : String) :
    Follows src Eq (fieldTypes type name) (fieldTypes type name) := by
  unfold fieldTypes
  refine follows_read ?_
  split
  · exact follows_pure rfl
  · exact follows_fail

end Parser

end Wordcode.Literal
