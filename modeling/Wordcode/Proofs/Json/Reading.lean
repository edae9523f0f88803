import Wordcode.Json.Text
import Wordcode.Proofs.Json.Spelling

/-! # Reading written documents

Every document is read from its written form (`parse?_render`): no two of its tokens run into each other
(`apart_tokens`), and they lead the reader from a place where a value is expected to the place behind this
value (`foldlM_tokens`). -/

namespace Wordcode.Json

/-! ### The tokens of a document stand apart -/

/-- What comes first can stand behind a number. -/
def EndsFirst (tokens : List Token) : Prop := ∀ t ∈ tokens.head?, t.endsNumber

theorem EndsFirst.cons {t : Token} (ht : t.endsNumber) (tokens : List Token) :
    EndsFirst (t :: tokens) := fun _ h => Option.some.inj h ▸ ht

theorem Apart.cons_of_endsFirst {tokens : List Token} (h : Apart tokens) (hfirst : EndsFirst tokens)
    (t : Token) : Apart (t :: tokens) :=
  List.isChain_cons.mpr ⟨fun next hnext _ => hfirst next hnext, h⟩

theorem Apart.cons {t : Token} {tokens : List Token} (ht : t.isNumber = false) (h : Apart tokens) :
    Apart (t :: tokens) :=
  List.isChain_cons.mpr ⟨fun _ _ hnumber => absurd hnumber (by rw [ht]; decide), h⟩

mutual

theorem apart_tokens : ∀ (j : Json) (rest : List Token), Apart rest → EndsFirst rest →
    Apart (j.tokens ++ rest)
  | null, _, h, hfirst | bool _, _, h, hfirst | string _, _, h, hfirst | integer _, _, h, hfirst
  | decimal, _, h, hfirst => h.cons_of_endsFirst hfirst _
  | array [], _, h, _ | object [], _, h, _ => .cons rfl (.cons rfl h)
  | array (item :: items), _, h, _ => by
    obtain ⟨hmore, hfirst⟩ := apart_moreItems items _ h
    rw [tokens, List.cons_append, List.append_assoc]
    exact .cons rfl (apart_tokens item _ hmore hfirst)
  | object ((key, value) :: members), _, h, _ => by
    obtain ⟨hmore, hfirst⟩ := apart_moreMembers members _ h
    rw [tokens, List.cons_append, List.cons_append, List.cons_append, List.append_assoc]
    exact .cons rfl (.cons rfl (.cons rfl (apart_tokens value _ hmore hfirst)))

theorem apart_moreItems : ∀ (items : List Json) (rest : List Token), Apart rest →
    Apart (moreItems items ++ rest) ∧ EndsFirst (moreItems items ++ rest)
  | [], _, h => ⟨.cons rfl h, .cons rfl _⟩
  | item :: items, _, h => by
    obtain ⟨hmore, hfirst⟩ := apart_moreItems items _ h
    rw [moreItems, List.cons_append, List.append_assoc]
    exact ⟨.cons rfl (apart_tokens item _ hmore hfirst), .cons rfl _⟩

theorem apart_moreMembers : ∀ (members : List (Bytes × Json)) (rest : List Token), Apart rest →
    Apart (moreMembers members ++ rest) ∧ EndsFirst (moreMembers members ++ rest)
  | [], _, h => ⟨.cons rfl h, .cons rfl _⟩
  | (key, value) :: members, _, h => by
    obtain ⟨hmore, hfirst⟩ := apart_moreMembers members _ h
    rw [moreMembers, List.cons_append, List.cons_append, List.cons_append, List.append_assoc]
    exact ⟨.cons rfl (.cons rfl (.cons rfl (apart_tokens value _ hmore hfirst))), .cons rfl _⟩

end

/-! ### The tokens of a document are read -/

/-- Where the first item of an array is expected its first token starts it, since it does not end the
array. -/
theorem foldlM_firstItem (stack : List Frame) : ∀ (j : Json) (rest : List Token),
    (j.tokens ++ rest).foldlM Expecting.step? (.firstItem stack) =
      (j.tokens ++ rest).foldlM Expecting.step? (.value (.items [] :: stack))
  | null, _ | bool _, _ | integer _, _ | decimal, _ | string _, _ | array [], _ | array (_ :: _), _
  | object [], _ | object (_ :: _), _ => rfl

mutual

/-- **The tokens of a document are read as it.** -/
theorem foldlM_tokens : ∀ (j : Json) (stack : List Frame) (rest : List Token),
    (j.tokens ++ rest).foldlM Expecting.step? (.value stack) =
      rest.foldlM Expecting.step? (deliver j stack)
  | null, _, _ | bool _, _, _ | integer _, _, _ | decimal, _, _ | string _, _, _ | array [], _, _
  | object [], _, _ => rfl
  | array (item :: items), stack, rest => by
    rw [tokens, List.cons_append, List.append_assoc]
    show (item.tokens ++ (moreItems items ++ rest)).foldlM Expecting.step? (.firstItem stack) = _
    rw [foldlM_firstItem, foldlM_tokens item, deliver, foldlM_moreItems items]
    rfl
  | object ((key, value) :: members), stack, rest => by
    rw [tokens, List.cons_append, List.cons_append, List.cons_append, List.append_assoc]
    show (value.tokens ++ (moreMembers members ++ rest)).foldlM Expecting.step?
      (.value (.members [] key :: stack)) = _
    rw [foldlM_tokens value, deliver, foldlM_moreMembers members]
    rfl

theorem foldlM_moreItems : ∀ (items done : List Json) (stack : List Frame) (rest : List Token),
    (moreItems items ++ rest).foldlM Expecting.step? (.afterItem done stack) =
      rest.foldlM Expecting.step? (deliver (.array (done.reverse ++ items)) stack)
  | [], done, stack, rest => by rw [List.append_nil]; rfl
  | item :: items, done, stack, rest => by
    rw [moreItems, List.cons_append, List.append_assoc]
    show (item.tokens ++ (moreItems items ++ rest)).foldlM Expecting.step?
      (.value (.items done :: stack)) = _
    rw [foldlM_tokens item, deliver, foldlM_moreItems items, List.reverse_cons, List.append_assoc]
    rfl

theorem foldlM_moreMembers : ∀ (members done : List (Bytes × Json)) (stack : List Frame)
    (rest : List Token),
    (moreMembers members ++ rest).foldlM Expecting.step? (.afterMember done stack) =
      rest.foldlM Expecting.step? (deliver (.object (done.reverse ++ members)) stack)
  | [], done, stack, rest => by rw [List.append_nil]; rfl
  | (key, value) :: members, done, stack, rest => by
    rw [moreMembers, List.cons_append, List.cons_append, List.cons_append, List.append_assoc]
    show (value.tokens ++ (moreMembers members ++ rest)).foldlM Expecting.step?
      (.value (.members done key :: stack)) = _
    rw [foldlM_tokens value, deliver, foldlM_moreMembers members, List.reverse_cons, List.append_assoc]
    rfl

end

theorem ofTokens?_tokens (j : Json) : ofTokens? j.tokens = some j := by
  have hread := foldlM_tokens j [] []
  rw [List.append_nil] at hread
  rw [ofTokens?, hread]
  rfl

/-- **Every document is read from its written form.** -/
theorem parse?_render (j : Json) : parse? j.render = some j := by
  have hapart : Apart j.tokens := by
    have h := apart_tokens j [] List.isChain_nil fun t ht => by cases ht
    rwa [List.append_nil] at h
  rw [parse?, render, tokensOf?_spelling hapart]
  exact ofTokens?_tokens j

end Wordcode.Json
