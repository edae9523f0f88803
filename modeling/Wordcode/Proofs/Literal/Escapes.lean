import Wordcode.Proofs.Literal.Places
import Wordcode.Proofs.Literal.Spacing

/-! # Escapes

A string is written with escapes for its controls, quotes and backslashes. An escape ends by itself, so a written
string is read back in front of anything, and where it ends can be told from its characters
(`eq_of_writtenString_append`). No control is left in it (`not_isControl_of_mem_writtenString`). With places in bytes
this gives what a lexer does that comes to the literal of a string, whatever stands around it
(`Lexer.next_string_literal`). -/

namespace Wordcode.Literal

/-! ### What is written -/

/-- A control of ASCII. -/
def IsControl (c : Char) : Prop := c.toNat < 32 ∨ c.toNat = 127

instance (c : Char) : Decidable (IsControl c) := inferInstanceAs (Decidable (_ ∨ _))

theorem not_isControl_upperHexDigit : ∀ n < 16, ¬IsControl (upperHexDigit n) := by decide

theorem not_isControl_of_mem_writtenChar {c d : Char} (h : d ∈ writtenChar c) : ¬IsControl d := by
  unfold writtenChar at h
  split at h
  case h_7 =>
    split_ifs at h with hcontrol
    · have hhigh := not_isControl_upperHexDigit (c.toNat / 16) (by omega)
      have hlow := not_isControl_upperHexDigit (c.toNat % 16) (by omega)
      simp only [List.mem_cons, List.not_mem_nil, or_false] at h
      rcases h with rfl | rfl | rfl | rfl
      · decide
      · decide
      · exact hhigh
      · exact hlow
    · rwa [List.mem_singleton.mp h]
  -- the other cases are a backslash and a letter each
  all_goals
    simp only [List.mem_pair] at h
    rcases h with rfl | rfl <;> decide

/-- **No control is in a written string**, so it stays on its line. -/
theorem not_isControl_of_mem_writtenString {text : String} {c : Char} (h : c ∈ writtenString text) :
    ¬IsControl c := by
  rw [writtenString, List.mem_cons, List.mem_append, List.mem_singleton, List.mem_flatMap] at h
  obtain rfl | ⟨d, -, hd⟩ | rfl := h
  · decide
  · exact not_isControl_of_mem_writtenChar hd
  · decide

/-- A control takes as many digits as its escape has, whatever digits stand behind it. -/
example : writtenString "\x01F\x000" = ['"', '\\', 'x', '0', '1', 'F', '\\', '0', '0', '"'] := by decide

/-- **A written string shows where it ends**: no other string, with anything behind it, has the same
characters. -/
theorem eq_of_writtenString_append {text text' : String} {rest rest' : List Char}
    (h : writtenString text ++ rest = writtenString text' ++ rest') : text = text' ∧ rest = rest' := by
  have hread : Scan.token (writtenString text ++ rest) = (.ok (.string text), rest) :=
    Scan.token_writtenString text
  rw [h, Scan.token_writtenString] at hread
  cases hread
  exact ⟨rfl, rfl⟩

/-! ### What is read -/

/-- **A string is read back wherever its literal stands.** On any line, behind any token and in front of any text
a lexer gives the string and stands behind the literal, on the line where it was; the lexer that counts bytes comes
to the place behind the literal. There is no line feed in the literal. -/
theorem Lexer.next_string_literal (ctx : TypeContext) (id : ObjectId) (text front rest : String) (line : UInt32)
    (last : Option Token) :
    next ⟨((Value.string id text).literal ctx).toList ++ rest.toList, line, last⟩ =
      (.ok ⟨.string text, line⟩, ⟨rest.toList, line, some (.string text)⟩) ∧
    Bytewise.next? (front ++ (Value.string id text).literal ctx ++ rest) ⟨front.utf8ByteSize, line, last⟩ =
      some (.ok ⟨.string text, line⟩,
        ⟨(front ++ (Value.string id text).literal ctx).utf8ByteSize, line, some (.string text)⟩) ∧
    '\n' ∉ ((Value.string id text).literal ctx).toList := by
  have hchars : ((Value.string id text).literal ctx).toList = writtenString text := by
    rw [Value.literal, Value.chars, String.toList_ofList]
  have hnext : next ⟨((Value.string id text).literal ctx).toList ++ rest.toList, line, last⟩ =
      (.ok ⟨.string text, line⟩, ⟨rest.toList, line, some (.string text)⟩) := by
    rw [hchars]
    exact next_of_token (Scan.token_writtenString text)
  refine ⟨hnext, Bytewise.next?_of_next hnext, ?_⟩
  rw [hchars]
  exact fun h => not_isControl_of_mem_writtenString h (by decide)

end Wordcode.Literal
