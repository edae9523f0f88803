import Mathlib.Data.List.Forall2
import Wordcode.Proofs.Listing
import Wordcode.Proofs.Loading

/-! # Lines of listings

A listing has one line for each instruction, but names come from the tables and may break a line. A line is
the names it shows with pieces between them that have no line feed (`Text.Shows`): numbers, mnemonics and
quoted texts never have one, so every line feed in a line is one of a name (`Text.Shows.breaks_eq`). There is
one lemma for each kind of piece, put together by `Module.operandsText_shows`; over the whole listing this
gives `Module.listing_lines`. -/

namespace Wordcode

/-! ### Texts without line feeds -/

namespace Text

/-- The number of line feeds in a text. -/
def breaks (text : String) : Nat := text.toList.count '\n'

/-- No line feed is in the text. -/
def Unbroken (text : String) : Prop := '\n' ∉ text.toList

instance (text : String) : Decidable (Unbroken text) := inferInstanceAs (Decidable (_ ∉ _))

variable {text : String}

theorem breaks_eq_zero_iff : breaks text = 0 ↔ Unbroken text := List.count_eq_zero

theorem breaks_append (s t : String) : breaks (s ++ t) = breaks s + breaks t := by
  rw [breaks, String.toList_append, List.count_append]
  rfl

theorem Unbroken.append {s t : String} (hs : Unbroken s) (ht : Unbroken t) : Unbroken (s ++ t) := by
  rw [Unbroken, String.toList_append, List.mem_append]
  exact fun h => h.elim hs ht

theorem unbroken_ofList {chars : List Char} (h : '\n' ∉ chars) : Unbroken (.ofList chars) := by
  rwa [Unbroken, String.toList_ofList]

theorem unbroken_join_iff {texts : List String} :
    Unbroken (String.join texts) ↔ ∀ s ∈ texts, Unbroken s := by
  simp [Unbroken, String.toList_join]

/-! ### Pieces of a line -/

theorem linefeed_ne_digitChar (digit : Nat) : '\n' ≠ digit.digitChar :=
  (Nat.digitChar_ne '\n' (by decide)).symm

theorem linefeed_not_mem_toDigits {base : Nat} (hbase : 1 < base) (n : Nat) : '\n' ∉ Nat.toDigits base n := by
  induction n using Nat.strongRecOn with
  | ind n ih =>
    rw [Nat.toDigits_eq_if hbase]
    split_ifs with hn
    · exact fun h => linefeed_ne_digitChar n (List.mem_singleton.mp h)
    · have hlt : n / base < n := Nat.div_lt_self (by omega) hbase
      rw [List.mem_append, List.mem_singleton]
      exact fun h => h.elim (ih _ hlt) (linefeed_ne_digitChar _)

theorem unbroken_nat (n : Nat) : Unbroken (toString n) :=
  unbroken_ofList (linefeed_not_mem_toDigits (by decide) n)

theorem unbroken_word (word : Word) : Unbroken word.text := by
  show Unbroken word.toInt.repr
  rw [Int.repr_eq_if]
  split_ifs
  · exact unbroken_nat _
  · exact Unbroken.append (by decide) (unbroken_nat _)

theorem unbroken_mnemonic (op : Opcode) : Unbroken op.mnemonic := by
  cases op <;> decide

theorem unbroken_lvalText (lval : Option LvalOp) : Unbroken (Module.lvalText lval) := by
  cases lval with
  | none => decide
  | some op => cases op <;> decide

theorem unbroken_sixPlaces (millionths : Nat) : Unbroken (Single.sixPlaces millionths) := by
  refine unbroken_ofList ?_
  have hdigits : ∀ n, '\n' ∉ Nat.toDigits 10 n := linefeed_not_mem_toDigits (by decide)
  simp [hdigits]

theorem unbroken_single (value : Single) : Unbroken value.toFixed := by
  unfold Single.toFixed
  split_ifs with hnan hneg hinf hinf
  · decide
  · decide
  · exact Unbroken.append (by decide) (unbroken_sixPlaces _)
  · decide
  · exact Unbroken.append (by decide) (unbroken_sixPlaces _)

theorem linefeed_not_mem_quotedChar (c : Char) : '\n' ∉ quotedChar c := by
  unfold quotedChar
  split
  case h_7 hlinefeed _ _ =>
    split_ifs
    · have hdigits : '\n' ∉ Nat.toDigits 16 c.toNat := linefeed_not_mem_toDigits (by decide) _
      simp [hdigits]
    · exact fun h => hlinefeed (List.mem_singleton.mp h).symm
  all_goals decide

/-- **A quoted text stays on its line**, whatever its characters are. -/
theorem unbroken_quoted (text : String) : Unbroken (quoted text) := by
  refine unbroken_ofList ?_
  have hchars : '\n' ∉ text.toList.flatMap quotedChar := by
    rw [List.mem_flatMap]
    rintro ⟨c, -, hc⟩
    exact linefeed_not_mem_quotedChar c hc
  simp [hchars]

/-! ### Names in a line -/

/-- The text is the names in order, with pieces around them that have no line feed. -/
inductive Shows : String → List String → Prop
  | piece {piece : String} (unbroken : Unbroken piece) : Shows piece []
  | name {piece rest : String} {names : List String} (unbroken : Unbroken piece) (name : String)
    (behind : Shows rest names) : Shows (piece ++ name ++ rest) (name :: names)

theorem Shows.of_name (name : String) : Shows name [name] := by
  have hnone : Unbroken "" := by decide
  have h := Shows.name hnone name (.piece hnone)
  rwa [String.empty_append, String.append_empty] at h

theorem Shows.append {s t : String} {names names' : List String} (hs : Shows s names) (ht : Shows t names') :
    Shows (s ++ t) (names ++ names') := by
  induction hs with
  | @piece piece hpiece =>
    cases ht with
    | piece hpiece' => exact .piece (hpiece.append hpiece')
    | @name piece' rest names hpiece' name behind =>
      have hassoc : piece ++ (piece' ++ name ++ rest) = piece ++ piece' ++ name ++ rest := by
        simp only [String.append_assoc]
      rw [hassoc]
      exact .name (hpiece.append hpiece') name behind
  | @name piece rest names hpiece name behind ih =>
    rw [String.append_assoc]
    exact .name hpiece name ih

theorem Shows.piece_append {piece : String} {names : List String} (h : Shows text names)
    (hpiece : Unbroken piece) : Shows (piece ++ text) names := (Shows.piece hpiece).append h

theorem Shows.append_piece {piece : String} {names : List String} (h : Shows text names)
    (hpiece : Unbroken piece) : Shows (text ++ piece) names := by
  have happend := h.append (.piece hpiece)
  rwa [List.append_nil] at happend

/-- **Every line feed of a line is one of a name** on it. -/
theorem Shows.breaks_eq {names : List String} (h : Shows text names) :
    breaks text = breaks (String.join names) := by
  induction h with
  | piece hpiece => exact breaks_eq_zero_iff.mpr hpiece
  | @name piece rest names hpiece name behind ih =>
    rw [String.join_cons, breaks_append, breaks_append, breaks_append, breaks_eq_zero_iff.mpr hpiece, ih,
      Nat.zero_add]

end Text

namespace Module

open Text Instruction

variable {m : Module} {natives : NativeRegistry} {offset : Nat}

/-! ### Lines -/

/-- The names of table entries that the line of an instruction shows. -/
def printedNames (m : Module) (natives : NativeRegistry) : Instruction → List String
  | .ret function _ _ =>
    (((Index.ofWord? function : Option FunctionIndex).bind fun f => f.entry? m.functions).map (·.name)).toList
  | .call _ _ function _ _ => ((function.entry? m.functions).map (·.name)).toList
  | .newVector type _ =>
    match m.types.get? type with
    | some (.struct id _) => ((id.entry? m.structs).map (·.name)).toList
    | _ => []
  | .callNative native => (natives.name? native).toList
  | .ident _ _ spec => (m.identName? spec).toList
  | .prologue params returns _ => (params ++ returns).filterMap m.identName?
  | _ => []

theorem nameAt_shows {cause : OperandFault} {name? : Option String} {name : String}
    (h : nameAt offset cause name? = .ok name) : Shows name name?.toList := by
  cases name? with
  | none => cases h
  | some name' =>
    obtain rfl : name' = name := Except.ok.inj h
    exact .of_name _

theorem functionName_shows {f : FunctionIndex} {name : String} (h : m.functionName offset f = .ok name) :
    Shows name ((f.entry? m.functions).map (·.name)).toList := nameAt_shows h

theorem constructedName_shows {type : TypeIndex} {name : String} (count : Word)
    (h : m.constructedName offset type = .ok name) :
    Shows name (m.printedNames natives (.newVector type count)) := by
  simp only [constructedName, printedNames] at h ⊢
  cases hget : m.types.get? type with
  | none => simp only [hget] at h; cases h
  | some descriptor =>
    simp only [hget] at h ⊢
    cases descriptor with
    | struct id fields => exact nameAt_shows h
    | scalar kind | vector element =>
      obtain rfl : "vector" = name := Except.ok.inj h
      exact .piece (by decide)

theorem identNames_shows : ∀ {specs : List SpecIdentIndex} {names : List String},
    specs.mapM (m.identName offset) = .ok names →
      Shows (String.join (names.map (· ++ " "))) (specs.filterMap m.identName?)
  | [], names, h => by
    obtain rfl : [] = names := Except.ok.inj h
    exact .piece (by decide)
  | spec :: specs, names, h => by
    rw [List.mapM_cons] at h
    obtain ⟨name, hname, h⟩ := bind_eq_ok.mp h
    obtain ⟨rest, hrest, h⟩ := bind_eq_ok.mp h
    obtain rfl : name :: rest = names := Except.ok.inj h
    have hfirst : (m.identName? spec).toList ++ specs.filterMap m.identName? =
        (spec :: specs).filterMap m.identName? := by
      cases hspec : m.identName? spec <;> simp [hspec]
    have hblank := (nameAt_shows hname).append_piece (show Unbroken " " by decide)
    rw [List.map_cons, String.join_cons, ← hfirst]
    exact hblank.append (identNames_shows hrest)

/-- **The operands of an instruction** show the names of the entries they refer to. -/
theorem operandsText_shows {i : Instruction} {t : String} (h : m.operandsText natives offset i = .ok t) :
    Shows t (m.printedNames natives i) := by
  cases i with
  | plain op =>
    obtain rfl := Except.ok.inj h
    exact .piece (by decide)
  | immediate op value =>
    obtain rfl := Except.ok.inj h
    exact .piece (unbroken_word value)
  | ret function count type =>
    simp only [operandsText, printedNames] at h ⊢
    cases hf : (Index.ofWord? function : Option FunctionIndex) with
    | none =>
      simp only [hf] at h ⊢
      obtain rfl := Except.ok.inj h
      exact .piece (unbroken_word function)
    | some f =>
      simp only [hf] at h ⊢
      exact functionName_shows h
  | callValue op argc method =>
    obtain rfl := Except.ok.inj h
    exact .piece (((unbroken_word argc).append (by decide)).append (unbroken_word method))
  | call op argc function target typeMask =>
    obtain ⟨name, hname, h⟩ := bind_eq_ok.mp h
    obtain rfl := Except.ok.inj h
    have hfront : Unbroken (toString argc ++ " ") := (unbroken_nat argc).append (by decide)
    exact (((((functionName_shows hname).piece_append hfront).append_piece (by decide)).append_piece
      (unbroken_word target)).append_piece (by decide)).append_piece (unbroken_word typeMask)
  | newVector type count =>
    obtain ⟨name, hname, h⟩ := bind_eq_ok.mp h
    obtain rfl := Except.ok.inj h
    exact ((constructedName_shows count hname).append_piece (by decide)).append_piece (unbroken_word count)
  | callNative native => exact nameAt_shows h
  | ident op lval spec =>
    obtain ⟨name, hname, h⟩ := bind_eq_ok.mp h
    obtain rfl := Except.ok.inj h
    exact (nameAt_shows hname).piece_append (unbroken_lvalText lval)
  | slot op lval slot =>
    obtain rfl := Except.ok.inj h
    exact .piece ((unbroken_lvalText lval).append (unbroken_word slot))
  | element op lval =>
    obtain rfl := Except.ok.inj h
    exact .piece (unbroken_lvalText _)
  | float value =>
    obtain rfl := Except.ok.inj h
    exact .piece (unbroken_single value)
  | text value =>
    obtain rfl := Except.ok.inj h
    exact .piece (unbroken_quoted value)
  | prologue params returns logLength =>
    obtain ⟨paramNames, hparams, h⟩ := bind_eq_ok.mp h
    obtain ⟨returnNames, hreturns, h⟩ := bind_eq_ok.mp h
    obtain rfl := Except.ok.inj h
    have hlog : Unbroken (if logLength = 0 then "" else s!"(log = {logLength.text})") := by
      split_ifs
      · decide
      · exact (Unbroken.append (by decide) (unbroken_word logLength)).append (by decide)
    have harrow := (identNames_shows hparams).append_piece (show Unbroken "=> " by decide)
    simp only [printedNames, List.filterMap_append]
    exact (harrow.append (identNames_shows hreturns)).append_piece hlog
  | coroutine target locals =>
    obtain rfl := Except.ok.inj h
    refine .piece ((unbroken_word target).append (unbroken_join_iff.mpr fun s hs => ?_))
    obtain ⟨v, -, rfl⟩ := List.mem_map.mp hs
    exact Unbroken.append (by decide) (unbroken_word v)
  | dispatch overloads argc =>
    obtain rfl := Except.ok.inj h
    exact .piece (((unbroken_nat overloads).append (by decide)).append (unbroken_nat argc))

theorem listingLine_shows {l : Located} {line : String} (h : m.listingLine natives l = .ok line) :
    Shows line (m.printedNames natives l.instruction) := by
  obtain ⟨t, ht, h⟩ := bind_eq_ok.mp h
  obtain rfl := Except.ok.inj h
  have hoffset : Unbroken ("I " ++ toString l.start) := Unbroken.append (by decide) (unbroken_nat _)
  have hline := (hoffset.append (by decide : Unbroken " \tL ")).append
    (unbroken_nat (m.lines.lineAt l.start).toNat)
  have hfront := (hline.append (by decide : Unbroken " \t")).append (unbroken_mnemonic l.instruction.opcode)
  exact (operandsText_shows ht).piece_append (hfront.append (by decide : Unbroken " "))

/-! ### Listings -/

theorem forall₂_of_mapM {α β ε : Type} {f : α → Except ε β} : ∀ {l : List α} {r : List β},
    l.mapM f = .ok r → List.Forall₂ (fun a b => f a = .ok b) l r
  | [], r, h => by
    obtain rfl := Except.ok.inj h
    exact .nil
  | a :: l, r, h => by
    rw [List.mapM_cons] at h
    obtain ⟨b, hb, h⟩ := bind_eq_ok.mp h
    obtain ⟨rest, hrest, h⟩ := bind_eq_ok.mp h
    obtain rfl := Except.ok.inj h
    exact .cons hb (forall₂_of_mapM hrest)

/-- The line feeds of a listing are those behind its lines and those of the names in them. -/
theorem breaks_join {instructions : List Located} {lines : List String}
    (h : List.Forall₂ (fun l line => Shows line (m.printedNames natives l.instruction)) instructions lines) :
    breaks (String.join (lines.map (· ++ "\n"))) = instructions.length +
      breaks (String.join (instructions.flatMap fun l => m.printedNames natives l.instruction)) := by
  induction h with
  | nil => rfl
  | @cons l line instructions lines hline hlines ih =>
    have hfirst : breaks (line ++ "\n") =
        breaks (String.join (m.printedNames natives l.instruction)) + 1 := by
      rw [breaks_append, hline.breaks_eq]
      rfl
    rw [List.map_cons, String.join_cons, breaks_append, hfirst, ih, List.flatMap_cons, String.join_append,
      breaks_append, List.length_cons]
    omega

theorem lines_of_visit {walk : Walk} {lines : List String}
    (h : walk.visit (m.listingLine natives) = .ok lines) :
    walk.instructions.mapM (m.listingLine natives) = .ok lines ∧ walk.fault? = none := by
  obtain ⟨results, hresults, h⟩ := bind_eq_ok.mp h
  cases hfault : walk.fault? with
  | some fault => rw [hfault] at h; cases h
  | none =>
    rw [hfault] at h
    obtain rfl := Except.ok.inj h
    exact ⟨hresults, rfl⟩

theorem listingAt_eq {l : Located} {line : String} (hl : l ∈ (Walk.ofCode m.code 0).instructions)
    (h : m.listingLine natives l = .ok line) : m.listingAt natives l.start = .ok (line, l.next) := by
  unfold listingAt
  rw [(Walk.reaches_of_mem hl).2]
  exact bind_eq_ok.mpr ⟨line, h, rfl⟩

/-- **One line for each instruction.** If a module has a listing, its code is whole instructions, each of which
takes up words, and the listing is their lines in order, each with a line feed behind it. A line is the names
it shows with text around them that has no line feed. So the listing has as many line feeds as the code has
instructions if and only if no name on its lines has one. -/
theorem listing_lines (m : Module) (natives : NativeRegistry) (text : String)
    (h : m.listing natives = .ok text) : ∃ instructions lines,
      Walk.Splits m.code 0 instructions ∧ (∀ l ∈ instructions, l.start < l.next) ∧
      List.Forall₂ (fun l line => m.listingAt natives l.start = .ok (line, l.next) ∧
        Shows line (m.printedNames natives l.instruction)) instructions lines ∧
      text = String.join (lines.map (· ++ "\n")) ∧
      (text.toList.count '\n' = instructions.length ↔
        ∀ l ∈ instructions, ∀ name ∈ m.printedNames natives l.instruction, '\n' ∉ name.toList) := by
  obtain ⟨lines, hvisit, h⟩ := bind_eq_ok.mp h
  obtain rfl := Except.ok.inj h
  obtain ⟨hlines, hfault⟩ := lines_of_visit hvisit
  have hsplits := Walk.fault?_eq_none_iff_splits.mp hfault
  have hmem : List.Forall₂ (fun l line => l ∈ (Walk.ofCode m.code 0).instructions ∧
      m.listingLine natives l = .ok line) _ lines :=
    (List.forall₂_and_left _ _).mpr ⟨fun _ hl => hl, forall₂_of_mapM hlines⟩
  have hshows : List.Forall₂ (fun (l : Located) line =>
      Shows line (m.printedNames natives l.instruction)) _ lines :=
    hmem.imp fun _ _ hl => listingLine_shows hl.2
  refine ⟨_, lines, hsplits, fun l hl => ?_, hmem.imp fun l line hl => ?_, rfl, ?_⟩
  · exact (decode_ok (Walk.reaches_of_mem hl).2).1
  · exact ⟨listingAt_eq hl.1 hl.2, listingLine_shows hl.2⟩
  · have hbreaks := breaks_join hshows
    rw [breaks] at hbreaks
    rw [hbreaks, Nat.add_eq_left, breaks_eq_zero_iff, unbroken_join_iff]
    exact List.forall_mem_flatMap

/-- Four instructions make four line feeds, but five if the name of the native function breaks its line. -/
theorem listing_lines_pointModule :
    (∃ text, pointModule.listing (.ofNames ["print"]) = .ok text ∧ text.toList.count '\n' = 4) ∧
      ∃ text, pointModule.listing (.ofNames ["two\nlines"]) = .ok text ∧ text.toList.count '\n' ≠ 4 := by
  have hone : pointModule.listing (.ofNames ["print"]) = .ok (String.join
      ["I 0 \tL 1 \tFUNSTART x => \n", "I 5 \tL 1 \tNEWVEC Point 2\n", "I 8 \tL 1 \tBCALL print\n",
        "I 10 \tL 1 \tRETURN main\n"]) := by decide +kernel
  have htwo : pointModule.listing (.ofNames ["two\nlines"]) = .ok (String.join
      ["I 0 \tL 1 \tFUNSTART x => \n", "I 5 \tL 1 \tNEWVEC Point 2\n", "I 8 \tL 1 \tBCALL two\nlines\n",
        "I 10 \tL 1 \tRETURN main\n"]) := by decide +kernel
  obtain ⟨_, -, hsplits, -, -, -, hbreaks⟩ := listing_lines _ _ _ hone
  obtain ⟨_, -, hsplits', -, -, -, hbreaks'⟩ := listing_lines _ _ _ htwo
  obtain rfl := hsplits.eq_instructions
  obtain rfl := hsplits'.eq_instructions
  refine ⟨⟨_, hone, hbreaks.mpr (by decide)⟩, ⟨_, htwo, ?_⟩⟩
  exact fun h => absurd (hbreaks'.mp h) (by decide)

end Module

end Wordcode
