import Mathlib.Tactic.SplitIfs
import Wordcode.LineTable

/-! # Line tables as lists

Line entries make a table exactly if they start at zero and increase (`ofEntries_ok_iff`,
`exists_ofEntries_iff`). Halving finds the last entry that does not start behind the offset
(`lookup_splits`): all along, the first entry of the window starts at or before the offset and the entries
behind the window start after it. -/

namespace Wordcode

namespace LineTable

variable {entries : List LineInfo} {table : LineTable}

/-! ### Accepted entries -/

theorem orderFault?_eq_none : ∀ {a : LineInfo} {rest : List LineInfo},
    (a :: rest).Pairwise (fun a b => a.start < b.start) → orderFault? a rest = none
  | _, [], _ => rfl
  | _, _ :: _, h => by
    obtain ⟨ha, hrest⟩ := List.pairwise_cons.mp h
    rw [orderFault?, if_pos (ha _ List.mem_cons_self), orderFault?_eq_none hrest]

theorem ofEntries_toList (table : LineTable) : ofEntries table.entries.toList = .ok table := by
  obtain ⟨⟨entries⟩, nonempty, first, increasing⟩ := table
  cases entries with
  | nil => cases nonempty
  | cons a rest =>
    have hfirst : a.start = 0 := first
    show ofEntries (a :: rest) = _
    rw [ofEntries, dif_pos hfirst]
    split
    · next fault hfault =>
      rw [orderFault?_eq_none increasing] at hfault
      cases hfault
    · rfl

theorem ofEntries_ok_iff : ofEntries entries = .ok table ↔ table.entries.toList = entries := by
  constructor
  · intro h
    match entries, h with
    | a :: rest, h =>
      rw [ofEntries] at h
      split at h
      · split at h
        · cases h
        · cases h
          rfl
      · cases h
  · rintro rfl
    exact ofEntries_toList table

theorem exists_ofEntries_iff : (∃ table, ofEntries entries = .ok table) ↔
    entries.head?.map (·.start) = some 0 ∧ entries.Pairwise fun a b => a.start < b.start := by
  constructor
  · rintro ⟨table, h⟩
    obtain rfl := ofEntries_ok_iff.mp h
    refine ⟨?_, table.increasing⟩
    rw [List.head?_eq_getElem?, Array.getElem?_toList, Array.getElem?_eq_getElem table.nonempty,
      Option.map_some, table.first]
  · rintro ⟨hfirst, hincreasing⟩
    cases entries with
    | nil => cases hfirst
    | cons a rest =>
      exact ⟨⟨(a :: rest).toArray, Nat.succ_pos _, Option.some.inj hfirst, hincreasing⟩,
        ofEntries_ok_iff.mpr rfl⟩

/-- The table that attributes the whole stream to one line. -/
def single (line : UInt32) (file : FileIndex) : LineTable :=
  ⟨#[⟨0, line, file⟩], Nat.one_pos, rfl, List.pairwise_singleton _ _⟩

/-! ### Searching -/

/-- The entry at `k` starts at or before the offset, and those behind it start after the offset. -/
def LastAt (table : LineTable) (offset k : Nat) : Prop :=
  (∃ h : k < table.entries.size, table.entries[k].start.toNat ≤ offset) ∧
    ∀ j (h : j < table.entries.size), k < j → offset < table.entries[j].start.toNat

theorem start_lt_start {i j : Nat} (hij : i < j) (hj : j < table.entries.size) :
    table.entries[i].start.toNat < table.entries[j].start.toNat :=
  UInt32.lt_iff_toNat_lt.mp (List.pairwise_iff_getElem.mp table.increasing i j
    (by simpa using Nat.lt_trans hij hj) (by simpa using hj) hij)

/-- **The search** ends at the last entry that does not start behind the offset, if that one lies in the
window. -/
theorem search_lastAt (offset i n : Nat) (pos : 0 < n) (bound : i + n ≤ table.entries.size)
    (hfirst : table.entries[i].start.toNat ≤ offset)
    (hbehind : ∀ j (h : j < table.entries.size), i + n ≤ j → offset < table.entries[j].start.toNat) :
    ∃ k, table.LastAt offset k ∧ table.entries[k]? = some (table.search offset i n pos bound) := by
  fun_induction table.search offset i n pos bound with
  | case1 i pos bound =>
    exact ⟨i, ⟨⟨by omega, hfirst⟩, fun j h hij => hbehind j h hij⟩, Array.getElem?_eq_getElem _⟩
  | case2 i n pos bound hone half hhalf ih =>
    -- the middle entry does not start behind the offset, so it is the first one of the new window
    exact ih hhalf fun j h hj => hbehind j h (by omega)
  | case3 i n pos bound hone half hhalf ih =>
    refine ih hfirst fun j h hj => ?_
    rcases Nat.lt_or_eq_of_le hj with hlt | rfl
    · exact Nat.lt_trans (Nat.not_le.mp hhalf) (start_lt_start hlt h)
    · exact Nat.not_le.mp hhalf

/-- **An offset belongs to the last entry that does not start behind it.** -/
theorem lookup_splits (table : LineTable) (offset : Nat) : ∃ before after,
    table.entries.toList = before ++ table.lookup offset :: after ∧
      (table.lookup offset).start.toNat ≤ offset ∧ ∀ info ∈ after, offset < info.start.toNat := by
  have hfirst := table.first
  have hbound : 0 + table.entries.size ≤ table.entries.size := by omega
  obtain ⟨k, ⟨⟨hk, hle⟩, hbehind⟩, hfound⟩ := search_lastAt offset 0 _ table.nonempty hbound
    (by simp [hfirst]) fun j h hj => by omega
  have hlookup : table.entries[k] = table.lookup offset :=
    Option.some.inj ((Array.getElem?_eq_getElem hk).symm.trans hfound)
  refine ⟨table.entries.toList.take k, table.entries.toList.drop (k + 1), ?_, hlookup ▸ hle, ?_⟩
  · rw [← hlookup, ← Array.getElem_toList, ← List.drop_eq_getElem_cons, List.take_append_drop]
  · intro info hinfo
    obtain ⟨j, hj, rfl⟩ := List.getElem_of_mem hinfo
    rw [List.length_drop, Array.length_toList] at hj
    rw [List.getElem_drop, Array.getElem_toList]
    exact hbehind _ (by omega) (by omega)

/-- Looking from the last entry on, it is the first one that does not start behind the offset. -/
theorem find?_reverse_eq_lookup (table : LineTable) (offset : Nat) :
    table.entries.toList.reverse.find? (·.start.toNat ≤ offset) = some (table.lookup offset) := by
  obtain ⟨before, after, heq, hle, hbehind⟩ := table.lookup_splits offset
  have hafter : after.reverse.find? (·.start.toNat ≤ offset) = none :=
    List.find?_eq_none.mpr fun info hinfo => by
      simpa using hbehind info (List.mem_reverse.mp hinfo)
  rw [heq, List.reverse_append, List.reverse_cons, List.append_assoc, List.find?_append, hafter,
    Option.none_or, List.singleton_append, List.find?_cons_of_pos (by simpa using hle)]

end LineTable

end Wordcode
