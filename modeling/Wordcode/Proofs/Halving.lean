import Mathlib.Data.Nat.Log
import Wordcode.Proofs.LineTable

/-! # Searching by halving

How the search for an entry runs, said of the bare entries (`LineTable.Halves`): it looks at the middle of its
window and goes on with one half, until one entry is left. A run is finite, and every position that it looks at
has an entry. The run from given bounds is unique (`Halves.unique`). On the entries of a table there is one
from the whole table on, it takes logarithmically many looks, and it ends at the entry that looking through all
entries finds (`LineTable.lookup_by_halving`). -/

namespace Wordcode

namespace LineTable

/-- A run of the search among the `n` entries from position `i` on: the positions it looks at, and the entry
at which it ends. The two halves of a window with an odd number of entries are not of the same size. -/
inductive Halves (entries : Array LineInfo) (offset : Nat) : Nat → Nat → List Nat → LineInfo → Prop
  | single {i : Nat} {info : LineInfo} (read : entries[i]? = some info) :
    Halves entries offset i 1 [i] info
  | upper {i n : Nat} {middle info : LineInfo} {probes : List Nat} (wide : n ≠ 1)
    (read : entries[i + n / 2]? = some middle) (starts : middle.start.toNat ≤ offset)
    (rest : Halves entries offset (i + n / 2) (n - n / 2) probes info) :
    Halves entries offset i n ((i + n / 2) :: probes) info
  | lower {i n : Nat} {middle info : LineInfo} {probes : List Nat} (wide : n ≠ 1)
    (read : entries[i + n / 2]? = some middle) (starts : offset < middle.start.toNat)
    (rest : Halves entries offset i (n / 2) probes info) :
    Halves entries offset i n ((i + n / 2) :: probes) info

section Runs
variable {entries : Array LineInfo} {offset i n : Nat} {probes probes' : List Nat} {info info' : LineInfo}

theorem Halves.lt_size (h : Halves entries offset i n probes info) : ∀ k ∈ probes, k < entries.size := by
  have hread : ∀ {k : Nat} {info : LineInfo}, entries[k]? = some info → k < entries.size := by
    intro k info hk
    obtain ⟨hlt, -⟩ := Array.getElem?_eq_some_iff.mp hk
    exact hlt
  induction h with
  | single read => exact List.forall_mem_singleton.mpr (hread read)
  | upper _ read _ _ ih => exact List.forall_mem_cons.mpr ⟨hread read, ih⟩
  | lower _ read _ _ ih => exact List.forall_mem_cons.mpr ⟨hread read, ih⟩

/-- The entry in the middle decides how the search goes on. -/
theorem Halves.unique (h : Halves entries offset i n probes info)
    (h' : Halves entries offset i n probes' info') : probes' = probes ∧ info' = info := by
  induction h generalizing probes' info' with
  | single read =>
    cases h' with
    | single read' => exact ⟨rfl, Option.some.inj (read'.symm.trans read)⟩
    | upper wide | lower wide => exact absurd rfl wide
  | upper wide read starts rest ih =>
    cases h' with
    | single => exact absurd rfl wide
    | upper _ read' _ rest' =>
      obtain ⟨rfl, rfl⟩ := ih rest'
      exact ⟨rfl, rfl⟩
    | lower _ read' starts' =>
      obtain rfl := Option.some.inj (read'.symm.trans read)
      omega
  | lower wide read starts rest ih =>
    cases h' with
    | single => exact absurd rfl wide
    | upper _ read' starts' =>
      obtain rfl := Option.some.inj (read'.symm.trans read)
      omega
    | lower _ read' _ rest' =>
      obtain ⟨rfl, rfl⟩ := ih rest'
      exact ⟨rfl, rfl⟩

end Runs

theorem clog_halves {n : Nat} (h : 2 ≤ n) : Nat.clog 2 (n - n / 2) + 1 = Nat.clog 2 n ∧
    Nat.clog 2 (n / 2) + 1 ≤ Nat.clog 2 n := by
  have hceil : n - n / 2 = (n + 2 - 1) / 2 := by omega
  have hlog : Nat.clog 2 n = Nat.clog 2 (n - n / 2) + 1 := by
    rw [hceil]
    exact Nat.clog_of_two_le (by decide) h
  have hle : Nat.clog 2 (n / 2) ≤ Nat.clog 2 (n - n / 2) := Nat.clog_mono_right 2 (by omega)
  exact ⟨hlog.symm, by omega⟩

/-- **The search of a table is a run** over its entries, with logarithmically many looks. -/
theorem search_halves (table : LineTable) (offset i n : Nat) (pos : 0 < n)
    (bound : i + n ≤ table.entries.size) : ∃ probes,
      Halves table.entries offset i n probes (table.search offset i n pos bound) ∧
        probes.length ≤ Nat.clog 2 n + 1 := by
  fun_induction table.search offset i n pos bound with
  | case1 i pos bound =>
    exact ⟨[i], .single (Array.getElem?_eq_getElem (by omega)), by simp⟩
  | case2 i n pos bound wide half starts ih =>
    obtain ⟨probes, hrun, hlength⟩ := ih
    have hlog : Nat.clog 2 (n - half) + 1 = Nat.clog 2 n := (clog_halves (by omega)).1
    refine ⟨_, .upper wide (Array.getElem?_eq_getElem (by omega)) starts hrun, ?_⟩
    rw [List.length_cons]
    omega
  | case3 i n pos bound wide half starts ih =>
    obtain ⟨probes, hrun, hlength⟩ := ih
    have hlog : Nat.clog 2 half + 1 ≤ Nat.clog 2 n := (clog_halves (by omega)).2
    refine ⟨_, .lower wide (Array.getElem?_eq_getElem (by omega)) (Nat.not_le.mp starts) hrun, ?_⟩
    rw [List.length_cons]
    omega

/-- **Searching by halving finds what looking through all entries finds.** Entries are accepted exactly if they
start at zero and increase. Then the search has exactly one run from the whole table on: it looks at entries
only, at most once more than the logarithm of their number says, and it ends at the last entry that does not
start behind the offset. -/
theorem lookup_by_halving (entries : List LineInfo) :
    ((∃ table, ofEntries entries = .ok table) ↔ entries.head?.map (·.start) = some 0 ∧
      entries.Pairwise fun a b => a.start < b.start) ∧
    ∀ table, ofEntries entries = .ok table → ∀ offset,
      (∃ probes, (∀ probes' info, Halves entries.toArray offset 0 entries.length probes' info ↔
          probes' = probes ∧ info = table.lookup offset) ∧
        (∀ k ∈ probes, k < entries.length) ∧ probes.length ≤ Nat.clog 2 entries.length + 1) ∧
      entries.reverse.find? (·.start.toNat ≤ offset) = some (table.lookup offset) := by
  refine ⟨exists_ofEntries_iff, fun table htable offset => ?_⟩
  obtain rfl := ofEntries_ok_iff.mp htable
  obtain ⟨probes, hrun, hlength⟩ :=
    search_halves table offset 0 _ table.nonempty (by omega)
  have hrun : Halves table.entries offset 0 table.entries.size probes (table.lookup offset) := hrun
  rw [Array.toArray_toList, Array.length_toList]
  refine ⟨⟨probes, fun probes' info => ⟨hrun.unique, ?_⟩, hrun.lt_size, hlength⟩,
    find?_reverse_eq_lookup table offset⟩
  rintro ⟨rfl, rfl⟩
  exact hrun

/-- Five entries; the search for offset 9 looks at the third, at the fourth and at the third one again. -/
theorem lookup_by_halving_five : ∃ table,
    ofEntries [⟨0, 1, ⟨0⟩⟩, ⟨4, 2, ⟨0⟩⟩, ⟨9, 7, ⟨1⟩⟩, ⟨10, 3, ⟨0⟩⟩, ⟨4294967295, 4, ⟨0⟩⟩] = .ok table ∧
      table.lookup 9 = ⟨9, 7, ⟨1⟩⟩ ∧ table.lookup 18446744073709551615 = ⟨4294967295, 4, ⟨0⟩⟩ ∧
      Halves table.entries 9 0 5 [2, 3, 2] (table.lookup 9) := by
  obtain ⟨haccepted, hlookup⟩ := lookup_by_halving
    [⟨0, 1, ⟨0⟩⟩, ⟨4, 2, ⟨0⟩⟩, ⟨9, 7, ⟨1⟩⟩, ⟨10, 3, ⟨0⟩⟩, ⟨4294967295, 4, ⟨0⟩⟩]
  obtain ⟨table, htable⟩ := haccepted.mpr (by decide)
  have hnine : table.lookup 9 = ⟨9, 7, ⟨1⟩⟩ := (Option.some.inj (hlookup table htable 9).2).symm
  have hlast : table.lookup 18446744073709551615 = ⟨4294967295, 4, ⟨0⟩⟩ :=
    (Option.some.inj (hlookup table htable 18446744073709551615).2).symm
  refine ⟨table, htable, hnine, hlast, ?_⟩
  have hentries := ofEntries_ok_iff.mp htable
  rw [hnine, ← @Array.toArray_toList _ table.entries, hentries]
  exact .upper (by decide) rfl (by decide)
    (.lower (by decide) rfl (by decide) (.single rfl))

end LineTable

end Wordcode
