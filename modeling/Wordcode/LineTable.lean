import Wordcode.Fault

/-! # Line tables

A line table attributes every offset of a stream to a source line: an entry holds from its start up
to the start of the next one. The first entry starts at zero and the starts increase, so that each
offset has exactly one entry; `lookup` finds it by halving. -/

namespace Wordcode

/-- The line and file of the code from `start` on. -/
structure LineInfo where
  start : UInt32
  line : UInt32
  file : FileIndex
  deriving DecidableEq, Repr

/-- The entries of a module's code, from the first to the last. -/
structure LineTable where
  entries : Array LineInfo
  nonempty : 0 < entries.size
  first : entries[0].start = 0
  increasing : entries.toList.Pairwise fun a b => a.start < b.start
  deriving DecidableEq

namespace LineTable

/-- The first fault of the starts that follow an entry. -/
def orderFault? : LineInfo → List LineInfo → Option LineTableFault
  | _, [] => none
  | a, b :: rest =>
    if a.start < b.start then orderFault? b rest
    else some (.notIncreasing a.start.toNat b.start.toNat)

/-- Without an order fault the starts increase all along. -/
theorem pairwise_of_orderFault? {a : LineInfo} {rest : List LineInfo}
    (h : orderFault? a rest = none) : (a :: rest).Pairwise fun a b => a.start < b.start := by
  induction rest generalizing a with
  | nil => simp
  | cons b rest ih =>
    unfold orderFault? at h
    split at h
    case isTrue hab =>
      have hrest := ih h
      refine List.pairwise_cons.2 ⟨fun c hc => ?_, hrest⟩
      rcases List.mem_cons.1 hc with rfl | hc
      · exact hab
      · exact UInt32.lt_trans hab ((List.pairwise_cons.1 hrest).1 c hc)
    case isFalse => cases h

/-- The table of the given entries, or what is wrong with them. -/
def ofEntries : List LineInfo → Except LineTableFault LineTable
  | [] => .error .empty
  | a :: rest =>
    if first : a.start = 0 then
      match h : orderFault? a rest with
      | some fault => .error fault
      | none => .ok
        { entries := (a :: rest).toArray
          nonempty := by simp
          first := by simpa using first
          increasing := by simpa using pairwise_of_orderFault? h }
    else .error (.lateStart a.start.toNat)

/-- The number of entries. -/
def size (table : LineTable) : Nat := table.entries.size

/-- The search among the `n` entries from position `i` on. The entry sought is among them: each step
keeps the half that holds it. -/
def search (table : LineTable) (offset i n : Nat) (pos : 0 < n)
    (bound : i + n ≤ table.entries.size) : LineInfo :=
  if h : n = 1 then table.entries[i]
  else
    let half := n / 2
    if table.entries[i + half].start.toNat ≤ offset then
      search table offset (i + half) (n - half) (by omega) (by omega)
    else search table offset i half (by omega) (by omega)
termination_by n

/-- The entry an offset belongs to. -/
def lookup (table : LineTable) (offset : Nat) : LineInfo :=
  table.search offset 0 table.entries.size table.nonempty (by omega)

/-- The line an offset belongs to. -/
def lineAt (table : LineTable) (offset : Nat) : UInt32 := (table.lookup offset).line

end LineTable

end Wordcode
