import Mathlib.Data.List.Nodup
import LuadchAnnouncer.Core.Util

/-!
# The lists the window edits

The rules and the categories are sequences in memory, each with a file.  This is
what the two have in common: the checks on names, the search for a name that is
taken, `table.insert` and `table.remove`, and a sequence that is saved and
loaded again.

Positions count from zero.
-/

namespace LuadchAnnouncer.Frontends.GuiTables

open LuadchAnnouncer.Verified.Bytes
open LuadchAnnouncer.Verified.LuaValue
open LuadchAnnouncer.Verified.LuaPattern (digit)
open LuadchAnnouncer.Verified.LuaTable
open LuadchAnnouncer.Verified.LuaSource
open LuadchAnnouncer.Verified.LuaData
open LuadchAnnouncer.Core.Util

/-! ## Names -/

/-- `trim( s )` -/
def trim (s : Str) : Str := LuaNum.trim s

/-- One byte of `SAFE_NAME_PATTERN`. -/
def safeByte (c : UInt8) : Bool :=
  (65 ≤ c && c ≤ 90) || (97 ≤ c && c ≤ 122) || digit c || c == 46 || c == 95 || c == 45 ||
    c == 40 || c == 41

/-- `is_safe_name( s )` -/
def isSafeName (s : Str) : Bool := !s.isEmpty && s.all safeByte

/-- `table.hasValue( tbl, item, field, id )` -/
def hasValue {α : Type} (field : α → Str) (tbl : List α) (item : Str) (id : Option Nat) : Bool :=
  tbl.zipIdx.any fun e => field e.1 == item && some e.2 != id

/-- Without an index to leave out, `table.hasValue` asks whether the value is in the list. -/
theorem hasValue_none {α : Type} {field : α → Str} {tbl : List α} {item : Str} :
    hasValue field tbl item none = true ↔ item ∈ tbl.map field := by
  unfold hasValue
  rw [List.any_eq_true, List.mem_map]
  constructor
  · rintro ⟨e, he, hmatch⟩
    refine ⟨e.1, List.fst_mem_of_mem_zipIdx he, ?_⟩
    simpa using hmatch
  · rintro ⟨a, ha, rfl⟩
    obtain ⟨i, hi⟩ := List.getElem?_of_mem ha
    exact ⟨(a, i), List.mem_zipIdx_iff_getElem?.mpr hi, by simp⟩

/-- With one, it asks the other positions. -/
theorem hasValue_some {α : Type} {field : α → Str} {tbl : List α} {item : Str} {k : Nat} :
    hasValue field tbl item (some k) = true ↔
      ∃ j b, tbl[j]? = some b ∧ field b = item ∧ j ≠ k := by
  unfold hasValue
  rw [List.any_eq_true]
  constructor
  · rintro ⟨e, he, hmatch⟩
    have hboth : field e.1 = item ∧ e.2 ≠ k := by simpa using hmatch
    exact ⟨e.2, e.1, List.mem_zipIdx_iff_getElem?.mp he, hboth.1, hboth.2⟩
  · rintro ⟨j, b, hj, hfield, hjk⟩
    exact ⟨(b, j), List.mem_zipIdx_iff_getElem?.mpr hj, by simp [hfield, hjk]⟩

/-- No entry is taken by another exactly if there are no two of them. -/
theorem hasValue_unique {α : Type} {field : α → Str} {tbl : List α} :
    (∀ (k : Nat) (a : α), tbl[k]? = some a → hasValue field tbl (field a) (some k) = false) ↔
      (tbl.map field).Nodup := by
  rw [List.nodup_iff_getElem?_ne_getElem?]
  constructor
  · intro h i j hij hj heq
    rw [List.length_map] at hj
    have hi : i < tbl.length := by omega
    simp only [List.getElem?_map, List.getElem?_eq_getElem hi, List.getElem?_eq_getElem hj,
      Option.map_some, Option.some.injEq] at heq
    have hfree := h j tbl[j] (List.getElem?_eq_getElem hj)
    have htaken : hasValue field tbl (field tbl[j]) (some j) = true :=
      hasValue_some.mpr ⟨i, tbl[i], List.getElem?_eq_getElem hi, heq, by omega⟩
    rw [hfree] at htaken
    exact absurd htaken (by decide)
  · intro h k a hk
    by_contra htaken
    rw [Bool.not_eq_false] at htaken
    obtain ⟨j, b, hj, hfield, hjk⟩ := hasValue_some.mp htaken
    have hklt : k < tbl.length := (List.getElem?_eq_some_iff.mp hk).1
    have hjlt : j < tbl.length := (List.getElem?_eq_some_iff.mp hj).1
    have hmap : (tbl.map field)[j]? = (tbl.map field)[k]? := by
      rw [List.getElem?_map, List.getElem?_map, hj, hk, Option.map_some, Option.map_some, hfield]
    rcases Nat.lt_or_gt_of_ne hjk with hlt | hlt
    · exact h j k hlt (by rw [List.length_map]; omega) hmap
    · exact h k j hlt (by rw [List.length_map]; omega) hmap.symm

/-! ## Sequences -/

/-- The greatest index. -/
def capacity : Nat := 2 ^ 63 - 1

/-- `table.insert( tbl, target )` -/
def tableInsert {α : Type} (target : α) (tbl : List α) : Except LuaError (List α) :=
  if tbl.length < capacity then .ok (tbl ++ [target]) else .error .call

/-- `table.remove( tbl, position )`, which raises out of bounds. -/
def tableRemove {α : Type} (position : Nat) (tbl : List α) : Except LuaError (List α) :=
  if position ≤ tbl.length then .ok (tbl.eraseIdx position) else .error .call

/-- What is written.  Of a table that cannot be written to its end nothing can be
loaded, as of an empty file. -/
def written (r : Except LuaError Str) : Str :=
  match r with
  | .ok text => text
  | .error _ => []

/-- The sequence `loadtable` finds in a file.  The keys of its elements have no
order, and are sorted here. -/
def stored {l : Nat} (loader : Loader l) (file : Str) : Option (List LuaVal) :=
  (sequence (loader.read file)).map fun tbl => tbl.map normal

/-- A sequence that is written is found again. -/
theorem stored_serialize {l : Nat} (loader : Loader l) {tbl : List LuaVal}
    (hlen : tbl.length ≤ capacity) (htbl : ∀ v ∈ tbl, Storable v)
    (hlevels : ∀ v ∈ tbl, levels v + 2 ≤ l) (hl : 3 ≤ l) {name : Str} (hname : Identifier name)
    (htype : name ≠ lit "type") :
    ∃ text, serialize (seq tbl) name = .ok text ∧
      sequence (loader.read text) = some (tbl.map normal) ∧
      stored loader text = some (tbl.map normal) := by
  have hlt : tbl.length < 2 ^ 63 := by
    unfold capacity at hlen
    omega
  have hfits : levels (.table (seq tbl)) ≤ (l - 2) + 1 :=
    levels_seq (by omega) fun v hv => by have hv' := hlevels v hv; omega
  obtain ⟨text, htext, hread⟩ := loader.read_serialize (storable_seq hlt htbl) (Or.inl hname)
    htype (by omega)
  rw [normal_seq] at hread
  have hne : ∀ v ∈ tbl.map normal, v ≠ .nil := by
    intro v hv
    obtain ⟨w, hw, rfl⟩ := List.mem_map.mp hv
    exact (htbl w hw).normal.ne_nil
  have hsequence : sequence (loader.read text) = some (tbl.map normal) := by
    rw [hread, sequence_seq hne]
  refine ⟨text, htext, hsequence, ?_⟩
  have hagain : (tbl.map normal).map normal = tbl.map normal := by
    rw [List.map_map]
    apply List.map_congr_left
    intro v hv
    exact (htbl v hv).normal_normal
  unfold stored
  rw [hsequence, Option.map_some, hagain]

end LuadchAnnouncer.Frontends.GuiTables
