import Mathlib.Data.List.Sort
import LuadchAnnouncer.Verified.LuaValue

/-!
# Lua tables

A table is given by its entries, in whatever order `pairs` visits them.  This
file has what a program does with them: looking up and assigning a field, and
sorting the keys.  `normal` is the same table with all its keys sorted, at every
level, and `DeepEq` says of two values that they cannot be told apart but by
the identity of tables.

## Main results

* `get_set_self`, `get_set_of_ne` — a field that is assigned, and the others.
* `pairwise_sortKeys`, `perm_sortKeys` — `sortKeys` sorts.
* `normal_seq`, `sequence_seq` — sequences, written and read back.
-/

namespace LuadchAnnouncer.Verified.LuaTable

open LuadchAnnouncer.Verified.Bytes
open LuadchAnnouncer.Verified.LuaValue

/-- The entries of a table. -/
abbrev Entries := List (LuaVal × LuaVal)

/-! ## Fields -/

/-- Raw equality of two keys.  Two tables are never the same key here. -/
def sameKey : LuaVal → LuaVal → Bool
  | .str s, .str t => s == t
  | .num m, .num n => m == n
  | .bool a, .bool b => a == b
  | _, _ => false

/-- The key a number is stored under: a float with an integral value counts as
the integer. -/
def normKey : LuaVal → LuaVal
  | .num (.flt q) =>
      if q.den = 1 ∧ -(2 ^ 63) ≤ q.num ∧ q.num < 2 ^ 63 then .num (.int q.num)
      else .num (.flt q)
  | k => k

/-- `t[ k ]`, for a key as it is stored. -/
def get (es : Entries) (k : LuaVal) : LuaVal :=
  match es.find? fun e => sameKey e.1 k with
  | none => .nil
  | some e => e.2

/-- `t[ k ] = v`, for a key as it is stored. -/
def set (es : Entries) (k v : LuaVal) : Entries :=
  match v with
  | .nil => es.filter fun e => !sameKey e.1 k
  | v =>
      if es.any fun e => sameKey e.1 k then
        es.map fun e => if sameKey e.1 k then (e.1, v) else e
      else es ++ [(k, v)]

theorem sameKey_str {s t : Str} : sameKey (.str s) (.str t) = true ↔ s = t := by
  simp [sameKey]

/-- A new field goes to the end. -/
theorem set_of_notMem {es : Entries} {k v : LuaVal} (hv : v ≠ .nil)
    (hk : ∀ e ∈ es, sameKey e.1 k = false) : set es k v = es ++ [(k, v)] := by
  have hnew : (es.any fun e => sameKey e.1 k) = false := by
    rw [List.any_eq_false]
    intro e he
    rw [hk e he]
    simp
  cases v with
  | nil => exact absurd rfl hv
  | _ => simp [set, hnew]

theorem set_of_ne_nil {v : LuaVal} (hv : v ≠ .nil) (es : Entries) (k : LuaVal) :
    set es k v = if (es.any fun e => sameKey e.1 k) = true then
      es.map fun e => if sameKey e.1 k = true then (e.1, v) else e else es ++ [(k, v)] := by
  cases v with
  | nil => exact absurd rfl hv
  | _ => rfl

/-- What an assignment leaves of a field under another key. -/
def replaced (k v : LuaVal) (e : LuaVal × LuaVal) : LuaVal × LuaVal :=
  if sameKey e.1 k = true then (e.1, v) else e

/-- Looking for a key in a table with one value replaced. -/
theorem find_map_replaced (es : Entries) (k v k' : LuaVal) :
    (es.map (replaced k v)).find? (fun e => sameKey e.1 k') =
      (es.find? fun e => sameKey e.1 k').map (replaced k v) := by
  have hkey : (fun e => sameKey e.1 k') ∘ replaced k v = fun e => sameKey e.1 k' := by
    funext e
    show sameKey (replaced k v e).1 k' = sameKey e.1 k'
    unfold replaced
    split
    · rfl
    · rfl
  rw [List.find?_map, hkey]

/-- A field is what was assigned to it last. -/
theorem get_set_self {v : LuaVal} (hv : v ≠ .nil) (es : Entries) {k : LuaVal}
    (hk : sameKey k k = true) : get (set es k v) k = v := by
  rw [set_of_ne_nil hv]
  split
  case isTrue hany =>
    show (match (es.map (replaced k v)).find? (fun e => sameKey e.1 k) with
      | none => .nil
      | some e => e.2) = v
    rw [find_map_replaced]
    cases hfind : es.find? (fun e => sameKey e.1 k) with
    | none =>
        obtain ⟨e, he, hsame⟩ := List.any_eq_true.mp hany
        exact absurd hsame (List.find?_eq_none.mp hfind e he)
    | some e =>
        have hsame := List.find?_some (p := fun e : LuaVal × LuaVal => sameKey e.1 k) hfind
        show (replaced k v e).2 = v
        unfold replaced
        rw [if_pos hsame]
  case isFalse hany =>
    have hnone : es.find? (fun e => sameKey e.1 k) = none := by
      rw [List.find?_eq_none]
      intro e he hsame
      exact hany (List.any_eq_true.mpr ⟨e, he, hsame⟩)
    unfold get
    rw [List.find?_append, hnone]
    simp [hk]

/-- Another field is what it was. -/
theorem get_set_of_ne {v : LuaVal} (hv : v ≠ .nil) (es : Entries) {k k' : LuaVal}
    (hne : ∀ key, sameKey key k = true → sameKey key k' = false)
    (hkk : sameKey k k' = false) : get (set es k v) k' = get es k' := by
  rw [set_of_ne_nil hv]
  split
  case isTrue hany =>
    show (match (es.map (replaced k v)).find? (fun e => sameKey e.1 k') with
      | none => .nil
      | some e => e.2) = get es k'
    rw [find_map_replaced]
    unfold get
    cases hfind : es.find? (fun e => sameKey e.1 k') with
    | none => rfl
    | some e =>
        have hsame := List.find?_some (p := fun e : LuaVal × LuaVal => sameKey e.1 k') hfind
        have hother : sameKey e.1 k ≠ true := by
          intro h
          simp [hne e.1 h] at hsame
        show (replaced k v e).2 = e.2
        unfold replaced
        rw [if_neg hother]
  case isFalse =>
    unfold get
    rw [List.find?_append]
    simp [hkk]

/-! ## Several assignments -/

theorem set_nil (es : Entries) (k : LuaVal) : set es k .nil = es.filter fun e => !sameKey e.1 k :=
  rfl

/-- A field that nil was assigned to is gone. -/
theorem get_set_nil_self (es : Entries) (k : LuaVal) : get (set es k .nil) k = .nil := by
  have hnone : (es.filter fun e => !sameKey e.1 k).find? (fun e => sameKey e.1 k) = none := by
    rw [List.find?_eq_none]
    intro e he hsame
    have hkept := (List.mem_filter.mp he).2
    rw [hsame] at hkept
    cases hkept
  rw [set_nil]
  unfold get
  rw [hnone]

/-- Deleting a key leaves the others as they are. -/
theorem get_set_nil_of_ne (es : Entries) {k k' : LuaVal}
    (hne : ∀ key, sameKey key k = true → sameKey key k' = false) :
    get (set es k .nil) k' = get es k' := by
  have hfind : (es.filter fun e => !sameKey e.1 k).find? (fun e => sameKey e.1 k') =
      es.find? fun e => sameKey e.1 k' := by
    rw [List.find?_filter]
    congr 1
    funext e
    cases hsame : sameKey e.1 k with
    | true => simp [hne e.1 hsame]
    | false => simp
  rw [set_nil]
  unfold get
  rw [hfind]

/-- A string is the same key as itself only. -/
theorem sameKey_str_of_sameKey {name : Str} {key k' : LuaVal} (h : sameKey key (.str name) = true)
    (hne : sameKey (.str name) k' = false) : sameKey key k' = false := by
  cases key with
  | str s =>
      rw [sameKey_str] at h
      rw [h]
      exact hne
  | _ => cases h

/-- Assignments to fields with names, one behind the other. -/
def assign (es : Entries) (as : List (Str × LuaVal)) : Entries :=
  as.foldl (fun es a => set es (.str a.1) a.2) es

/-- A field that nothing is assigned to. -/
theorem get_assign_of_notMem (es : Entries) {as : List (Str × LuaVal)} {k : LuaVal}
    (h : ∀ a ∈ as, sameKey (.str a.1) k = false) : get (assign es as) k = get es k := by
  induction as generalizing es with
  | nil => rfl
  | cons a as ih =>
      rw [List.forall_mem_cons] at h
      show get (assign (set es (.str a.1) a.2) as) k = get es k
      rw [ih _ h.2]
      have hother : ∀ key, sameKey key (.str a.1) = true → sameKey key k = false :=
        fun key hkey => sameKey_str_of_sameKey hkey h.1
      by_cases hnil : a.2 = .nil
      case pos =>
        rw [hnil]
        exact get_set_nil_of_ne es hother
      case neg => exact get_set_of_ne hnil es hother h.1

/-- A field that a value is assigned to, and to no other field of its name. -/
theorem get_assign_of_mem (es : Entries) {as : List (Str × LuaVal)}
    (hnodup : (as.map fun a => a.1).Nodup) {name : Str} {v : LuaVal} (h : (name, v) ∈ as) :
    get (assign es as) (.str name) = v := by
  induction as generalizing es with
  | nil => exact absurd h List.not_mem_nil
  | cons a as ih =>
      rw [List.map_cons, List.nodup_cons] at hnodup
      show get (assign (set es (.str a.1) a.2) as) (.str name) = v
      rcases List.mem_cons.mp h with rfl | h
      · have hrest : ∀ b ∈ as, sameKey (.str b.1) (.str name) = false := by
          intro b hb
          rw [Bool.eq_false_iff]
          intro hsame
          have hmem : b.1 ∈ as.map fun a => a.1 := List.mem_map_of_mem hb
          rw [sameKey_str.mp hsame] at hmem
          exact hnodup.1 hmem
        rw [get_assign_of_notMem _ hrest]
        by_cases hnil : v = .nil
        case pos =>
          rw [hnil]
          exact get_set_nil_self es (.str name)
        case neg => exact get_set_self hnil es (sameKey_str.mpr rfl)
      · exact ih _ hnodup.2 h

/-! ## Sorting keys -/

/-- Strings in the order of their bytes. -/
def strLe : Str → Str → Bool
  | [], _ => true
  | _ :: _, [] => false
  | a :: s, b :: t => a < b || (a == b && strLe s t)

/-- The order of two keys of one kind. -/
def keyLe : LuaVal → LuaVal → Bool
  | .str s, .str t => strLe s t
  | .num m, .num n => m.le n
  | _, _ => true

/-- What stands behind sorted keys. -/
def sortKeys {β : Type} (es : List (LuaVal × β)) : List (LuaVal × β) :=
  es.insertionSort fun a b => keyLe a.1 b.1 = true

theorem perm_sortKeys {β : Type} (es : List (LuaVal × β)) : (sortKeys es).Perm es :=
  List.perm_insertionSort _ es

theorem mem_sortKeys {β : Type} {es : List (LuaVal × β)} {e : LuaVal × β} :
    e ∈ sortKeys es ↔ e ∈ es := (perm_sortKeys es).mem_iff

/-- What is behind the keys has no influence on their order. -/
theorem sortKeys_map {β γ : Type} (f : LuaVal → β → γ) (es : List (LuaVal × β)) :
    sortKeys (es.map fun e => (e.1, f e.1 e.2)) =
      (sortKeys es).map fun e => (e.1, f e.1 e.2) :=
  (List.map_insertionSort (fun a b : LuaVal × β => keyLe a.1 b.1 = true)
    (fun a b : LuaVal × γ => keyLe a.1 b.1 = true) (fun e => (e.1, f e.1 e.2)) es
    fun _ _ _ _ => Iff.rfl).symm

/-- A table whose keys are sorted already. -/
theorem sortKeys_eq_self {β : Type} {es : List (LuaVal × β)}
    (h : es.Pairwise fun a b => keyLe a.1 b.1 = true) : sortKeys es = es :=
  List.Pairwise.insertionSort_eq h

theorem byte_trichotomy (a b : UInt8) : a < b ∨ a = b ∨ b < a := by
  rw [UInt8.lt_iff_toNat_lt, UInt8.lt_iff_toNat_lt, ← UInt8.toNat_inj]
  omega

/-- Any two strings can be compared, byte by byte as `strcoll` does in the C locale. -/
theorem strLe_total (s t : Str) : strLe s t = true ∨ strLe t s = true := by
  induction s generalizing t with
  | nil => exact Or.inl rfl
  | cons a s ih =>
      cases t with
      | nil => exact Or.inr rfl
      | cons b t =>
          rcases ih t with h | h
          · rcases byte_trichotomy a b with hlt | rfl | hlt
            · exact Or.inl (by simp [strLe, hlt])
            · exact Or.inl (by simp [strLe, h])
            · exact Or.inr (by simp [strLe, hlt])
          · rcases byte_trichotomy a b with hlt | rfl | hlt
            · exact Or.inl (by simp [strLe, hlt])
            · exact Or.inr (by simp [strLe, h])
            · exact Or.inr (by simp [strLe, hlt])

/-- And the order is transitive.  The induction follows the three strings at once. -/
theorem strLe_trans {s t u : Str} (h : strLe s t = true) (h' : strLe t u = true) :
    strLe s u = true := by
  induction s generalizing t u with
  | nil => rfl
  | cons a s ih =>
      cases t with
      | nil => simp [strLe] at h
      | cons b t =>
          cases u with
          | nil => simp [strLe] at h'
          | cons c u =>
              simp only [strLe, Bool.or_eq_true, Bool.and_eq_true, decide_eq_true_eq,
                beq_iff_eq] at h h' ⊢
              rcases h with hlt | ⟨rfl, hle⟩
              · rcases h' with hlt' | ⟨rfl, -⟩
                · exact Or.inl (UInt8.lt_trans hlt hlt')
                · exact Or.inl hlt
              · rcases h' with hlt' | ⟨rfl, hle'⟩
                · exact Or.inl hlt'
                · exact Or.inr ⟨rfl, ih hle hle'⟩

/-- Keys that are all of the form `w k`, with an order of their own. -/
theorem pairwise_sortKeys {κ β : Type} {w : κ → LuaVal} {r : κ → κ → Prop}
    [DecidableRel r] [Std.Total r] [IsTrans κ r]
    (hle : ∀ k k', keyLe (w k) (w k') = true ↔ r k k') (es : List (κ × β)) :
    (sortKeys (es.map fun e => (w e.1, e.2))).Pairwise fun a b => keyLe a.1 b.1 = true := by
  have htotal : Std.Total fun a b : κ × β => r a.1 b.1 := ⟨fun a b => Std.Total.total a.1 b.1⟩
  have htrans : IsTrans (κ × β) fun a b => r a.1 b.1 :=
    ⟨fun a b c hab hbc => IsTrans.trans a.1 b.1 c.1 hab hbc⟩
  have hsorted := List.pairwise_insertionSort (fun a b : κ × β => r a.1 b.1) es
  have hmap : sortKeys (es.map fun e => (w e.1, e.2)) =
      (es.insertionSort fun a b => r a.1 b.1).map fun e => (w e.1, e.2) :=
    (List.map_insertionSort (fun a b : κ × β => r a.1 b.1)
      (fun a b : LuaVal × β => keyLe a.1 b.1 = true) (fun e => (w e.1, e.2)) es
      fun a _ b _ => (hle a.1 b.1).symm).symm
  rw [hmap, List.pairwise_map]
  exact hsorted.imp fun h => (hle _ _).mpr h

mutual

/-- The same value, with the keys of every table in it sorted. -/
def normal : LuaVal → LuaVal
  | .table es => .table (sortKeys (normalEntries es))
  | .nil => .nil
  | .bool b => .bool b
  | .num n => .num n
  | .str s => .str s
  | .other => .other

def normalEntries : Entries → Entries
  | [] => []
  | (k, v) :: es => (k, normal v) :: normalEntries es

end

theorem normalEntries_eq (es : Entries) :
    normalEntries es = es.map fun e => (e.1, normal e.2) := by
  induction es with
  | nil => rfl
  | cons e es ih => exact congrArg _ ih

theorem normal_table (es : Entries) :
    normal (.table es) = .table ((sortKeys es).map fun e => (e.1, normal e.2)) := by
  rw [normal, normalEntries_eq, sortKeys_map fun _ => normal]

/-! ## Deep equality -/

/-- The two values agree all the way down: scalars are equal, and the entries
of two tables can be matched, key by key. -/
inductive DeepEq : LuaVal → LuaVal → Prop where
  | nil : DeepEq .nil .nil
  | bool (b : Bool) : DeepEq (.bool b) (.bool b)
  | num (n : LuaNum) : DeepEq (.num n) (.num n)
  | str (s : Str) : DeepEq (.str s) (.str s)
  | table {es es' : Entries} (matched : List (LuaVal × LuaVal × LuaVal))
      (hleft : es.Perm (matched.map fun m => (m.1, m.2.1)))
      (hright : es'.Perm (matched.map fun m => (m.1, m.2.2)))
      (h : ∀ m ∈ matched, DeepEq m.2.1 m.2.2) : DeepEq (.table es) (.table es')

/-- Sorting keys does not show, entry by entry. -/
theorem deepEq_normal_table {es : Entries} (h : ∀ e ∈ es, DeepEq e.2 (normal e.2)) :
    DeepEq (.table es) (normal (.table es)) := by
  rw [normal_table]
  refine .table (es.map fun e => (e.1, e.2, normal e.2)) ?_ ?_ ?_
  · have hsame : (es.map fun e => (e.1, e.2, normal e.2)).map (fun m => (m.1, m.2.1)) = es := by
      rw [List.map_map]
      exact List.map_id es
    rw [hsame]
  · rw [List.map_map]
    exact (perm_sortKeys es).map _
  · intro m hm
    obtain ⟨e, he, rfl⟩ := List.mem_map.mp hm
    exact h e he

/-! ## Sequences -/

/-- The entries of a sequence, from this index on. -/
def seqFrom (i : Nat) : List LuaVal → Entries
  | [] => []
  | v :: l => (.num (.int (i + 1 : Nat)), v) :: seqFrom (i + 1) l

/-- The entries of `{ v, .. }`. -/
def seq (l : List LuaVal) : Entries := seqFrom 0 l

/-- The elements of a table from this index on, up to the first that is absent. -/
def elementsFrom (es : Entries) : Nat → Nat → List LuaVal
  | 0, _ => []
  | n + 1, i =>
      match get es (.num (.int (i + 1 : Nat))) with
      | .nil => []
      | v => v :: elementsFrom es n (i + 1)

/-- What `ipairs` goes through. -/
def elements : LuaVal → List LuaVal
  | .table es => elementsFrom es es.length 0
  | _ => []

theorem seqFrom_map (f : LuaVal → LuaVal) (i : Nat) (l : List LuaVal) :
    seqFrom i (l.map f) = (seqFrom i l).map fun e => (e.1, f e.2) := by
  induction l generalizing i with
  | nil => rfl
  | cons v l ih =>
      rw [List.map_cons, seqFrom, seqFrom, ih, List.map_cons]

theorem length_seqFrom (i : Nat) (l : List LuaVal) : (seqFrom i l).length = l.length := by
  induction l generalizing i with
  | nil => rfl
  | cons v l ih => rw [seqFrom, List.length_cons, List.length_cons, ih]

/-- The keys from an index on. -/
theorem mem_seqFrom {i : Nat} {l : List LuaVal} {e : LuaVal × LuaVal} (h : e ∈ seqFrom i l) :
    ∃ k, i < k ∧ k ≤ i + l.length ∧ e.1 = .num (.int (k : Nat)) ∧ e.2 ∈ l := by
  induction l generalizing i with
  | nil => simp [seqFrom] at h
  | cons v l ih =>
      rw [seqFrom, List.mem_cons] at h
      rw [List.length_cons]
      rcases h with rfl | h
      · exact ⟨i + 1, by omega, by omega, rfl, by simp⟩
      · obtain ⟨k, hlt, hle, hkey, hmem⟩ := ih h
        exact ⟨k, by omega, by omega, hkey, by simp [hmem]⟩

/-- The entries of a sequence come in the order of their indices. -/
theorem sorted_seqFrom (i : Nat) (l : List LuaVal) :
    (seqFrom i l).Pairwise fun a b => keyLe a.1 b.1 = true := by
  induction l generalizing i with
  | nil => exact .nil
  | cons v l ih =>
      rw [seqFrom]
      refine .cons ?_ (ih (i + 1))
      intro e he
      obtain ⟨k, hlt, -, hkey, -⟩ := mem_seqFrom he
      rw [hkey]
      simp [keyLe, LuaNum.le]
      omega

/-- No index comes twice. -/
theorem distinct_seqFrom (i : Nat) (l : List LuaVal) :
    ((seqFrom i l).map fun e => e.1).Pairwise fun a b => sameKey a b = false := by
  induction l generalizing i with
  | nil => exact .nil
  | cons v l ih =>
      rw [seqFrom, List.map_cons]
      refine .cons ?_ (ih (i + 1))
      intro key hkey
      obtain ⟨e, he, rfl⟩ := List.mem_map.mp hkey
      obtain ⟨k, hlt, -, hkey, -⟩ := mem_seqFrom he
      rw [hkey]
      simp [sameKey]
      omega

/-- The keys of a sequence are sorted as they are. -/
theorem normal_seq (l : List LuaVal) :
    normal (.table (seq l)) = .table (seq (l.map normal)) := by
  rw [normal_table]
  unfold seq
  rw [sortKeys_eq_self (sorted_seqFrom 0 l), seqFrom_map]

/-- A key that is not among the entries is looked for behind them. -/
theorem get_append_of_notMem {es es' : Entries} {k : LuaVal}
    (h : ∀ e ∈ es, sameKey e.1 k = false) : get (es ++ es') k = get es' k := by
  have hnone : es.find? (fun e => sameKey e.1 k) = none := by
    rw [List.find?_eq_none]
    intro e he
    simp [h e he]
  unfold get
  rw [List.find?_append, hnone]
  rfl

/-- What `ipairs` visits of a sequence are its elements.  The entries in front have smaller
indices, so they are not found. -/
theorem elementsFrom_seqFrom (es : Entries) (l : List LuaVal) (hl : ∀ v ∈ l, v ≠ .nil) (i : Nat)
    (hes : ∀ e ∈ es, ∃ k ≤ i, e.1 = .num (.int (k : Nat))) (n : Nat) (hn : l.length ≤ n) :
    elementsFrom (es ++ seqFrom i l) n i = l := by
  induction l generalizing es i n with
  | nil =>
      cases n with
      | zero => rfl
      | succ n =>
          have habsent : get (es ++ seqFrom i []) (.num (.int (i + 1 : Nat))) = .nil := by
            rw [get_append_of_notMem]
            · rfl
            · intro e he
              obtain ⟨k, hk, hkey⟩ := hes e he
              rw [hkey]
              simp [sameKey]
              omega
          rw [elementsFrom, habsent]
  | cons v l ih =>
      obtain ⟨n, rfl⟩ : ∃ n', n = n' + 1 := ⟨n - 1, by simp at hn; omega⟩
      have hv : v ≠ .nil := hl v (by simp)
      have hhere : get (es ++ seqFrom i (v :: l)) (.num (.int (i + 1 : Nat))) = v := by
        rw [get_append_of_notMem]
        · simp [get, seqFrom, sameKey]
        · intro e he
          obtain ⟨k, hk, hkey⟩ := hes e he
          rw [hkey]
          simp [sameKey]
          omega
      have hkeys : ∀ e ∈ es ++ [((.num (.int (i + 1 : Nat)) : LuaVal), v)],
          ∃ k ≤ i + 1, e.1 = .num (.int (k : Nat)) := by
        intro e he
        rcases List.mem_append.mp he with he | he
        · obtain ⟨k, hk, hkey⟩ := hes e he
          exact ⟨k, by omega, hkey⟩
        · rw [List.mem_singleton.mp he]
          exact ⟨i + 1, le_refl _, rfl⟩
      have hrest := ih _ (fun w hw => hl w (by simp [hw])) (i + 1) hkeys n
        (by simp at hn; omega)
      rw [List.append_assoc] at hrest
      rw [elementsFrom, hhere]
      cases v with
      | nil => exact absurd rfl hv
      | _ => exact congrArg _ hrest

theorem elements_seq {l : List LuaVal} (hl : ∀ v ∈ l, v ≠ .nil) :
    elements (.table (seq l)) = l := by
  have h := elementsFrom_seqFrom [] l hl 0 (by simp) (seq l).length
    (by unfold seq; rw [length_seqFrom])
  rw [List.nil_append] at h
  exact h

/-- The elements of a table that has no other fields. -/
def sequence : LuaVal → Option (List LuaVal)
  | .table es =>
      if (elements (.table es)).length = es.length then some (elements (.table es)) else none
  | _ => none

theorem sequence_seq {l : List LuaVal} (hl : ∀ v ∈ l, v ≠ .nil) :
    sequence (.table (seq l)) = some l := by
  have hlen : (seq l).length = l.length := length_seqFrom 0 l
  show (if (elements (.table (seq l))).length = (seq l).length then
    some (elements (.table (seq l))) else none) = some l
  rw [elements_seq hl, if_pos hlen.symm]

end LuadchAnnouncer.Verified.LuaTable
