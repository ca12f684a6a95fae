import LuadchAnnouncer.Verified.LuaData

/-!
# Records

A record is a storable table whose keys are all strings, the names of its
fields.  An assignment to a field keeps it one, and sorting its keys does not
show when a field is read.

## Main results

* `Record.set`, `Record.assign` — records are kept by assignments.
* `levels_assign` — and get no deeper.
* `Record.field_normal` — a field of a record that is written and read back.
-/

namespace LuadchAnnouncer.Verified.LuaRecord

open LuadchAnnouncer.Verified.Bytes
open LuadchAnnouncer.Verified.LuaValue
open LuadchAnnouncer.Verified.LuaTable
open LuadchAnnouncer.Verified.LuaData

/-- A storable table with names for its fields. -/
structure Record (es : Entries) : Prop where
  storable : Storable (.table es)
  strings : (es.map fun e => e.1).all strKey = true

/-- `v[ name ]` -/
def field (v : LuaVal) (name : Str) : LuaVal :=
  match v with
  | .table es => get es (.str name)
  | _ => .nil

theorem sameKey_name {k : LuaVal} {name : Str} : sameKey k (.str name) = true ↔ k = .str name := by
  cases k with
  | str s => simp [sameKey]
  | _ => simp [sameKey]

theorem Record.keys {es : Entries} (h : Record es) : Keys (es.map fun e => e.1) := by
  cases h.storable with
  | table hkeys _ => exact hkeys

theorem Record.values {es : Entries} (h : Record es) : ∀ e ∈ es, Storable e.2 := by
  cases h.storable with
  | table _ hvalues => exact hvalues

/-! ## Assignments -/

/-- The keys behind an assignment. -/
theorem map_fst_set {v : LuaVal} (hv : v ≠ .nil) (es : Entries) (name : Str) :
    (set es (.str name) v).map (fun e => e.1) = es.map (fun e => e.1) ∨
      (set es (.str name) v).map (fun e => e.1) = es.map (fun e => e.1) ++ [.str name] ∧
        ∀ e ∈ es, sameKey e.1 (.str name) = false := by
  rw [set_of_ne_nil hv]
  split
  case isTrue =>
    left
    rw [List.map_map]
    apply List.map_congr_left
    intro e _
    show (replaced (.str name) v e).1 = e.1
    unfold replaced
    split
    · rfl
    · rfl
  case isFalse hany =>
    right
    constructor
    · rw [List.map_append]
      rfl
    · intro e he
      have hne : ¬ sameKey e.1 (.str name) = true := fun hsame =>
        hany (List.any_eq_true.mpr ⟨e, he, hsame⟩)
      simpa using hne

/-- An assignment leaves the entries that were there, but for its own. -/
theorem mem_set {v : LuaVal} (hv : v ≠ .nil) {es : Entries} {name : Str} {e : LuaVal × LuaVal}
    (he : e ∈ set es (.str name) v) :
    e ∈ es ∨ e = (.str name, v) := by
  rw [set_of_ne_nil hv] at he
  split at he
  case isTrue =>
    obtain ⟨e', he', rfl⟩ := List.mem_map.mp he
    split
    case isTrue hsame =>
      right
      rw [sameKey_name.mp hsame]
    case isFalse => exact Or.inl he'
  case isFalse =>
    rcases List.mem_append.mp he with he | he
    · exact Or.inl he
    · exact Or.inr (List.mem_singleton.mp he)

/-- An assignment to a field of a record. -/
theorem Record.set {es : Entries} (h : Record es) (name : Str) {v : LuaVal} (hv : Storable v) :
    Record (set es (.str name) v) := by
  have hkeys : ((LuaTable.set es (.str name) v).map fun e => e.1).Pairwise
      (fun a b => sameKey a b = false) ∧
      ((LuaTable.set es (.str name) v).map fun e => e.1).all strKey = true := by
    rcases map_fst_set hv.ne_nil es name with hsame | ⟨hnew, hfresh⟩
    · rw [hsame]
      exact ⟨h.keys.distinct, h.strings⟩
    · rw [hnew, List.pairwise_append, List.all_append, h.strings]
      refine ⟨⟨h.keys.distinct, List.pairwise_singleton _ _, ?_⟩, rfl⟩
      intro a ha b hb
      obtain ⟨e, he, rfl⟩ := List.mem_map.mp ha
      rw [List.mem_singleton.mp hb]
      exact hfresh e he
  constructor
  · refine .table ⟨hkeys.1, Or.inl hkeys.2⟩ ?_
    intro e he
    rcases mem_set hv.ne_nil he with he | rfl
    · exact h.values e he
    · exact hv
  · exact hkeys.2

/-- A field is assigned a value, and the table gets no deeper than this value and what there
was. -/
theorem levels_set {es : Entries} {name : Str} {v : LuaVal} (hv : v ≠ .nil) {n : Nat}
    (hes : levels (.table es) ≤ n + 1) (hlevels : levels v ≤ n) (hn : 0 < n) :
    levels (.table (set es (.str name) v)) ≤ n + 1 := by
  rw [levels] at hes ⊢
  have hfields : fieldLevels es ≤ n := by omega
  rw [fieldLevels_le] at hfields
  have hset : fieldLevels (set es (.str name) v) ≤ n := by
    rw [fieldLevels_le]
    intro e he
    rcases mem_set hv he with he | rfl
    · exact hfields e he
    · exact ⟨hn, hlevels⟩
  omega

/-- A field that is deleted leaves a record. -/
theorem Record.set_nil {es : Entries} (h : Record es) (name : Str) :
    Record (LuaTable.set es (.str name) .nil) := by
  have hsub : (LuaTable.set es (.str name) .nil).Sublist es := List.filter_sublist
  have hstrings : ((LuaTable.set es (.str name) .nil).map fun e => e.1).all strKey = true := by
    rw [List.all_eq_true]
    exact fun k hk => List.all_eq_true.mp h.strings k ((hsub.map _).subset hk)
  constructor
  · refine .table ⟨h.keys.distinct.sublist (hsub.map _), Or.inl hstrings⟩ ?_
    exact fun e he => h.values e (hsub.subset he)
  · exact hstrings

/-- And no deeper one. -/
theorem levels_set_nil {es : Entries} {name : Str} {n : Nat} (hes : levels (.table es) ≤ n + 1) :
    levels (.table (set es (.str name) .nil)) ≤ n + 1 := by
  rw [levels] at hes ⊢
  have hfields : fieldLevels es ≤ n := by omega
  rw [fieldLevels_le] at hfields
  have hset : fieldLevels (set es (.str name) .nil) ≤ n := by
    rw [fieldLevels_le]
    exact fun e he => hfields e (List.mem_of_mem_filter he)
  omega

/-- Assignments keep a record one. -/
theorem Record.assign {es : Entries} (h : Record es) {as : List (Str × LuaVal)}
    (has : ∀ a ∈ as, a.2 = .nil ∨ Storable a.2) : Record (assign es as) := by
  induction as generalizing es with
  | nil => exact h
  | cons a as ih =>
      rw [List.forall_mem_cons] at has
      show Record (LuaTable.assign (LuaTable.set es (.str a.1) a.2) as)
      apply ih
      · rcases has.1 with hnil | hstorable
        · rw [hnil]
          exact h.set_nil a.1
        · exact h.set a.1 hstorable
      · exact has.2

/-- So it is with a list of assignments. -/
theorem levels_assign {es : Entries} {as : List (Str × LuaVal)} {n : Nat} (hn : 0 < n)
    (hes : levels (.table es) ≤ n + 1) (has : ∀ a ∈ as, levels a.2 ≤ n) :
    levels (.table (assign es as)) ≤ n + 1 := by
  induction as generalizing es with
  | nil => exact hes
  | cons a as ih =>
      rw [List.forall_mem_cons] at has
      show levels (.table (assign (set es (.str a.1) a.2) as)) ≤ n + 1
      apply ih
      · by_cases hnil : a.2 = .nil
        case pos =>
          rw [hnil]
          exact levels_set_nil hes
        case neg => exact levels_set hnil hes has.1 hn
      · exact has.2

theorem field_set_self {v : LuaVal} (hv : v ≠ .nil) (es : Entries) (name : Str) :
    field (.table (set es (.str name) v)) name = v :=
  get_set_self hv es (sameKey_str.mpr rfl)

/-- The other fields are left alone. -/
theorem field_set_of_ne {v : LuaVal} (hv : v ≠ .nil) (es : Entries) {name other : Str}
    (hne : name ≠ other) :
    field (.table (set es (.str name) v)) other = field (.table es) other := by
  have hother : sameKey (.str name) (.str other) = false := by
    rw [Bool.eq_false_iff]
    intro hsame
    exact hne (sameKey_str.mp hsame)
  apply get_set_of_ne hv es
  · intro key hkey
    rw [sameKey_name.mp hkey]
    exact hother
  · exact hother

/-! ## Sorting the keys -/

/-- There is one field of a name. -/
theorem get_of_mem {es : Entries} (hdistinct : (es.map fun e => e.1).Pairwise
    fun a b => sameKey a b = false) {name : Str} {v : LuaVal} (h : (.str name, v) ∈ es) :
    get es (.str name) = v := by
  induction es with
  | nil => simp at h
  | cons e es ih =>
      rw [List.map_cons, List.pairwise_cons] at hdistinct
      rw [List.mem_cons] at h
      unfold LuaTable.get
      rw [List.find?_cons]
      rcases h with rfl | h
      · simp [sameKey]
      · have hother := hdistinct.1 (.str name) (List.mem_map_of_mem h)
        rw [hother]
        exact ih hdistinct.2 h

/-- A name that is no key has no value. -/
theorem get_eq_nil {es : Entries} {name : Str} (h : ∀ e ∈ es, e.1 ≠ .str name) :
    get es (.str name) = .nil := by
  have hnone : es.find? (fun e => sameKey e.1 (.str name)) = none := by
    rw [List.find?_eq_none]
    intro e he hsame
    exact h e he (sameKey_name.mp hsame)
  unfold LuaTable.get
  rw [hnone]

/-- A field of a record with its keys sorted. -/
theorem Record.field_normal {es : Entries} (h : Record es) (name : Str) :
    field (normal (.table es)) name = normal (field (.table es) name) := by
  rw [normal_table]
  show get ((sortKeys es).map fun e => (e.1, normal e.2)) (.str name) = normal (get es (.str name))
  by_cases hfield : ∃ v, (.str name, v) ∈ es
  case pos =>
    obtain ⟨v, hv⟩ := hfield
    have hsorted : (.str name, normal v) ∈ (sortKeys es).map fun e => (e.1, normal e.2) :=
      List.mem_map.mpr ⟨(.str name, v), mem_sortKeys.mpr hv, rfl⟩
    rw [get_of_mem h.keys.distinct hv, get_of_mem h.keys.normal.distinct hsorted]
  case neg =>
    have habsent : ∀ e ∈ es, e.1 ≠ .str name := by
      intro e he hkey
      exact hfield ⟨e.2, by rw [← hkey]; exact he⟩
    rw [get_eq_nil habsent, get_eq_nil]
    · rfl
    · intro e he
      obtain ⟨e', he', rfl⟩ := List.mem_map.mp he
      exact habsent e' (mem_sortKeys.mp he')

/-- It is a record then, too. -/
theorem Record.sorted {es : Entries} (h : Record es) :
    Record ((sortKeys es).map fun e => (e.1, normal e.2)) := by
  constructor
  · rw [← normal_table]
    exact h.storable.normal
  · rw [List.map_map, List.all_eq_true]
    intro k hk
    obtain ⟨e, he, rfl⟩ := List.mem_map.mp hk
    exact List.all_eq_true.mp h.strings e.1 (List.mem_map_of_mem (mem_sortKeys.mp he))

/-- A record has no other fields. -/
theorem Record.get_eq_nil {es : Entries} (h : Record es) {k : LuaVal} (hk : strKey k = false) :
    get es k = .nil := by
  have hnone : es.find? (fun e => sameKey e.1 k) = none := by
    rw [List.find?_eq_none]
    intro e he hsame
    have hstr := List.all_eq_true.mp h.strings e.1 (List.mem_map_of_mem he)
    cases hkey : e.1 with
    | str s =>
        rw [hkey] at hsame
        cases k with
        | str t => cases hk
        | _ => cases hsame
    | _ =>
        rw [hkey] at hstr
        cases hstr
  unfold LuaTable.get
  rw [hnone]

/-- A field of a record is absent or can be stored. -/
theorem Record.get_storable {es : Entries} (h : Record es) (k : LuaVal) :
    get es k = .nil ∨ Storable (get es k) := by
  unfold LuaTable.get
  cases hfind : es.find? fun e => sameKey e.1 k with
  | none => exact Or.inl rfl
  | some e => exact Or.inr (h.values e (List.mem_of_find?_eq_some hfind))

theorem Record.deepEq_get {es : Entries} (h : Record es) (k : LuaVal) :
    DeepEq (get es k) (normal (get es k)) := by
  rcases h.get_storable k with hnil | hstorable
  · rw [hnil]
    exact .nil
  · exact hstorable.deepEq_normal

end LuadchAnnouncer.Verified.LuaRecord
