import LuadchAnnouncer.Core.Util
import LuadchAnnouncer.Verified.Writing

/-!
# What is left of a file that is saved

`savetable` opens the file, which empties it, and writes into it piece by piece; it
raises in the middle of that when a key cannot be written, and does not look at
whether the pieces land.  `savetable_atomic` does the same with a file beside it and
then puts that in place, with the old one removed first.

This file is both of them with everything that can go wrong: `savetable_eq` says
that they are the functions of `Core/Util.lean` when nothing does,
`savetable_harmless_iff` for which tables `savetable` is safe, and
`savetableAtomic_iff` for which failures `savetable_atomic` is all or nothing.

## Main results

* `text_serializeWrites` — the writes of a table, one after the other, are its text.
* `savetable_eq` — without a failure these are the functions of `Core/Util.lean`.
* `savetable_harmless_iff` — the tables that may be saved.
* `savetableAtomic_iff` — the failures at which the old file or the new one is there.
-/

namespace LuadchAnnouncer.Core.SaveTable

open LuadchAnnouncer.Verified.Bytes
open LuadchAnnouncer.Verified.LuaValue
open LuadchAnnouncer.Verified.LuaTable
open LuadchAnnouncer.Verified.LuaLiteral
open LuadchAnnouncer.Verified.LuaData
open LuadchAnnouncer.Verified.Writing
open LuadchAnnouncer.Core.Util

/-! ## The calls of `file:write` -/

abbrev Writes := Output UInt8 LuaError

/-- The rest of a turn, with the text of its key. -/
def withKey (key : LuaVal) (rest : Str → Writes) : Writes :=
  match skey key with
  | .error e => .raise e
  | .ok skey => rest skey

def header (r : Bool) : Str := if r then lit "return \x7b\n\n" else lit " = \x7b\n\n"

/-- The table around fields whose writes are known. -/
def encloseWrites (name tab : Str) (r : Bool) (fields : List (LuaVal × Writes)) : Writes :=
  match checkKeys (fields.map fun f => f.1) with
  | .error e => .raise e
  | .ok () =>
      (Output.write (tab ++ name ++ header r)).andThen
        ((Output.seq ((sortKeys fields).map fun f => f.2)).andThen
          ((Output.write (lit "\n")).andThen (Output.write (tab ++ lit "\x7d"))))

mutual

/-- One turn of the second loop of `sortserialize`. -/
def fieldWrites (tab : Str) (key : LuaVal) : LuaVal → Writes
  | .other => .done
  | .table tbl =>
      withKey key fun skey =>
        (encloseWrites skey (tab ++ indent) false (fieldsWrites (tab ++ indent) tbl)).andThen
          (Output.write (lit ",\n"))
  | v =>
      withKey key fun skey =>
        (Output.write (tab ++ indent ++ skey ++ lit " = " ++ svalue v)).andThen
          (Output.write (lit ",\n"))

def fieldsWrites (tab : Str) : Entries → List (LuaVal × Writes)
  | [] => []
  | (key, v) :: tbl => (key, fieldWrites tab key v) :: fieldsWrites tab tbl

end

/-- `sortserialize( tbl, name, file, tab, r )` -/
def sortserializeWrites (tbl : Entries) (name tab : Str) (r : Bool) : Writes :=
  encloseWrites name tab r (fieldsWrites tab tbl)

/-- What `savetable` writes. -/
def serializeWrites (tbl : Entries) (name : Str) : Writes :=
  if name = [] then sortserializeWrites tbl name [] true
  else (sortserializeWrites tbl name [] false).andThen (Output.write (lit "\n\nreturn " ++ name))

/-! ## The functions, with what can go wrong -/

/-- A call that has come to its end, or has raised. -/
structure Ended where
  outcome : Except LuaError Bool
  files : Files

/-- `savetable( tbl, name, path )` -/
def savetable (opens : Bool) (medium : Medium) (tbl : Entries) (name path : Str) (files : Files) :
    Ended :=
  if opens then
    { outcome := match (serializeWrites tbl name).raised with
        | some e => .error e
        | none => .ok true
      files := Function.update files path
        (some (medium.landed (serializeWrites tbl name).writes)) }
  else { outcome := .ok false, files := files }

/-- What becomes of the steps: whether the file beside can be opened, how much of each
write lands, and what removing and renaming come to. -/
structure Steps where
  /-- `io.open( tmp, "w+" )` -/
  opens : Bool
  /-- the calls of `file:write`, and `file:close( )` -/
  medium : Medium
  /-- `os.remove( path )` -/
  removes : Bool
  /-- `os.rename( tmp, path )` -/
  renames : Bool
  /-- `os.remove( tmp )` -/
  removesTmp : Bool

def remove (done : Bool) (path : Str) (files : Files) : Files :=
  if done then Function.update files path none else files

def tmpOf (path : Str) : Str := path ++ lit ".tmp"

/-- `savetable_atomic( tbl, name, path )` -/
def savetableAtomic (steps : Steps) (tbl : Entries) (name path : Str) (files : Files) : Ended :=
  let saved := savetable steps.opens steps.medium tbl name (tmpOf path) files
  match saved.outcome with
  | .error e => { outcome := .error e, files := saved.files }
  | .ok false => { outcome := .ok false, files := saved.files }
  | .ok true =>
      let removed := remove steps.removes path saved.files
      if steps.renames then
        { outcome := .ok true
          files := Function.update (Function.update removed path (removed (tmpOf path)))
            (tmpOf path) none }
      else { outcome := .ok false, files := remove steps.removesTmp (tmpOf path) removed }

/-! ## The text of the writes -/

theorem text_withKey (key : LuaVal) (rest : Str → Writes) :
    (withKey key rest).text = (skey key).bind fun skey => (rest skey).text := by
  unfold withKey
  cases skey key with
  | error e => rfl
  | ok skey => rfl

/-- The writes of a table, put together, are the text between its braces. -/
theorem text_encloseWrites (name tab : Str) (r : Bool) (fields : List (LuaVal × Writes)) :
    (encloseWrites name tab r fields).text =
      enclose name tab r (fields.map fun f => (f.1, f.2.text)) := by
  have hkeys : (fields.map fun f => (f.1, f.2.text)).map (fun f => f.1) =
      fields.map fun f => f.1 := by
    rw [List.map_map]
    rfl
  have hsorted : (sortKeys (fields.map fun f => (f.1, f.2.text))).mapM (fun f => f.2) =
      ((sortKeys fields).map fun f => f.2).mapM Output.text := by
    rw [sortKeys_map fun _ (s : Writes) => s.text, List.mapM_map, List.mapM_map]
    rfl
  unfold encloseWrites enclose
  rw [hkeys, hsorted]
  cases checkKeys (fields.map fun f => f.1) with
  | error e => rfl
  | ok _ =>
      simp only [Output.text_andThen, Output.text_seq, Output.text_write]
      cases ((sortKeys fields).map fun f => f.2).mapM Output.text with
      | error e => rfl
      | ok written =>
          show Except.ok _ = Except.ok _
          simp [header]

/-- A field that is no table. -/
theorem text_plainField (tab : Str) (key : LuaVal) (svalue : Str) :
    (withKey key fun skey =>
      (Output.write (tab ++ indent ++ skey ++ lit " = " ++ svalue)).andThen
        (Output.write (lit ",\n"))).text =
      (skey key).bind fun skey =>
        .ok (tab ++ indent ++ skey ++ lit " = " ++ svalue ++ lit ",\n") := by
  rw [text_withKey]
  cases skey key with
  | error e => rfl
  | ok skey =>
      simp only [Except.bind, Output.text_andThen, Output.text_write]

mutual

/-- The writes of one field are its text, over the cases of its value. -/
theorem text_fieldWrites (tab : Str) (key : LuaVal) :
    ∀ v, (fieldWrites tab key v).text = writeField tab key v
  | .other => rfl
  | .table tbl => by
      rw [fieldWrites, writeField, text_withKey]
      cases skey key with
      | error e => rfl
      | ok skey =>
          simp only [Except.bind, Output.text_andThen, Output.text_write]
          rw [text_encloseWrites, text_fieldsWrites (tab ++ indent) tbl]
          rfl
  | .nil => text_plainField tab key (svalue .nil)
  | .bool b => text_plainField tab key (svalue (.bool b))
  | .num n => text_plainField tab key (svalue (.num n))
  | .str s => text_plainField tab key (svalue (.str s))

theorem text_fieldsWrites (tab : Str) :
    ∀ tbl : Entries, (fieldsWrites tab tbl).map (fun f => (f.1, f.2.text)) = writeFields tab tbl
  | [] => rfl
  | (key, v) :: tbl => by
      rw [fieldsWrites, writeFields, List.map_cons, text_fieldWrites tab key v,
        text_fieldsWrites tab tbl]

end

theorem text_sortserializeWrites (tbl : Entries) (name tab : Str) (r : Bool) :
    (sortserializeWrites tbl name tab r).text = sortserialize tbl name tab r := by
  unfold sortserializeWrites sortserialize
  rw [text_encloseWrites, text_fieldsWrites]

/-- The writes make up the text of the table. -/
theorem text_serializeWrites (tbl : Entries) (name : Str) :
    (serializeWrites tbl name).text = serialize tbl name := by
  unfold serializeWrites serialize
  split
  case isTrue => exact text_sortserializeWrites tbl name [] true
  case isFalse =>
    rw [Output.text_andThen, text_sortserializeWrites, Output.text_write]
    cases sortserialize tbl name [] false with
    | error e => rfl
    | ok text => 
        show Except.ok (text ++ (lit "\n\nreturn " ++ name)) = Except.ok _
        rw [List.append_assoc]

/-- With nothing lost these are the functions of `Core/Util.lean`. -/
theorem savetable_eq (writable : Str → Bool) (tbl : Entries) (name path : Str) (files : Files) :
    Util.savetable writable tbl name path files =
      (savetable (writable path) Medium.sound tbl name path files).outcome.map fun b =>
        (b, (savetable (writable path) Medium.sound tbl name path files).files) := by
  unfold Util.savetable savetable
  rw [← text_serializeWrites]
  split
  case isFalse => rfl
  case isTrue =>
    cases hraised : (serializeWrites tbl name).raised with
    | some e =>
        rw [Output.text_eq_error hraised]
        rfl
    | none =>
        rw [Output.text_eq_ok hraised, Medium.landed_sound]
        rfl

/-- A table that can be written, with nothing lost. -/
theorem savetable_sound {tbl : Entries} {name text : Str} (htext : serialize tbl name = .ok text)
    (path : Str) (files : Files) :
    savetable true Medium.sound tbl name path files =
      ⟨.ok true, Function.update files path (some text)⟩ := by
  have hsame := savetable_eq (fun _ => true) tbl name path files
  rw [savetable_storable rfl htext] at hsame
  cases houtcome : (savetable true Medium.sound tbl name path files).outcome with
  | error e =>
      rw [houtcome] at hsame
      cases hsame
  | ok b =>
      rw [houtcome] at hsame
      obtain ⟨hb, hfiles⟩ := Prod.mk.inj (Except.ok.inj hsame)
      subst hb
      rw [hfiles, ← houtcome]

/-! ## Which tables can be written -/

/-- The keys of one level can be sorted. -/
def comparable (keys : List LuaVal) : Bool :=
  decide (keys.length ≤ 1) || keys.all strKey || keys.all numKey

/-- `%q` or `%d` can format the key. -/
def formattable : LuaVal → Bool
  | .str _ => true
  | .num (.int _) => true
  | _ => false

mutual

/-- At every level the keys can be sorted, and formatted where there is something to
write behind them. -/
def savable : LuaVal → Bool
  | .table tbl => comparable (tbl.map fun e => e.1) && savableFields tbl
  | _ => true

def savableFields : Entries → Bool
  | [] => true
  | (_, .other) :: tbl => savableFields tbl
  | (key, v) :: tbl => formattable key && savable v && savableFields tbl

end

/-- The sort of the keys goes through where there is no pair it cannot compare. -/
theorem checkKeys_eq_ok_iff (keys : List LuaVal) :
    checkKeys keys = .ok () ↔ comparable keys = true := by
  unfold checkKeys comparable
  simp only [Bool.or_eq_true, decide_eq_true_eq, or_assoc]
  split
  case isTrue h => exact iff_of_true rfl h
  case isFalse h =>
    apply iff_of_false
    · intro hok
      cases hok
    · exact h

/-- A key can be formatted if it is a string or an integer. -/
theorem skey_isOk_iff (key : LuaVal) : (∃ text, skey key = .ok text) ↔ formattable key = true := by
  cases key with
  | str s => exact iff_of_true ⟨_, rfl⟩ rfl
  | num n =>
      cases n with
      | int i => exact iff_of_true ⟨_, rfl⟩ rfl
      | _ => simp [skey, formattable]
  | _ => simp [skey, formattable]

/-- A field raises with its key, before anything of it is written, or with its value. -/
theorem raised_withKey_iff {key : LuaVal} {rest : Str → Writes} {p : Prop}
    (h : ∀ skey, (rest skey).raised = none ↔ p) :
    (withKey key rest).raised = none ↔ formattable key = true ∧ p := by
  rw [← skey_isOk_iff]
  unfold withKey
  cases skey key with
  | error e => simp [Output.raise]
  | ok skey => simp [h skey]

/-- A table raises in the sort of its keys, or in one of its fields. -/
theorem raised_encloseWrites_iff (name tab : Str) (r : Bool) (fields : List (LuaVal × Writes)) :
    (encloseWrites name tab r fields).raised = none ↔
      comparable (fields.map fun f => f.1) = true ∧ ∀ f ∈ fields, f.2.raised = none := by
  rw [← checkKeys_eq_ok_iff]
  unfold encloseWrites
  cases checkKeys (fields.map fun f => f.1) with
  | error e => simp [Output.raise]
  | ok _ =>
      simp only [true_and]
      rw [Output.raised_andThen_iff, Output.raised_andThen_iff, Output.raised_seq_iff,
        List.forall_mem_map]
      simp only [mem_sortKeys]
      constructor
      · exact fun h => h.2.1
      · exact fun h => ⟨rfl, h, rfl⟩

/-- A field that is no table raises with its key only. -/
theorem raised_plainField_iff (tab : Str) (key : LuaVal) (svalue : Str) :
    (withKey key fun skey =>
      (Output.write (tab ++ indent ++ skey ++ lit " = " ++ svalue)).andThen
        (Output.write (lit ",\n"))).raised = none ↔ formattable key = true := by
  rw [raised_withKey_iff (p := True)]
  · exact and_iff_left trivial
  · exact fun skey => iff_of_true rfl trivial

/-- The keys are written in the order in which they are sorted, whatever their values are. -/
theorem map_fieldsWrites (tab : Str) (tbl : Entries) :
    (fieldsWrites tab tbl).map (fun f => f.1) = tbl.map fun e => e.1 := by
  induction tbl with
  | nil => rfl
  | cons e tbl ih =>
      obtain ⟨key, v⟩ := e
      rw [fieldsWrites, List.map_cons, List.map_cons, ih]

mutual

/-- A field can be written if it is left out, or if its key can be formatted and its value
can be written.  The induction is over the nested tables. -/
theorem raised_fieldWrites_iff (tab : Str) (key : LuaVal) :
    ∀ v, (fieldWrites tab key v).raised = none ↔ v = .other ∨ (formattable key && savable v) = true
  | .other => iff_of_true rfl (Or.inl rfl)
  | .table tbl => by
      rw [fieldWrites, savable, Bool.and_eq_true, or_iff_right (by simp)]
      apply raised_withKey_iff
      intro skey
      rw [Output.raised_andThen_iff, raised_encloseWrites_iff, map_fieldsWrites,
        raised_fieldsWrites_iff (tab ++ indent) tbl, Bool.and_eq_true]
      exact and_iff_left rfl
  | .nil => (raised_plainField_iff tab key (svalue .nil)).trans (by simp [savable])
  | .bool b => (raised_plainField_iff tab key (svalue (.bool b))).trans (by simp [savable])
  | .num n => (raised_plainField_iff tab key (svalue (.num n))).trans (by simp [savable])
  | .str s => (raised_plainField_iff tab key (svalue (.str s))).trans (by simp [savable])

/-- The same of all fields of a table. -/
theorem raised_fieldsWrites_iff (tab : Str) :
    ∀ tbl : Entries, (∀ f ∈ fieldsWrites tab tbl, f.2.raised = none) ↔ savableFields tbl = true
  | [] => iff_of_true (fun f hf => absurd hf List.not_mem_nil) rfl
  | (key, v) :: tbl => by
      rw [fieldsWrites, List.forall_mem_cons, raised_fieldWrites_iff tab key v,
        raised_fieldsWrites_iff tab tbl]
      cases v with
      | other => simp [savableFields]
      | _ => simp [savableFields]

end

/-- The table can be written if and only if it is one of those. -/
theorem raised_serializeWrites_iff (tbl : Entries) (name : Str) :
    (serializeWrites tbl name).raised = none ↔ savable (.table tbl) = true := by
  have hsort : ∀ name tab r,
      (sortserializeWrites tbl name tab r).raised = none ↔ savable (.table tbl) = true := by
    intro name tab r
    unfold sortserializeWrites
    rw [raised_encloseWrites_iff, map_fieldsWrites, raised_fieldsWrites_iff, savable,
      Bool.and_eq_true]
  unfold serializeWrites
  split
  case isTrue => exact hsort name [] true
  case isFalse =>
    rw [Output.raised_andThen_iff, hsort]
    exact and_iff_left rfl

/-! ## One file -/

/-- Where the table can be written, the file holds what has landed of it, and the call says
that all is well. -/
theorem savetable_opened {tbl : Entries} {name : Str} (medium : Medium) (path : Str)
    (files : Files) (h : (serializeWrites tbl name).raised = none) :
    savetable true medium tbl name path files =
      ⟨.ok true, Function.update files path
        (some (medium.landed (serializeWrites tbl name).writes))⟩ := by
  unfold savetable
  rw [if_pos rfl, h]

/-- Where it cannot, the file holds what has landed of the part in front of the error. -/
theorem savetable_raised {tbl : Entries} {name : Str} {e : LuaError} (medium : Medium)
    (path : Str) (files : Files) (h : (serializeWrites tbl name).raised = some e) :
    savetable true medium tbl name path files =
      ⟨.error e, Function.update files path
        (some (medium.landed (serializeWrites tbl name).writes))⟩ := by
  unfold savetable
  rw [if_pos rfl, h]

/-- The call comes to its end, and what was in the file is there if it does not. -/
def Harmless (path : Str) (files : Files) (ended : Ended) : Prop :=
  (∃ b, ended.outcome = .ok b) ∧
    ((¬ ∃ b, ended.outcome = .ok b) → ended.files path = files path)

/-- **A save that raises, exactly.**  On a path that can be opened `savetable` comes to
its end if and only if the table is savable; and if it is not, all that is in the file
is what landed of the writes before the key that cannot be written. -/
theorem savetable_harmless_iff (medium : Medium) (tbl : Entries) (name path : Str)
    (files : Files) :
    (Harmless path files (savetable true medium tbl name path files) ↔
      savable (.table tbl) = true) ∧
    (savable (.table tbl) = false →
      (∃ e, (savetable true medium tbl name path files).outcome = .error e) ∧
        (savetable true medium tbl name path files).files path =
          some (medium.landed (serializeWrites tbl name).writes)) := by
  cases hraised : (serializeWrites tbl name).raised with
  | none =>
      have hsavable := (raised_serializeWrites_iff tbl name).mp hraised
      rw [savetable_opened medium path files hraised, hsavable]
      constructor
      · apply iff_of_true
        · exact ⟨⟨true, rfl⟩, fun hnot => absurd ⟨true, rfl⟩ hnot⟩
        · rfl
      · exact fun hfalse => absurd hfalse.symm Bool.false_ne_true
  | some e =>
      have hsavable : savable (.table tbl) = false := by
        rw [← Bool.not_eq_true, ← raised_serializeWrites_iff tbl name, hraised]
        exact Option.some_ne_none e
      rw [savetable_raised medium path files hraised, hsavable]
      constructor
      · apply iff_of_false
        · rintro ⟨⟨b, hb⟩, -⟩
          cases hb
        · exact Bool.false_ne_true
      · exact fun _ => ⟨⟨e, rfl⟩, Function.update_self _ _ _⟩

/-- A rule with a field that has lost its name: `{ path = "x", true }`. -/
def strayField : Entries :=
  [(.num (.int 1), .table [(.str (lit "path"), .str (lit "x")), (.num (.int 1), .bool true)])]

/-- A table with a boolean among its keys, which empties its file. -/
theorem not_harmless_strayField :
    ¬ ∀ (tbl : Entries) (name path : Str) (files : Files),
      Harmless path files (savetable true Medium.sound tbl name path files) := by
  intro hall
  obtain ⟨⟨b, hb⟩, -⟩ := hall strayField (lit "rules") (lit "cfg/rules.lua") fun _ => none
  have hraised : (serializeWrites strayField (lit "rules")).raised = some .compare := by
    decide
  rw [savetable_raised Medium.sound _ _ hraised] at hb
  cases hb

/-! ## Two files -/

/-- The file beside has another name. -/
theorem tmpOf_ne (path : Str) : tmpOf path ≠ path := by
  intro h
  have hlength := congrArg List.length h
  have htmp : (lit ".tmp").length = 4 := rfl
  unfold tmpOf at hlength
  rw [List.length_append] at hlength
  omega

theorem update_tmpOf (path : Str) (files : Files) (content : Option Str) :
    Function.update files (tmpOf path) content path = files path :=
  Function.update_of_ne (tmpOf_ne path).symm _ _

theorem remove_tmpOf (done : Bool) (path : Str) (files : Files) :
    remove done (tmpOf path) files path = files path := by
  unfold remove
  split
  · exact update_tmpOf path files none
  · rfl

/-- Where `savetable_atomic` returns true the file holds the table, and otherwise, and
where it raises, what was in it. -/
def AllOrNothing (tbl : Entries) (name path : Str) (files : Files) (ended : Ended) : Prop :=
  match ended.outcome with
  | .ok true => ∃ text, serialize tbl name = .ok text ∧ ended.files path = some text
  | _ => ended.files path = files path

/-- Behind a file that is written, it is the last two steps that matter. -/
theorem savetableAtomic_written (steps : Steps) {tbl : Entries} {name : Str} (path : Str)
    (files : Files) (hopens : steps.opens = true)
    (hraised : (serializeWrites tbl name).raised = none) :
    (steps.renames = true →
      (savetableAtomic steps tbl name path files).outcome = .ok true ∧
      (savetableAtomic steps tbl name path files).files path =
        some (steps.medium.landed (serializeWrites tbl name).writes)) ∧
    (steps.renames = false →
      (savetableAtomic steps tbl name path files).outcome = .ok false ∧
      (savetableAtomic steps tbl name path files).files path =
        if steps.removes then none else files path) := by
  have htmp : ∀ (done : Bool) (files : Files) (content : Str),
      remove done path (Function.update files (tmpOf path) (some content)) (tmpOf path) =
        some content := by
    intro done files content
    unfold remove
    split
    · rw [Function.update_of_ne (tmpOf_ne path), Function.update_self]
    · rw [Function.update_self]
  unfold savetableAtomic
  rw [hopens, savetable_opened steps.medium (tmpOf path) files hraised]
  simp only
  constructor
  · intro hrenames
    rw [if_pos hrenames]
    refine ⟨rfl, (update_tmpOf path _ none).trans ?_⟩
    rw [Function.update_self, htmp]
  · intro hrenames
    rw [if_neg (Bool.not_eq_true _ ▸ hrenames)]
    refine ⟨rfl, ?_⟩
    show remove steps.removesTmp (tmpOf path) _ path = _
    rw [remove_tmpOf]
    unfold remove
    split
    · exact Function.update_self _ _ _
    · exact update_tmpOf path files _

theorem savetableAtomic_closed {steps : Steps} (tbl : Entries) (name path : Str) (files : Files)
    (hopens : steps.opens = false) :
    savetableAtomic steps tbl name path files = ⟨.ok false, files⟩ := by
  unfold savetableAtomic
  rw [hopens]
  rfl

/-- A table that cannot be written costs the file beside. -/
theorem savetableAtomic_raised {steps : Steps} {tbl : Entries} {name : Str} {e : LuaError}
    (path : Str) (files : Files) (hopens : steps.opens = true)
    (hraised : (serializeWrites tbl name).raised = some e) :
    (savetableAtomic steps tbl name path files).outcome = .error e ∧
      (savetableAtomic steps tbl name path files).files path = files path := by
  unfold savetableAtomic
  rw [hopens, savetable_raised steps.medium (tmpOf path) files hraised]
  exact ⟨rfl, update_tmpOf path files _⟩

/-- **All or nothing, exactly.**  `savetable_atomic` is it where it does not come to
write the file beside, or cannot; where it does, and puts it in place, if and only if
no byte of it was lost; and where it cannot put it in place, if and only if it had not
removed the old one. -/
theorem savetableAtomic_iff (steps : Steps) (tbl : Entries) (name path : Str) (files : Files) :
    AllOrNothing tbl name path files (savetableAtomic steps tbl name path files) ↔
      (steps.opens = true → savable (.table tbl) = true →
        if steps.renames then steps.medium.Keeps (serializeWrites tbl name).writes
        else steps.removes = false ∨ files path = none) := by
  cases hopens : steps.opens with
  | false =>
      rw [savetableAtomic_closed tbl name path files hopens]
      exact iff_of_true rfl fun h => absurd h Bool.false_ne_true
  | true =>
      rw [← raised_serializeWrites_iff tbl name]
      cases hraised : (serializeWrites tbl name).raised with
      | some e =>
          obtain ⟨houtcome, hfile⟩ := savetableAtomic_raised path files hopens hraised
          unfold AllOrNothing
          rw [houtcome]
          exact iff_of_true hfile fun _ h => absurd h (Option.some_ne_none e)
      | none =>
          obtain ⟨hdone, hleft⟩ := savetableAtomic_written steps path files hopens hraised
          have htext := Output.text_eq_ok hraised
          rw [text_serializeWrites] at htext
          simp only [forall_const]
          unfold AllOrNothing
          cases hrenames : steps.renames with
          | true =>
              obtain ⟨houtcome, hfile⟩ := hdone hrenames
              rw [houtcome, hfile, htext, if_pos rfl, ← Medium.landed_eq_iff]
              simp
          | false =>
              obtain ⟨houtcome, hfile⟩ := hleft hrenames
              rw [houtcome, hfile]
              cases steps.removes with
              | true => simp [eq_comm]
              | false => simp

/-- The old file is removed, and then the new one cannot be renamed. -/
def failedRename : Steps := ⟨true, Medium.sound, true, false, true⟩

/-- Steps of which only the renaming fails: the old file is gone. -/
theorem not_allOrNothing_rename :
    ¬ ∀ (steps : Steps) (tbl : Entries) (name path : Str) (files : Files),
      AllOrNothing tbl name path files (savetableAtomic steps tbl name path files) := by
  intro hall
  have hlost := hall failedRename [] (lit "status") (lit "cfg/status.lua")
    fun _ => some (lit "return { }")
  have hraised : (serializeWrites [] (lit "status")).raised = none := by decide
  obtain ⟨houtcome, hfile⟩ := (savetableAtomic_written failedRename (lit "cfg/status.lua")
    (fun _ => some (lit "return { }")) rfl hraised).2 rfl
  unfold AllOrNothing at hlost
  rw [houtcome, hfile] at hlost
  cases hlost

end LuadchAnnouncer.Core.SaveTable
