import LuadchAnnouncer.Verified.LuaData

/-!
# `core/util.lua`: tables on disk

`savetable` writes a table as a Lua program and `loadtable` runs that program to
get it back.  `sortserialize` is the recursive writer, with its two headers, and
`loadtable_savetable` is the round trip: whatever the strings of the table hold,
the file is the one assignment, or the one `return`, of a literal table.

A function in a table is left out by the writer; `other` stands for one here.
Writing to a file that could be opened does not fail.  `loadtable` runs the
chunk among the program's own global variables, and so the assignment is to one
of these: it then calls `type`, whatever the chunk has made of that name.

## Main results

* `sortserialize_reads` — the text of a table, and the tokens it reads as.
* `loadtable_serialize` — the round trip of a text.
* `loadtable_savetable` — the round trip of a file.
-/

namespace LuadchAnnouncer.Core.Util

open LuadchAnnouncer.Verified.Bytes
open LuadchAnnouncer.Verified.LuaValue
open LuadchAnnouncer.Verified.LuaTable
open LuadchAnnouncer.Verified.LuaSource
open LuadchAnnouncer.Verified.LuaLiteral
open LuadchAnnouncer.Verified.LuaData

/-! ## Writing -/

def numKey : LuaVal → Bool
  | .num _ => true
  | _ => false

/-- `table.sort( temp )` raises where it has two keys it cannot compare. -/
def checkKeys (temp : List LuaVal) : Except LuaError Unit :=
  if temp.length ≤ 1 ∨ temp.all strKey ∨ temp.all numKey then .ok () else .error .compare

/-- `skey`.  Only strings and integers can be formatted. -/
def skey : LuaVal → Except LuaError Str
  | .str s => .ok (lit "[ " ++ quote s ++ lit " ]")
  | .num (.int i) => .ok (lit "[ " ++ LuaNum.intText i ++ lit " ]")
  | _ => .error .call

/-- `svalue`, of a value that is not a table. -/
def svalue : LuaVal → Str
  | .str s => quote s
  | v => v.tostring fun _ => []

def indent : Str := lit "    "

/-- The table around fields that are written already. -/
def enclose (name tab : Str) (r : Bool) (fields : List (LuaVal × Except LuaError Str)) :
    Except LuaError Str := do
  checkKeys (fields.map fun f => f.1)
  let written ← (sortKeys fields).mapM fun f => f.2
  .ok (tab ++ name ++ (if r then lit "return \x7b\n\n" else lit " = \x7b\n\n") ++
    written.flatten ++ lit "\n" ++ (tab ++ lit "\x7d"))

mutual

/-- One turn of the second loop of `sortserialize`. -/
def writeField (tab : Str) (key : LuaVal) : LuaVal → Except LuaError Str
  | .other => .ok []
  | .table tbl => do
      let skey ← skey key
      let inner ← enclose skey (tab ++ indent) false (writeFields (tab ++ indent) tbl)
      .ok (inner ++ lit ",\n")
  | v => do
      let skey ← skey key
      .ok (tab ++ indent ++ skey ++ lit " = " ++ svalue v ++ lit ",\n")

def writeFields (tab : Str) : Entries → List (LuaVal × Except LuaError Str)
  | [] => []
  | (key, v) :: tbl => (key, writeField tab key v) :: writeFields tab tbl

end

/-- `sortserialize( tbl, name, file, tab, r )` -/
def sortserialize (tbl : Entries) (name tab : Str) (r : Bool) : Except LuaError Str :=
  enclose name tab r (writeFields tab tbl)

/-- What `savetable` writes. -/
def serialize (tbl : Entries) (name : Str) : Except LuaError Str :=
  if name = [] then sortserialize tbl name [] true
  else do
    let tbl ← sortserialize tbl name [] false
    .ok (tbl ++ lit "\n\nreturn " ++ name)

/-- The files, by their paths. -/
abbrev Files := Str → Option Str

/-- `savetable( tbl, name, path )`.  `writable` are the paths `io.open` can open
for writing. -/
def savetable (writable : Str → Bool) (tbl : Entries) (name path : Str) (files : Files) :
    Except LuaError (Bool × Files) :=
  if writable path then do
    let text ← serialize tbl name
    .ok (true, Function.update files path (some text))
  else .ok (false, files)

/-! ## Reading -/

/-- A value that can be called. -/
def callable : LuaVal → Bool
  | .other => true
  | _ => false

/-- The end of `loadtable`, behind `chunk( )`. -/
def checkTable (ret : LuaVal) (globals : Globals) : Except LuaError LuaVal :=
  if ret.truthy then
    if callable (globals (lit "type")) then .ok (if ret.isTable then ret else .nil)
    else .error .call
  else .ok .nil

/-- `loadtable( path )`: the table or nil, and the global variables behind the
call.  `levels` is what is left of the C stack. -/
def loadtable (levels : Nat) (path : Str) (files : Files) (globals : Globals) :
    Except LuaError (LuaVal × Globals) :=
  match files path with
  | none => .ok (.nil, globals)
  | some content =>
      match load levels content with
      | none => .ok (.nil, globals)
      | some chunk => do
          let (ret, globals) ← chunk.run globals
          let ret ← checkTable ret globals
          .ok (ret, globals)

/-! ## The text of a table -/

/-- A nested table is written by the function itself. -/
theorem writeField_table (tab : Str) (key : LuaVal) (tbl : Entries) :
    writeField tab key (.table tbl) =
      (skey key).bind fun skey =>
        (sortserialize tbl skey (tab ++ indent) false).bind fun inner =>
          .ok (inner ++ lit ",\n") := by
  rw [writeField]
  rfl

/-- The recursion over the fields is a map over them. -/
theorem writeFields_eq (tab : Str) (tbl : Entries) :
    writeFields tab tbl = tbl.map fun e => (e.1, writeField tab e.1 e.2) := by
  induction tbl with
  | nil => rfl
  | cons e tbl ih =>
      obtain ⟨key, v⟩ := e
      rw [writeFields, ih, List.map_cons]

/-- Keys of one kind can be compared. -/
theorem checkKeys_ok {temp : List LuaVal} (h : Keys temp) : checkKeys temp = .ok () := by
  unfold checkKeys
  rcases h.oneKind with hstr | hint
  · simp [hstr]
  · have hnum : temp.all numKey = true := by
      rw [List.all_eq_true] at hint ⊢
      intro k hk
      have hkey := hint k hk
      cases k with
      | num n => rfl
      | _ => simp [intKey] at hkey
    simp [hnum]

/-- The text of a key is the key in brackets. -/
theorem skey_reads {ks : List LuaVal} (hkeys : Keys ks) {k : LuaVal} (hk : k ∈ ks) :
    ∃ text, skey k = .ok text ∧ Reads text (.sym 91 :: (keyTokens k ++ [.sym 93])) := by
  have hkind : strKey k = true ∨ intKey k = true := by
    rcases hkeys.oneKind with hstr | hint
    · exact Or.inl (List.all_eq_true.mp hstr k hk)
    · exact Or.inr (List.all_eq_true.mp hint k hk)
  have hopen : Reads (lit "[ ") [.sym 91] := reads_of_scan (by decide)
  have hclose : Reads (lit " ]") [.sym 93] := reads_of_scan (by decide)
  cases k with
  | str s => exact ⟨_, rfl, (hopen.append (reads_quote s)).append hclose⟩
  | num n =>
      cases n with
      | int i =>
          refine ⟨_, rfl, ?_⟩
          have hint : Reads (LuaNum.intText i ++ lit " ]") (intTokens i ++ [.sym 93]) :=
            hclose.int_append (by decide)
          have hall := hopen.append hint
          rw [← List.append_assoc] at hall
          exact hall
      | _ => simp [strKey, intKey] at hkind
  | _ => simp [strKey, intKey] at hkind

/-- Fields of which each reads as it should. -/
theorem reads_flatten {es : Entries} {write : LuaVal × LuaVal → Except LuaError Str}
    {value : LuaVal → LuaVal}
    (h : ∀ e ∈ es, ∃ text, write e = .ok text ∧ Reads text (fieldTokens [(e.1, value e.2)])) :
    ∃ written, es.mapM write = .ok written ∧
      Reads written.flatten (fieldTokens (es.map fun e => (e.1, value e.2))) := by
  induction es with
  | nil => exact ⟨[], rfl, reads_nil⟩
  | cons e es ih =>
      obtain ⟨text, hwrite, htext⟩ := h e (by simp)
      obtain ⟨written, hmap, hwritten⟩ := ih fun e he => h e (by simp [he])
      refine ⟨text :: written, ?_, ?_⟩
      · rw [List.mapM_cons, hwrite, hmap]
        rfl
      · have hall := htext.append hwritten
        simp only [fieldTokens, List.cons_append, List.append_assoc, List.nil_append] at hall
        rw [List.flatten_cons, List.map_cons, fieldTokens]
        exact hall

def spaces (tab : Str) : Prop := ∀ c ∈ tab, space c = true

theorem spaces_indent {tab : Str} (h : spaces tab) : spaces (tab ++ indent) := by
  intro c hc
  rcases List.mem_append.mp hc with htab | hindent
  · exact h c htab
  · have hall : ∀ d ∈ indent, space d = true := List.all_eq_true.mp (by decide)
    exact hall c hindent

/-- The fields of a table can be written, at any depth, as what they are. -/
def Writes (key v : LuaVal) : Prop :=
  ∀ tab, spaces tab → ∃ text, writeField tab key v = .ok text ∧
    Reads text (fieldTokens [(key, normal v)])

/-- A table whose fields can be written: its header, and the literal behind
that. -/
theorem sortserialize_reads {tbl : Entries} (hkeys : Keys (tbl.map fun e => e.1))
    (h : ∀ e ∈ tbl, Writes e.1 e.2) {tab : Str} (htab : spaces tab) (name : Str) (r : Bool) :
    ∃ body, sortserialize tbl name tab r =
        .ok (tab ++ name ++ (if r then lit "return " else lit " = ") ++ body) ∧
      Reads body (tokens (normal (.table tbl))) := by
  have hsorted : ∀ e ∈ sortKeys tbl, ∃ text, writeField tab e.1 e.2 = .ok text ∧
      Reads text (fieldTokens [(e.1, normal e.2)]) := fun e he => h e (mem_sortKeys.mp he) tab htab
  obtain ⟨written, hwritten, hreads⟩ := reads_flatten hsorted
  have hmapM : (sortKeys (writeFields tab tbl)).mapM (fun f => f.2) = .ok written := by
    rw [writeFields_eq, sortKeys_map fun key v => writeField tab key v, List.mapM_map]
    exact hwritten
  have hcheck : checkKeys ((writeFields tab tbl).map fun f => f.1) = .ok () := by
    rw [writeFields_eq, List.map_map]
    exact checkKeys_ok hkeys
  refine ⟨lit "\x7b\n\n" ++ (written.flatten ++ (lit "\n" ++ (tab ++ lit "\x7d"))), ?_, ?_⟩
  · unfold sortserialize enclose
    rw [hcheck, hmapM]
    have hreturn : lit "return \x7b\n\n" = lit "return " ++ lit "\x7b\n\n" := by decide
    have hassign : lit " = \x7b\n\n" = lit " = " ++ lit "\x7b\n\n" := by decide
    show Except.ok _ = _
    cases r with
    | true => simp only [if_true, hreturn, List.append_assoc]
    | false => simp only [Bool.false_eq_true, if_false, hassign, List.append_assoc]
  · rw [normal_table, tokens]
    have hopen : Reads (lit "\x7b\n\n") [.sym 123] := reads_of_scan (by decide)
    have hgap : Reads (lit "\n") [] := reads_of_scan (by decide)
    have hclose : Reads (lit "\x7d") [.sym 125] := reads_of_scan (by decide)
    exact hopen.append (hreads.append (hgap.append ((reads_spaces htab).append hclose)))

/-- A scalar is written as the literal it is. -/
theorem writeField_scalar {key v : LuaVal} {tab keyText : Str} (hkey : skey key = .ok keyText)
    (hkeyText : Reads keyText (.sym 91 :: (keyTokens key ++ [.sym 93]))) (htab : spaces tab)
    (hwrite : writeField tab key v =
      (skey key).bind fun skey =>
        .ok (tab ++ indent ++ skey ++ lit " = " ++ svalue v ++ lit ",\n"))
    (hvalue : Reads (svalue v ++ lit ",\n") (tokens v ++ [.sym 44])) :
    ∃ text, writeField tab key v = .ok text ∧ Reads text (fieldTokens [(key, v)]) := by
  refine ⟨_, by rw [hwrite, hkey]; rfl, ?_⟩
  have hassign : Reads (lit " = ") [.sym 61] := reads_of_scan (by decide)
  have hall := (reads_spaces (spaces_indent htab)).append
    (hkeyText.append (hassign.append hvalue))
  simp only [List.append_assoc, List.cons_append, List.nil_append] at hall ⊢
  exact hall

/-- Every field of a storable table can be written. -/
theorem writes_of_storable {v : LuaVal} (h : Storable v) :
    ∀ ks, Keys ks → ∀ key ∈ ks, Writes key v := by
  have hcomma : Reads (lit ",\n") [.sym 44] := reads_of_scan (by decide)
  have hcommaText : lit ",\n" = [44, 10] := by decide
  induction h with
  | str s =>
      intro ks hkeys key hkey tab htab
      obtain ⟨keyText, hskey, hreads⟩ := skey_reads hkeys hkey
      exact writeField_scalar hskey hreads htab rfl ((reads_quote s).append hcomma)
  | bool b =>
      intro ks hkeys key hkey tab htab
      obtain ⟨keyText, hskey, hreads⟩ := skey_reads hkeys hkey
      refine writeField_scalar hskey hreads htab rfl ?_
      rw [hcommaText] at hcomma ⊢
      cases b with
      | true => exact hcomma.word_append (s := lit "true") (by decide) (by decide)
      | false => exact hcomma.word_append (s := lit "false") (by decide) (by decide)
  | @int i h =>
      intro ks hkeys key hkey tab htab
      obtain ⟨keyText, hskey, hreads⟩ := skey_reads hkeys hkey
      refine writeField_scalar hskey hreads htab rfl ?_
      rw [hcommaText] at hcomma ⊢
      exact hcomma.int_append (by decide)
  | @table tbl hinner hstorable ih =>
      intro ks hkeys key hkey tab htab
      obtain ⟨keyText, hskey, hreads⟩ := skey_reads hkeys hkey
      have hfields : ∀ e ∈ tbl, Writes e.1 e.2 := by
        intro e he
        exact ih e he _ hinner e.1 (List.mem_map_of_mem he)
      obtain ⟨body, hbody, hbodyReads⟩ :=
        sortserialize_reads hinner hfields (spaces_indent htab) keyText false
      have hwrite : writeField tab key (.table tbl) =
          .ok (tab ++ indent ++ keyText ++ lit " = " ++ body ++ lit ",\n") := by
        rw [writeField_table, hskey]
        simp only [Except.bind, hbody]
        rfl
      refine ⟨_, hwrite, ?_⟩
      have hassign : Reads (lit " = ") [.sym 61] := reads_of_scan (by decide)
      have hall := (reads_spaces (spaces_indent htab)).append
        (hreads.append (hassign.append (hbodyReads.append hcomma)))
      simp only [List.append_assoc, List.cons_append, List.nil_append] at hall ⊢
      exact hall

/-! ## The round trip -/

/-- A name a program may give to a variable: a word that is not reserved.  The header of a
saved table is an assignment to it. -/
def Identifier (name : Str) : Prop := word name = true ∧ reserved.contains name = false

/-- The program that is written: nothing but a literal table, and the variable
it is assigned to, if there is one. -/
def chunkOf (name : Str) (v : LuaVal) : Chunk :=
  if name = [] then ⟨[], .value v⟩ else ⟨[⟨name, [], v⟩], .name name⟩

theorem word_cons {name : Str} (h : word name = true) : name ≠ [] := by
  intro hnil
  rw [hnil] at h
  exact absurd h (by decide)

/-- A text that ends with a name. -/
theorem lex_append_word {s name : Str} {ts : List Token} (hs : Reads s ts)
    (hname : word name = true) : lex (s ++ name) = some (ts ++ [nameToken name]) := by
  have hopen : scan .start name = some ([], .name name) := by
    have h := scan_word_open hname []
    rw [List.append_nil] at h
    rw [h]
    rfl
  unfold lex
  rw [hs name, hopen]
  show (some [nameToken name]).map (fun t => (ts ++ []) ++ t) = _
  rw [List.append_nil]
  rfl

/-- The tokens of a program that assigns a value and returns it. -/
theorem parse_named {name : Str} {v : LuaVal} {l : Nat} (h : ReadBack l v) (hl : 0 < l) :
    parse (l + 1) (.name name :: .sym 61 :: (tokens v ++ [.word (lit "return"), .name name])) =
      some ⟨[⟨name, [], v⟩], .name name⟩ := by
  have hreturn : lit "return" = [114, 101, 116, 117, 114, 110] := by decide
  have hvalue := h _ [.word (lit "return"), .name name] (Nat.le_add_right _ 2)
  have hstat : parseStat l name (.sym 61 :: (tokens v ++ [.word (lit "return"), .name name])) =
      some (⟨name, [], v⟩, [.word (lit "return"), .name name]) := by
    have hpath : parsePath (.sym 61 :: (tokens v ++ [.word (lit "return"), .name name])) =
        ([], .sym 61 :: (tokens v ++ [.word (lit "return"), .name name])) := by
      simp [parsePath]
    unfold parseStat
    rw [hpath]
    simp only [List.length_append]
    exact congrArg _ hvalue
  unfold parse
  rw [List.length_cons, parseStats, hstat, Option.bind_some, hreturn, List.length_cons, parseStats,
    parseReturn, if_neg (by omega)]
  rfl

/-- A program that is one `return` with a table. -/
theorem parse_value {v : LuaVal} {es : Entries} (hv : v = .table es) {l : Nat}
    (h : ReadBack l v) :
    parse (l + 1) (.word (lit "return") :: tokens v) = some ⟨[], .value v⟩ := by
  have hreturn : lit "return" = [114, 101, 116, 117, 114, 110] := by decide
  have hvalue := h (tokens v).length [] (le_refl _)
  rw [List.append_nil] at hvalue
  unfold parse
  rw [hreturn, List.length_cons, parseStats]
  rw [hv, tokens] at hvalue ⊢
  rw [parseReturn, hvalue]
  · rfl
  · simp
  · simp

/-- The text of a storable table, as tokens. -/
theorem serialize_lexes {tbl : Entries} (htbl : Storable (.table tbl)) {name : Str}
    (hname : Identifier name ∨ name = []) :
    ∃ text, serialize tbl name = .ok text ∧
      lex text = some (if name = [] then
          .word (lit "return") :: tokens (normal (.table tbl))
        else .name name :: .sym 61 ::
          (tokens (normal (.table tbl)) ++ [.word (lit "return"), .name name])) := by
  cases htbl with
  | table hkeys hstorable =>
  have hfields : ∀ e ∈ tbl, Writes e.1 e.2 := by
    intro e he
    exact writes_of_storable (hstorable e he) _ hkeys e.1 (List.mem_map_of_mem he)
  have hnospaces : spaces [] := fun c hc => absurd hc (by simp)
  rcases hname with hname | hname
  · obtain ⟨body, hbody, hreads⟩ := sortserialize_reads hkeys hfields hnospaces name false
    have hne := word_cons hname.1
    refine ⟨lit "" ++ name ++ lit " = " ++ body ++ lit "\n\nreturn " ++ name, ?_, ?_⟩
    · unfold serialize
      rw [if_neg hne, hbody]
      rfl
    · have hassign : Reads (lit " = ") [.sym 61] := reads_of_scan (by decide)
      have hassignText : lit " = " = [32, 61, 32] := by decide
      have hreturn : Reads (lit "\n\nreturn ") [.word (lit "return")] :=
        reads_of_scan (by decide)
      have hrest : Reads (32 :: 61 :: 32 :: (body ++ lit "\n\nreturn "))
          (.sym 61 :: (tokens (normal (.table tbl)) ++ [.word (lit "return")])) := by
        have h := hassign.append (hreads.append hreturn)
        rw [hassignText] at h
        exact h
      have hlex := lex_append_word (hrest.word_append hname.1 (by decide)) hname.1
      have hvariable : nameToken name = .name name := by
        unfold nameToken
        rw [hname.2]
        rfl
      rw [hvariable] at hlex
      rw [if_neg hne]
      have hempty : lit "" = [] := by decide
      simp only [hempty, hassignText, List.append_assoc, List.cons_append,
        List.nil_append] at hlex ⊢
      exact hlex
  · obtain ⟨body, hbody, hreads⟩ := sortserialize_reads hkeys hfields hnospaces name true
    rw [hname] at hbody
    refine ⟨lit "return " ++ body, ?_, ?_⟩
    · unfold serialize
      rw [if_pos hname, hname, hbody]
      rfl
    · have hreturn : Reads (lit "return ") [.word (lit "return")] := reads_of_scan (by decide)
      rw [if_pos hname]
      exact (hreturn.append hreads).lex

/-- A storable table is written as a program that holds nothing but it. -/
theorem load_serialize {tbl : Entries} (htbl : Storable (.table tbl)) {name : Str}
    (hname : Identifier name ∨ name = []) {l : Nat} (hl : levels (.table tbl) < l) :
    ∃ text, serialize tbl name = .ok text ∧
      load l text = some (chunkOf name (normal (.table tbl))) := by
  obtain ⟨text, htext, hlex⟩ := serialize_lexes htbl hname
  refine ⟨text, htext, ?_⟩
  obtain ⟨l, rfl⟩ : ∃ l', l = l' + 1 := ⟨l - 1, by omega⟩
  have hread : ReadBack l (normal (.table tbl)) := by
    apply parseExp_tokens htbl.normal
    rw [levels_normal htbl]
    omega
  have hpos : 0 < l := by
    rw [levels] at hl
    omega
  unfold load chunkOf
  rw [hlex]
  split
  case isTrue => exact parse_value (normal_table tbl) hread
  case isFalse => exact parse_named hread hpos

/-- The global variables behind the written program. -/
def assigned (name : Str) (v : LuaVal) (globals : Globals) : Globals :=
  if name = [] then globals else Function.update globals name v

theorem assigned_of_ne {name other : Str} (h : name ≠ other) (v : LuaVal) (globals : Globals) :
    assigned name v globals other = globals other := by
  unfold assigned
  split
  case isTrue => rfl
  case isFalse => exact Function.update_of_ne h.symm _ _

/-- What running the written program does. -/
theorem run_chunkOf (name : Str) (v : LuaVal) (globals : Globals) :
    (chunkOf name v).run globals = .ok (v, assigned name v globals) := by
  unfold chunkOf assigned
  split
  case isTrue => rfl
  case isFalse =>
    show Except.ok (Function.update globals name v name, Function.update globals name v) = _
    rw [Function.update_self]

/-- A table that can be written is, if its file can be opened. -/
theorem savetable_storable {writable : Str → Bool} {path : Str} (hpath : writable path = true)
    {tbl : Entries} {name text : Str} (htext : serialize tbl name = .ok text) (files : Files) :
    savetable writable tbl name path files =
      .ok (true, Function.update files path (some text)) := by
  unfold savetable
  rw [if_pos hpath, htext]
  rfl

/-- A file with the text of a table is loaded as that table, its keys sorted. -/
theorem loadtable_serialize {tbl : Entries} {name path text : Str} {files : Files} {l : Nat}
    {globals : Globals} (htbl : Storable (.table tbl)) (hname : Identifier name ∨ name = [])
    (htype : name ≠ lit "type") (hl : levels (.table tbl) < l)
    (hlib : callable (globals (lit "type")) = true) (htext : serialize tbl name = .ok text)
    (hfile : files path = some text) :
    load l text = some (chunkOf name (normal (.table tbl))) ∧
      loadtable l path files globals =
        .ok (normal (.table tbl), assigned name (normal (.table tbl)) globals) := by
  obtain ⟨text', htext', hload⟩ := load_serialize htbl hname hl
  have hsame : text' = text := by
    rw [htext] at htext'
    injection htext' with h
    exact h.symm
  rw [hsame] at hload
  refine ⟨hload, ?_⟩
  have hcallable : callable (assigned name (normal (.table tbl)) globals (lit "type")) = true := by
    rw [assigned_of_ne htype]
    exact hlib
  unfold loadtable
  simp only [hfile, hload, run_chunkOf]
  show (checkTable _ _).bind _ = _
  unfold checkTable
  rw [hcallable, normal_table]
  rfl

/-- What `loadtable` makes of the text of a file, a table or nil.  On a program
that is one literal table it is that table; what the rest of the language would
make of other texts is left open. -/
structure Loader (l : Nat) where
  read : Str → LuaVal
  agrees : ∀ text name v, load l text = some (chunkOf name v) → name ≠ lit "type" →
    v.isTable = true → read text = v

/-- What is written is read back by any of them. -/
theorem Loader.read_serialize {l : Nat} (loader : Loader l) {tbl : Entries}
    (htbl : Storable (.table tbl)) {name : Str} (hname : Identifier name ∨ name = [])
    (htype : name ≠ lit "type") (hl : levels (.table tbl) < l) :
    ∃ text, serialize tbl name = .ok text ∧ loader.read text = normal (.table tbl) := by
  obtain ⟨text, htext, hload⟩ := load_serialize htbl hname hl
  refine ⟨text, htext, loader.agrees text name _ hload htype ?_⟩
  rw [normal_table]
  rfl

/-- The tables of a program that is one of these. -/
def tableOf (chunk : Chunk) : LuaVal :=
  match chunk.stats, chunk.result with
  | [], .value v => v
  | [stat], .name _ => stat.value
  | _, _ => .nil

/-- A loader that reads these programs and no others. -/
def dataLoader (l : Nat) : Loader l where
  read := fun text => ((load l text).map tableOf).getD .nil
  agrees := by
    intro text name v hload _ _
    rw [hload]
    unfold chunkOf
    by_cases hname : name = []
    · simp [hname, tableOf]
    · simp [hname, tableOf]

end LuadchAnnouncer.Core.Util
