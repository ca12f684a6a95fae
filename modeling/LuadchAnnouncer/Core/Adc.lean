import Mathlib.Tactic.IntervalCases
import LuadchAnnouncer.Adclib
import LuadchAnnouncer.Verified.LuaData

/-!
# `core/adc.lua`: the identity of the bot

At every start `cfg/id.lua` is loaded, and written if that fails.  It is three
lines that are written at once, behind whatever is in the file, and a later
start judges the file by nothing but whether it is a Lua program.  So what
becomes of a file that was cut depends on where: `stable_iff` lists the cuts the
next start recovers from.

The two hashes of `adclib` are parameters.  A write goes through to the file
once a start has got to it; the file a start begins with is one that need not
have been written to its end.

## Main results

* `run_harmless`, `reads_healed` — what is left of a cut header does no harm in front of
  a new one.
* `yields_idText`, `fileAt_yields` — a file that is used once is used at every later
  start.
* `stable_line_iff` — the cuts inside one line.
* `stable_iff` — all of them.
-/

namespace LuadchAnnouncer.Core.Adc

open LuadchAnnouncer.Verified.Bytes
open LuadchAnnouncer.Verified.LuaValue
open LuadchAnnouncer.Verified.LuaTable
open LuadchAnnouncer.Verified.LuaSource
open LuadchAnnouncer.Verified.LuaLiteral
open LuadchAnnouncer.Verified.LuaData
open LuadchAnnouncer.Adclib

/-! ## Creating an identity -/

/-- `BASE32_alpha` -/
def base32Digit (c : UInt8) : Bool := (65 ≤ c && c ≤ 90) || (50 ≤ c && c ≤ 55)

/-- The `salt` of `createid`. -/
def salt : Str := lit "GHKZUGFTDFLIHLHGKGVKHGGH545FGFKH43754KHFKHKHGKDDSWSGDJKGUK6758"

/-- `os.date( ) .. os.clock( ) .. os.time( )`, cut. -/
def cutNow (now : Str) : Str := now.take 30

/-- The two hashes, as the base32 texts `adclib` makes of them: `pas` is the one
behind `hashpas`, `hash` the one of a PID. The time of a start has some
influence on the first. -/
structure Hashes where
  pas : Str → Str → Str
  hash : Str → Str
  pas_digits : ∀ pass salt, ∀ c ∈ pas pass salt, base32Digit c = true
  hash_digits : ∀ pid, ∀ c ∈ hash pid, base32Digit c = true
  varies : ∃ now now', pas (salt ++ cutNow now) (cutNow now ++ salt) ≠
    pas (salt ++ cutNow now') (cutNow now' ++ salt)

/-- `adc.createid( )` -/
def createid (h : Hashes) (now : Str) : Except LuaError (Str × Str) := do
  let str := cutNow now
  let pid ← hashPas h.pas (salt ++ str) (some (str ++ salt))
  .ok (pid, h.hash pid)

/-- What is written to `id.lua`. -/
def idText (pid cid : Str) : Str :=
  lit "id = { }\nid.pid = '" ++ pid ++ lit "'\nid.cid = '" ++ cid ++ lit "'\n"

/-! ## A start -/

/-- What a start finds: the time, whether `id.lua` can be opened for writing,
what is left of the C stack, and the global variables. -/
structure Start where
  now : Str
  writable : Bool
  levels : Nat
  globals : Globals
  enough : 2 ≤ levels
  noId : globals (lit "id") = .nil

/-- `loadfile( CFG_PATH .. "id.lua" )` -/
def loadfile (levels : Nat) (file : Option Str) : Option Chunk := file.bind (load levels)

/-- `id = { pid = pid, cid = cid }` -/
def setId (pid cid : Str) (globals : Globals) : Globals :=
  Function.update globals (lit "id")
    (.table [(.str (lit "pid"), .str pid), (.str (lit "cid"), .str cid)])

/-- The end of `core/adc.lua`: the global variables behind it, and `id.lua`.
Opening the file makes it, if there was none. -/
def loadOrCreate (h : Hashes) (start : Start) (file : Option Str) :
    Except LuaError Globals × Option Str :=
  match loadfile start.levels file with
  | some idfile => ((idfile.run start.globals).map Prod.snd, file)
  | none =>
      if start.writable then
        match createid h start.now with
        | .error e => (.error e, some (file.getD []))
        | .ok (pid, cid) =>
            (.ok (setId pid cid start.globals), some (file.getD [] ++ idText pid cid))
      else (.error .failed, file)

/-- `id.lua` before the start with this number. -/
def fileAt (h : Hashes) (starts : Nat → Start) (file : Option Str) : Nat → Option Str
  | 0 => file
  | n + 1 => (loadOrCreate h (starts n) (fileAt h starts file n)).2

/-- How the start with this number ends. -/
def outcome (h : Hashes) (starts : Nat → Start) (file : Option Str) (n : Nat) :
    Except LuaError Globals :=
  (loadOrCreate h (starts n) (fileAt h starts file n)).1

/-- `id.pid` and `id.cid`, where both are strings. -/
def identity (globals : Globals) : Option (Str × Str) :=
  match globals (lit "id") with
  | .table es =>
      match get es (.str (lit "pid")), get es (.str (lit "cid")) with
      | .str pid, .str cid => some (pid, cid)
      | _, _ => none
  | _ => none

/-- If the next start gets to its end, its identity is complete and every later
start comes to the same. -/
def Stable (h : Hashes) (file : Option Str) : Prop :=
  ∀ (starts : Nat → Start) (globals : Globals), outcome h starts file 0 = .ok globals →
    ∃ pid, identity globals = some (pid, h.hash pid) ∧
      ∀ n, ∃ later, outcome h starts file (n + 1) = .ok later ∧
        identity later = some (pid, h.hash pid)

/-- What a run may have left of `id.lua`: nothing, or the beginning of the text
it was writing. -/
inductive Initial (h : Hashes) where
  | absent
  | cut (pid : Str) (digits : ∀ c ∈ pid, base32Digit c = true) (length : Nat)

def Initial.file {h : Hashes} : Initial h → Option Str
  | .absent => none
  | .cut pid _ length => some ((idText pid (h.hash pid)).take length)

/-- The cuts that do no harm: behind the last quote, or inside the name the
second or the third line starts with. -/
def Initial.Recovers {h : Hashes} : Initial h → Prop
  | .absent => True
  | .cut pid _ length =>
      let third := 21 + pid.length
      (9 < length ∧ length ≤ 15) ∨ (third < length ∧ length ≤ third + 6) ∨
        third + (h.hash pid).length + 11 ≤ length

/-! ## The salt -/

/-- The salt is never too long, so nothing is raised. -/
theorem createid_eq (h : Hashes) (now : Str) :
    createid h now = .ok (h.pas (salt ++ cutNow now) (cutNow now ++ salt),
      h.hash (h.pas (salt ++ cutNow now) (cutNow now ++ salt))) := by
  have hsalt : salt.length = 62 := by decide
  have hnow : (cutNow now).length ≤ 30 := List.length_take_le 30 now
  have hbytes : ¬(saltBytes (cutNow now ++ salt) = 0 ∨
      maxSaltBytes < saltBytes (cutNow now ++ salt)) := by
    unfold saltBytes maxSaltBytes
    rw [List.length_append, hsalt]
    omega
  unfold createid hashPas
  simp only [if_neg hbytes]
  rfl

/-! ## The lines of the file -/

def header : Str := lit "id = { }\n"

/-- A line up to its opening quote. -/
def opened (field : Str) : Str := lit "id." ++ field ++ lit " = '"

/-- A line with one half of the identity. -/
def line (field value : Str) : Str := opened field ++ (value ++ lit "'\n")

/-- What `createid` writes: a header that makes a table of `id`, and one line for each of
the two ids. -/
theorem idText_eq (pid cid : Str) :
    idText pid cid = header ++ (line (lit "pid") pid ++ line (lit "cid") cid) := by
  have hfirst : lit "id = { }\nid.pid = '" =
      header ++ opened (lit "pid") := by decide
  have hsecond : lit "'\nid.cid = '" = lit "'\n" ++ opened (lit "cid") := by decide
  unfold idText line
  rw [hfirst, hsecond]
  simp only [List.append_assoc]

def headerStat : Stat := ⟨lit "id", [], .table []⟩

def lineStat (field value : Str) : Stat := ⟨lit "id", [field], .str value⟩

/-- The statements this file is made of: an empty table, or a text, is assigned.  A file
that has been cut and written to again holds no others, as far as it loads. -/
def Simple (stat : Stat) : Prop := stat.value = .table [] ∨ ∃ s, stat.value = .str s

/-- The value of a statement of this kind is read by the parser as it stands there. -/
theorem Simple.readBack {stat : Stat} (h : Simple stat) (l : Nat) :
    ReadBack (l + 1) stat.value := by
  rcases h with hvalue | ⟨s, hvalue⟩
  · rw [hvalue]
    apply parseExp_tokens (.table ⟨by simp, by simp⟩ (by simp))
    simp [levels, fieldLevels]
  · rw [hvalue]
    apply parseExp_tokens (.str s)
    simp [levels]

theorem reads_header : Reads header (statTokens headerStat) := by
  apply reads_of_scan
  decide

/-- A text between two quotes that has nothing to escape. -/
theorem scan_plain {d : UInt8} {s : Str}
    (h : ∀ c ∈ s, c ≠ d ∧ c ≠ 92 ∧ c ≠ 10 ∧ c ≠ 13) (acc rest : Str) :
    scan (.str d acc) (s ++ rest) = scan (.str d (acc ++ s)) rest := by
  induction s generalizing acc with
  | nil => rw [List.append_nil, List.nil_append]
  | cons c s ih =>
      obtain ⟨hd, hbackslash, hlf, hcr⟩ := h c (by simp)
      have hstep : step (.str d acc) c = some ([], .str d (acc ++ [c])) := by
        simp [step, inStr, hd, hbackslash, hlf, hcr]
      rw [List.cons_append, scan_quiet hstep, ih fun d hd => h d (by simp [hd]),
        List.append_assoc]
      rfl

theorem digit_plain {c : UInt8} (h : base32Digit c = true) :
    c ≠ 39 ∧ c ≠ 92 ∧ c ≠ 10 ∧ c ≠ 13 := by
  revert h
  exact forall_byte
    (p := fun c => base32Digit c = true → c ≠ 39 ∧ c ≠ 92 ∧ c ≠ 10 ∧ c ≠ 13) (by decide +kernel) c

/-- The two names a line may have. -/
def half (field : Str) : Prop := field = lit "pid" ∨ field = lit "cid"

/-- The scanner over the beginning of a line, up to the quote that opens its string. -/
theorem scan_opened {field : Str} (hfield : half field) (rest : Str) :
    scan .start (opened field ++ rest) =
      (scan (.str 39 []) rest).map
        (before [.name (lit "id"), .sym 46, .name field, .sym 61]) := by
  have hopened : scan .start (opened field) =
      some ([.name (lit "id"), .sym 46, .name field, .sym 61], .str 39 []) := by
    rcases hfield with rfl | rfl
    · decide
    · decide
  exact scan_of hopened rest

/-- A line up to its closing quote, and what is left of it behind. -/
theorem reads_closed {field value tail : Str} (hfield : half field)
    (hvalue : ∀ c ∈ value, base32Digit c = true) (htail : Reads tail []) :
    Reads (opened field ++ (value ++ 39 :: tail)) (statTokens (lineStat field value)) := by
  intro rest
  have hend : scan (.str 39 value) (39 :: (tail ++ rest)) =
      (scan .start rest).map (before [.str value]) := by
    rw [scan]
    show (scan .start (tail ++ rest)).map (before [.str value]) = _
    rw [htail, Option.map_map, before_comp, List.append_nil]
  rw [List.append_assoc, scan_opened hfield, List.append_assoc,
    scan_plain fun c hc => digit_plain (hvalue c hc), List.nil_append, List.cons_append, hend,
    Option.map_map, before_comp]
  rfl

/-- A line that ends inside its quotes. -/
theorem lex_quoted {field value : Str} (hfield : half field)
    (hvalue : ∀ c ∈ value, base32Digit c = true) {s : Str} {ts : List Token} (hs : Reads s ts) :
    lex (s ++ (opened field ++ value)) = none := by
  have hopen : scan .start (opened field ++ value) =
      some ([.name (lit "id"), .sym 46, .name field, .sym 61], .str 39 value) := by
    have hvalueScan := scan_plain (d := 39) (fun c hc => digit_plain (hvalue c hc)) [] []
    rw [List.append_nil, List.nil_append] at hvalueScan
    rw [scan_opened hfield, hvalueScan]
    rfl
  unfold lex
  rw [hs, hopen]
  rfl

/-- The same with the text of the next start behind it. -/
theorem scan_quoted {field value : Str} (hfield : half field)
    (hvalue : ∀ c ∈ value, base32Digit c = true) :
    scan .start (opened field ++ value ++ header) = none := by
  have hheader : ∀ acc, scan (.str 39 acc) header = none := by
    intro acc
    have hchars : ∀ c ∈ lit "id = { }", c ≠ 39 ∧ c ≠ 92 ∧ c ≠ 10 ∧ c ≠ 13 := by
      decide +kernel
    have hsplit : header = lit "id = { }" ++ [10] := by decide
    rw [hsplit, scan_plain hchars]
    rfl
  rw [List.append_assoc, scan_opened hfield,
    scan_plain fun c hc => digit_plain (hvalue c hc), hheader]
  rfl

/-! ## Statements that are cut -/

/-- Behind a name and a path, nothing that makes an assignment has been started:
what is there already cannot be one. -/
def stuckAt : List Token → Bool
  | .sym 46 :: .name _ :: ts => stuckAt ts
  | .name _ :: _ => true
  | .sym 61 :: .name _ :: _ => true
  | .sym 61 :: .sym 123 :: .name _ :: _ => true
  | _ => false

/-- Behind a name and a path, an assignment that has not come to its value. -/
def unfinished : List Token → Bool
  | [] => true
  | [.sym 46] => true
  | [.sym 61] => true
  | [.sym 61, .sym 123] => true
  | .sym 46 :: .name _ :: ts => unfinished ts
  | _ => false

/-- With the first line of the next start behind it, this text cannot be made a
program any more. -/
def dead (q : Str) : Bool :=
  match scan .start (q ++ header) with
  | some (.name _ :: ts, .start) => stuckAt ts
  | _ => false

/-- This text is not a program. -/
def broken (q : Str) : Bool :=
  match lex q with
  | some (.name _ :: ts) => unfinished ts
  | _ => false

/-- With the first line of the next start behind it, this text is an assignment
of an empty table. -/
def healed (q : Str) : Option Stat :=
  match scan .start (q ++ header) with
  | some (.name name :: ts, .start) =>
      match parsePath ts with
      | (fields, [.sym 61, .sym 123, .sym 125]) => some ⟨name, fields, .table []⟩
      | _ => none
  | _ => none

/-- One more field before it does not make an assignment out of what is none. -/
theorem parseStat_field {ts : List Token} {l : Nat} {name : Str} (h : parseStat l name ts = none)
    (field : Str) : parseStat l name (.sym 46 :: .name field :: ts) = none := by
  unfold parseStat at h ⊢
  rw [parsePath]
  cases hpath : parsePath ts with
  | mk fields rest =>
      rw [hpath] at h
      simp only at h ⊢
      split
      case h_1 heq =>
        injection heq with _ hrest
        subst hrest
        simpa using h
      case h_2 => rfl

/-- A table constructor that begins with a name and no `=` is not one this parser reads. -/
theorem parseExp_brace_name (n l : Nat) (s : Str) (ts : List Token) :
    parseExp n l (.sym 123 :: .name s :: ts) = none := by
  cases n with
  | zero =>
      cases l with
      | _ => simp [parseExp]
  | succ n =>
      cases l with
      | zero => simp [parseExp]
      | succ l =>
          cases n with
          | _ => simp [parseExp, parseFields]

theorem parseExp_name (n l : Nat) (s : Str) (ts : List Token) :
    parseExp n l (.name s :: ts) = none := by
  cases n with
  | _ =>
      cases l with
      | _ => simp [parseExp]

/-- Where the tokens of a cut line get the parser stuck, it stays stuck whatever follows. -/
theorem parseStat_stuckAt {ts : List Token} (h : stuckAt ts = true) (l : Nat) (name : Str)
    (rest : List Token) : parseStat l name (ts ++ rest) = none := by
  induction ts using stuckAt.induct with
  | case1 field ts ih =>
      rw [stuckAt] at h
      exact parseStat_field (ih h) field
  | case2 s ts => simp [parseStat, parsePath]
  | case3 s ts => simp [parseStat, parsePath, parseExp_name]
  | case4 s ts => simp [parseStat, parsePath, parseExp_brace_name]
  | case5 ts hfield hname hvalue hbrace =>
      rw [stuckAt] at h
      · simp at h
      all_goals assumption

/-- A brace at the very end opens no table. -/
theorem parseExp_brace (n l : Nat) : parseExp n l [.sym 123] = none := by
  cases n with
  | zero =>
      cases l with
      | _ => simp [parseExp]
  | succ n =>
      cases l with
      | zero => simp [parseExp]
      | succ l =>
          cases n with
          | _ => simp [parseExp, parseFields]

theorem parseExp_nil (n l : Nat) : parseExp n l [] = none := by
  cases n with
  | _ =>
      cases l with
      | _ => simp [parseExp]

/-- A statement that has been cut off in front of its value is none. -/
theorem parseStat_unfinished {ts : List Token} (h : unfinished ts = true) (l : Nat) (name : Str) :
    parseStat l name ts = none := by
  induction ts using unfinished.induct with
  | case1 => simp [parseStat, parsePath]
  | case2 => simp [parseStat, parsePath]
  | case3 => simp [parseStat, parsePath, parseExp_nil]
  | case4 => simp [parseStat, parsePath, parseExp_brace]
  | case5 field ts ih =>
      rw [unfinished] at h
      exact parseStat_field (ih h) field
  | case6 =>
      rw [unfinished] at h
      · simp at h
      all_goals assumption

theorem refused_stat {l : Nat} {name : Str} {ts : List Token} (h : parseStat l name ts = none) :
    Refused (l + 1) (.name name :: ts) := by
  intro n
  cases n with
  | zero => simp [parseStats]
  | succ n => rw [parseStats, h, Option.bind_none]

/-- The parser splits the tokens into the fields of a path and the rest. -/
theorem parsePath_eq {ts rest : List Token} {fields : List Str}
    (h : parsePath ts = (fields, rest)) : ts = pathTokens fields ++ rest := by
  induction ts using parsePath.induct generalizing fields rest with
  | case1 s ts _ _ _ ih =>
      rw [parsePath] at h
      cases hpath : parsePath ts with
      | mk fields' rest' =>
          rw [hpath] at h
          injection h with hfields hrest
          rw [ih hpath, ← hfields, hrest]
          rfl
  | case2 ts hne =>
      rw [parsePath] at h
      · injection h with hfields hrest
        rw [← hfields, hrest]
        rfl
      · exact hne

/-- A program that ends in the middle of an assignment. -/
theorem load_broken {stats : List Stat} (h : ∀ stat ∈ stats, Simple stat) {s q : Str}
    (hs : Reads s (stats.flatMap statTokens)) (hq : broken q = true) (l : Nat) :
    load (l + 2) (s ++ q) = none := by
  unfold broken at hq
  split at hq
  case h_2 => simp at hq
  case h_1 name ts hlex =>
    have hrefused := refused_stat (parseStat_unfinished hq (l + 1) name)
    unfold lex at hlex
    unfold load lex
    rw [hs]
    cases hscan : scan .start q with
    | none => rfl
    | some r =>
        rw [hscan, Option.bind_some] at hlex
        cases hfinish : finish r.2 with
        | none => simp [before, hfinish]
        | some last =>
            rw [hfinish, Option.map_some] at hlex
            injection hlex with hlex
            simp only [Option.map_some, Option.bind_some, before, hfinish]
            rw [List.append_assoc, hlex]
            exact parse_refused (fun stat hstat => (h stat hstat).readBack l) hrefused

/-- Whatever is added to it later, the file does not become a program again. -/
theorem load_dead {stats : List Stat} (h : ∀ stat ∈ stats, Simple stat) {s q : Str}
    (hs : Reads s (stats.flatMap statTokens)) (hq : dead q = true) (l : Nat) (rest : Str) :
    load (l + 2) (s ++ (q ++ header ++ rest)) = none := by
  unfold dead at hq
  split at hq
  case h_2 => simp at hq
  case h_1 name ts hscan =>
    refine load_refused (fun stat hstat => (h stat hstat).readBack l) hs (reads_of_scan hscan)
      (fun rest => ?_) rest
    exact refused_stat (parseStat_stuckAt hq (l + 1) name rest)

/-- What is left of a header that was cut off, with a new header behind it, reads as one
harmless statement. -/
theorem reads_healed {q : Str} {stat : Stat} (h : healed q = some stat) :
    Reads (q ++ header) (statTokens stat) ∧ stat.value = .table [] := by
  unfold healed at h
  split at h
  case h_2 => simp at h
  case h_1 name ts hscan =>
    split at h
    case h_2 => simp at h
    case h_1 fields hpath =>
      injection h with h
      rw [← h]
      refine ⟨?_, rfl⟩
      have hreads := reads_of_scan hscan
      rw [parsePath_eq hpath] at hreads
      exact hreads

/-! ## What the statements do -/

/-- `id` can be indexed, so an assignment to one of its fields does not raise. -/
def HasTable (globals : Globals) : Prop := ∃ es, globals (lit "id") = .table es

theorem run_headerStat (globals : Globals) :
    headerStat.run globals = .ok (Function.update globals (lit "id") (.table [])) := rfl

theorem hasTable_update (globals : Globals) (es : Entries) :
    HasTable (Function.update globals (lit "id") (.table es)) :=
  ⟨es, Function.update_self _ _ _⟩

/-- Assigning to a field of `id`. -/
theorem run_field {globals : Globals} {es : Entries} (h : globals (lit "id") = .table es)
    (field : Str) (v : LuaVal) :
    Stat.run globals ⟨lit "id", [field], v⟩ =
      .ok (Function.update globals (lit "id") (.table (set es (.str field) v))) := by
  unfold Stat.run
  rw [h]
  rfl

/-- The statements a cut line may have become: they leave a table in `id`. -/
def harmless (stat : Stat) : Bool :=
  match stat.fields with
  | [] => stat.name != lit "id"
  | [_] => stat.name == lit "id"
  | _ => false

/-- A harmless statement runs wherever `id` is a table, and leaves it one. -/
theorem run_harmless {stat : Stat} (h : harmless stat = true) {globals : Globals}
    (hid : HasTable globals) : ∃ globals', stat.run globals = .ok globals' ∧ HasTable globals' := by
  obtain ⟨es, hes⟩ := hid
  obtain ⟨name, fields, v⟩ := stat
  cases fields with
  | nil =>
      have hne : name ≠ lit "id" := by simpa [harmless] using h
      refine ⟨Function.update globals name v, rfl, es, ?_⟩
      rw [Function.update_of_ne hne.symm, hes]
  | cons field fields =>
      cases fields with
      | nil =>
          have hname : name = lit "id" := by simpa [harmless] using h
          rw [hname]
          exact ⟨_, run_field hes field v, hasTable_update _ _⟩
      | cons => simp [harmless] at h

def lines (pid cid : Str) : List Stat := [lineStat (lit "pid") pid, lineStat (lit "cid") cid]

/-- The table behind the two lines. -/
def withLines (pid cid : Str) (es : Entries) : Entries :=
  set (set es (.str (lit "pid")) (.str pid)) (.str (lit "cid")) (.str cid)

/-- The two lines of a file leave their two texts under `id`. -/
theorem get_withLines (pid cid : Str) (es : Entries) :
    get (withLines pid cid es) (.str (lit "pid")) = .str pid ∧
      get (withLines pid cid es) (.str (lit "cid")) = .str cid := by
  constructor
  · have hother : ∀ key, sameKey key (.str (lit "cid")) = true →
        sameKey key (.str (lit "pid")) = false := by
      intro key hkey
      cases key with
      | str s =>
          rw [sameKey_str] at hkey
          rw [hkey]
          decide
      | _ => rfl
    unfold withLines
    rw [get_set_of_ne (by simp) _ hother (by decide), get_set_self (by simp) _ (by decide)]
  · exact get_set_self (by simp) _ (by decide)

/-- The two lines make the identity complete, whatever `id` was. -/
theorem run_lines {globals : Globals} (h : HasTable globals) (pid cid : Str) :
    ∃ globals', (lines pid cid).foldlM Stat.run globals = .ok globals' ∧
      identity globals' = some (pid, cid) := by
  obtain ⟨es, hes⟩ := h
  let first := Function.update globals (lit "id") (.table (set es (.str (lit "pid")) (.str pid)))
  let second := Function.update first (lit "id") (.table (withLines pid cid es))
  have hpid : (lineStat (lit "pid") pid).run globals = .ok first := run_field hes (lit "pid") _
  have hfirst : first (lit "id") = .table (set es (.str (lit "pid")) (.str pid)) :=
    Function.update_self _ _ _
  have hcid : (lineStat (lit "cid") cid).run first = .ok second := run_field hfirst (lit "cid") _
  refine ⟨second, ?_, ?_⟩
  · unfold lines
    rw [List.foldlM_cons, hpid]
    show List.foldlM Stat.run first [lineStat (lit "cid") cid] = _
    rw [List.foldlM_cons, hcid]
    rfl
  · have hsecond : second (lit "id") = .table (withLines pid cid es) := Function.update_self _ _ _
    obtain ⟨hgetPid, hgetCid⟩ := get_withLines pid cid es
    unfold identity
    rw [hsecond]
    simp only [hgetPid, hgetCid]

theorem identity_setId (pid cid : Str) (globals : Globals) :
    identity (setId pid cid globals) = some (pid, cid) := by
  unfold identity setId
  rw [Function.update_self]
  rfl

/-! ## Files that settle -/

/-- Every start loads this identity from the file, and leaves the file as it is.  The PID
is in the file, and the CID the hash of it. -/
def Yields (h : Hashes) (pid content : Str) : Prop :=
  ∀ start : Start, ∃ globals, loadOrCreate h start (some content) = (.ok globals, some content) ∧
    identity globals = some (pid, h.hash pid)

/-- Once a start has found a file it can use, every later start finds the same file. -/
theorem fileAt_yields {h : Hashes} {pid content : Str} (hyields : Yields h pid content)
    {starts : Nat → Start} {file : Option Str} {k : Nat}
    (hk : fileAt h starts file k = some content) (n : Nat) :
    fileAt h starts file (k + n) = some content := by
  induction n with
  | zero => exact hk
  | succ n ih =>
      obtain ⟨globals, hload, -⟩ := hyields (starts (k + n))
      show (loadOrCreate h (starts (k + n)) (fileAt h starts file (k + n))).2 = _
      rw [ih, hload]

/-- And each of them gets the identity of this file. -/
theorem outcome_yields {h : Hashes} {pid content : Str} (hyields : Yields h pid content)
    (starts : Nat → Start) {file : Option Str} {k : Nat}
    (hk : fileAt h starts file k = some content) (n : Nat) :
    ∃ globals, outcome h starts file (k + n) = .ok globals ∧
      identity globals = some (pid, h.hash pid) := by
  obtain ⟨globals, hload, hidentity⟩ := hyields (starts (k + n))
  refine ⟨globals, ?_, hidentity⟩
  unfold outcome
  rw [fileAt_yields hyields hk n, hload]

/-- A file that is loaded by every start. -/
theorem stable_of_yields {h : Hashes} {pid content : Str} (hyields : Yields h pid content) :
    Stable h (some content) := by
  intro starts globals hfirst
  obtain ⟨globals', hfirst', hidentity⟩ := outcome_yields hyields starts (k := 0) rfl 0
  have hsame : globals' = globals := by
    rw [hfirst] at hfirst'
    injection hfirst' with hsame
    exact hsame.symm
  rw [hsame] at hidentity
  refine ⟨pid, hidentity, ?_⟩
  intro n
  have hlater := outcome_yields hyields starts (k := 0) rfl (n + 1)
  rw [Nat.zero_add] at hlater
  exact hlater

/-- A start that writes the file. -/
theorem loadOrCreate_create {h : Hashes} (start : Start) (file : Option Str)
    (hfile : loadfile start.levels file = none) (hwritable : start.writable = true) :
    ∃ pid, (∀ c ∈ pid, base32Digit c = true) ∧ createid h start.now = .ok (pid, h.hash pid) ∧
      loadOrCreate h start file = (.ok (setId pid (h.hash pid) start.globals),
        some (file.getD [] ++ idText pid (h.hash pid))) := by
  refine ⟨_, h.pas_digits _ _, createid_eq h start.now, ?_⟩
  unfold loadOrCreate
  simp only [hfile, hwritable, if_true, createid_eq]

theorem loadOrCreate_closed {h : Hashes} {start : Start} {file : Option Str}
    (hfile : loadfile start.levels file = none) (hwritable : start.writable = false) :
    loadOrCreate h start file = (.error .failed, file) := by
  unfold loadOrCreate
  simp [hfile, hwritable]

/-- A file that is no program, and becomes one. -/
theorem stable_of_created {h : Hashes} {file : Option Str}
    (hfile : ∀ l, loadfile (l + 2) file = none)
    (hyields : ∀ pid, (∀ c ∈ pid, base32Digit c = true) →
      Yields h pid (file.getD [] ++ idText pid (h.hash pid))) : Stable h file := by
  intro starts globals hfirst
  have henough := (starts 0).enough
  have hnone : loadfile (starts 0).levels file = none := by
    obtain ⟨l, hl⟩ : ∃ l, (starts 0).levels = l + 2 := ⟨(starts 0).levels - 2, by omega⟩
    rw [hl]
    exact hfile l
  have hwritable : (starts 0).writable = true := by
    cases hcase : (starts 0).writable with
    | true => rfl
    | false =>
        have hclosed := loadOrCreate_closed (h := h) hnone hcase
        unfold outcome at hfirst
        rw [show fileAt h starts file 0 = file from rfl, hclosed] at hfirst
        cases hfirst
  obtain ⟨pid, hdigits, -, hcreate⟩ := loadOrCreate_create (h := h) _ _ hnone hwritable
  have hglobals : globals = setId pid (h.hash pid) (starts 0).globals := by
    unfold outcome at hfirst
    rw [show fileAt h starts file 0 = file from rfl, hcreate] at hfirst
    injection hfirst with hsame
    exact hsame.symm
  have hnext : fileAt h starts file 1 = some (file.getD [] ++ idText pid (h.hash pid)) := by
    show (loadOrCreate h (starts 0) file).2 = _
    rw [hcreate]
  refine ⟨pid, ?_, ?_⟩
  · rw [hglobals, identity_setId]
  · intro n
    have hlater := outcome_yields (hyields pid hdigits) _ hnext n
    rw [Nat.add_comm] at hlater
    exact hlater

/-- These statements leave a table in `id`, where there was nothing.  It is what the lines
behind them need. -/
def Tabled (stats : List Stat) : Prop :=
  ∀ globals : Globals, globals (lit "id") = .nil →
    ∃ globals', stats.foldlM Stat.run globals = .ok globals' ∧ HasTable globals'

theorem tabled_header : Tabled [headerStat] := by
  intro globals _
  exact ⟨_, rfl, hasTable_update globals []⟩

/-- One more harmless statement at the end. -/
theorem Tabled.snoc {stats : List Stat} (h : Tabled stats) {stat : Stat}
    (hstat : harmless stat = true) : Tabled (stats ++ [stat]) := by
  intro globals hid
  obtain ⟨globals', hrun, htable⟩ := h globals hid
  obtain ⟨globals'', hrun', htable'⟩ := run_harmless hstat htable
  refine ⟨globals'', ?_, htable'⟩
  rw [List.foldlM_append, hrun]
  show List.foldlM Stat.run globals' [stat] = _
  rw [List.foldlM_cons, hrun']
  rfl

theorem harmless_line (field value : Str) : harmless (lineStat field value) = true := by
  simp [harmless, lineStat]

theorem simple_lines (pid cid : Str) : ∀ stat ∈ lines pid cid, Simple stat := by
  intro stat hstat
  rcases List.mem_cons.mp hstat with rfl | hstat
  · exact Or.inr ⟨pid, rfl⟩
  · rw [List.mem_singleton.mp hstat]
    exact Or.inr ⟨cid, rfl⟩

theorem simple_append {stats stats' : List Stat} (h : ∀ stat ∈ stats, Simple stat)
    (h' : ∀ stat ∈ stats', Simple stat) : ∀ stat ∈ stats ++ stats', Simple stat := by
  intro stat hstat
  rcases List.mem_append.mp hstat with hleft | hright
  · exact h stat hleft
  · exact h' stat hright

/-- A program of simple statements, at a start. -/
theorem loadOrCreate_run {h : Hashes} {stats : List Stat} (hsimple : ∀ stat ∈ stats, Simple stat)
    {content : Str} (hreads : Reads content (stats.flatMap statTokens)) (start : Start) :
    loadOrCreate h start (some content) =
      (stats.foldlM Stat.run start.globals, some content) := by
  have henough := start.enough
  obtain ⟨l, hl⟩ : ∃ l, start.levels = l + 2 := ⟨start.levels - 2, by omega⟩
  have hload : loadfile start.levels (some content) = some ⟨stats, .nothing⟩ := by
    rw [hl]
    exact load_stats (fun stat hstat => (hsimple stat hstat).readBack l) hreads
  unfold loadOrCreate
  simp only [hload]
  congr 1
  unfold Chunk.run
  cases stats.foldlM Stat.run start.globals with
  | error e => rfl
  | ok globals => rfl

/-- The two lines of a file as tokens, with anything behind them that has none. -/
theorem reads_lines {h : Hashes} {pid : Str} (hpid : ∀ c ∈ pid, base32Digit c = true)
    {tail : Str} (htail : Reads tail []) :
    Reads (line (lit "pid") pid ++ (opened (lit "cid") ++ (h.hash pid ++ 39 :: tail)))
      ((lines pid (h.hash pid)).flatMap statTokens) := by
  have hfirst := reads_closed (Or.inl rfl) hpid reads_lf
  have hsecond := reads_closed (Or.inr rfl) (h.hash_digits pid) htail
  have hquote : lit "'\n" = [39, 10] := by decide
  have hall := hfirst.append hsecond
  unfold line
  rw [hquote]
  show Reads _ (statTokens _ ++ (statTokens _ ++ []))
  rw [List.append_nil]
  exact hall

/-- A program that leaves a table in `id`, and the two lines behind it. -/
theorem yields_of_tabled {h : Hashes} {pid : Str} (hpid : ∀ c ∈ pid, base32Digit c = true)
    {stats : List Stat} (hsimple : ∀ stat ∈ stats, Simple stat) (htabled : Tabled stats) {s : Str}
    (hs : Reads s (stats.flatMap statTokens)) {tail : Str} (htail : Reads tail []) :
    Yields h pid
      (s ++ (line (lit "pid") pid ++ (opened (lit "cid") ++ (h.hash pid ++ 39 :: tail)))) := by
  intro start
  have hreads := hs.append (reads_lines (h := h) hpid htail)
  rw [← List.flatMap_append] at hreads
  obtain ⟨globals, hrun, htable⟩ := htabled start.globals start.noId
  obtain ⟨globals', hrun', hidentity⟩ := run_lines htable pid (h.hash pid)
  refine ⟨globals', ?_, hidentity⟩
  rw [loadOrCreate_run (simple_append hsimple (simple_lines pid (h.hash pid))) hreads,
    List.foldlM_append, hrun]
  exact congrArg (fun r => (r, _)) hrun'

theorem line_eq (field value : Str) : line field value = opened field ++ (value ++ 39 :: [10]) := by
  have hquote : lit "'\n" = [39, 10] := by decide
  unfold line
  rw [hquote]

/-- A file that begins with what was left of earlier ones, and ends with a whole one, gives
the identity of the whole one. -/
theorem yields_idText {h : Hashes} {pid : Str} (hpid : ∀ c ∈ pid, base32Digit c = true)
    (stats : List Stat) (hsimple : ∀ stat ∈ stats, Simple stat) (htabled : Tabled stats) {s : Str}
    (hs : Reads (s ++ header) (stats.flatMap statTokens)) :
    Yields h pid (s ++ idText pid (h.hash pid)) := by
  have hall := yields_of_tabled (h := h) hpid hsimple htabled hs
    reads_lf
  rw [← line_eq, List.append_assoc] at hall
  rw [idText_eq]
  exact hall

/-- No file at all. -/
theorem stable_absent (h : Hashes) : Stable h none := by
  refine stable_of_created (fun _ => rfl) ?_
  intro pid hpid
  refine yields_idText hpid [headerStat] ?_ tabled_header ?_
  · intro stat hstat
    rw [List.mem_singleton.mp hstat]
    exact Or.inl rfl
  · exact reads_header

/-- A cut inside the name of a line. -/
theorem stable_healed {h : Hashes} {stats : List Stat} (hsimple : ∀ stat ∈ stats, Simple stat)
    (htabled : Tabled stats) {s q : Str} (hs : Reads s (stats.flatMap statTokens))
    (hbroken : broken q = true) {stat : Stat} (hhealed : healed q = some stat)
    (hharmless : harmless stat = true) : Stable h (some (s ++ q)) := by
  obtain ⟨hreads, hvalue⟩ := reads_healed hhealed
  refine stable_of_created (fun l => load_broken hsimple hs hbroken l) ?_
  intro pid hpid
  have hone : ∀ stat' ∈ [stat], Simple stat' := by
    intro stat' hstat'
    rw [List.mem_singleton.mp hstat']
    exact Or.inl hvalue
  refine yields_idText hpid _ (simple_append hsimple hone) (htabled.snoc hharmless) ?_
  have hall := hs.append hreads
  rw [← List.append_assoc] at hall
  rw [List.flatMap_append, List.flatMap_singleton]
  exact hall

/-! ## Files that do not -/

/-- A start in a fresh state. -/
def startAt (now : Str) : Start where
  now := now
  writable := true
  levels := 2
  globals := fun _ => .nil
  enough := le_refl 2
  noId := rfl

/-- A program that does not make an identity. -/
theorem not_stable_of_incomplete {h : Hashes} {stats : List Stat}
    (hsimple : ∀ stat ∈ stats, Simple stat) {content : Str}
    (hreads : Reads content (stats.flatMap statTokens)) {globals : Globals}
    (hrun : stats.foldlM Stat.run (fun _ => .nil) = .ok globals)
    (hidentity : identity globals = none) : ¬ Stable h (some content) := by
  intro hstable
  have hfirst : outcome h (fun _ => startAt []) (some content) 0 = .ok globals := by
    show (loadOrCreate h (startAt []) (some content)).1 = _
    rw [loadOrCreate_run hsimple hreads]
    exact hrun
  obtain ⟨pid, hsome, -⟩ := hstable _ _ hfirst
  rw [hidentity] at hsome
  cases hsome

/-- A file no later start can read either: each of them makes an identity of its
own. -/
theorem not_stable_of_dead {h : Hashes} {content : Str} (hfile : load 2 content = none)
    (hdead : ∀ rest, load 2 (content ++ (header ++ rest)) = none) : ¬ Stable h (some content) := by
  intro hstable
  obtain ⟨now, now', hvaries⟩ := h.varies
  let starts : Nat → Start := fun n => if n = 0 then startAt now else startAt now'
  obtain ⟨pid, -, hcreateid, hcreate⟩ :=
    loadOrCreate_create (h := h) (startAt now) (some content) hfile rfl
  have hsecondFile : loadfile 2 (some (content ++ idText pid (h.hash pid))) = none := by
    rw [idText_eq]
    exact hdead _
  obtain ⟨pid', -, hcreateid', hcreate'⟩ :=
    loadOrCreate_create (h := h) (startAt now') _ hsecondFile rfl
  have hfirst : outcome h starts (some content) 0 = .ok (setId pid (h.hash pid) fun _ => .nil) := by
    show (loadOrCreate h (startAt now) (some content)).1 = _
    rw [hcreate]
    rfl
  have hsecond : outcome h starts (some content) 1 =
      .ok (setId pid' (h.hash pid') fun _ => .nil) := by
    show (loadOrCreate h (startAt now') (loadOrCreate h (startAt now) (some content)).2).1 = _
    rw [hcreate]
    show (loadOrCreate h (startAt now') (some (content ++ idText pid (h.hash pid)))).1 = _
    rw [hcreate']
    rfl
  obtain ⟨pid₀, hidentity, hlater⟩ := hstable starts _ hfirst
  obtain ⟨later, hlaterOutcome, hlaterIdentity⟩ := hlater 0
  rw [hsecond] at hlaterOutcome
  injection hlaterOutcome with hglobals
  rw [← hglobals, identity_setId] at hlaterIdentity
  rw [identity_setId] at hidentity
  have hsame : pid = pid' := by
    injection hidentity with hfst
    injection hlaterIdentity with hsnd
    injection hfst with hfst _
    injection hsnd with hsnd _
    rw [hfst, hsnd]
  rw [createid_eq] at hcreateid hcreateid'
  injection hcreateid with hpid
  injection hcreateid' with hpid'
  injection hpid with hpid _
  injection hpid' with hpid' _
  apply hvaries
  rw [show (startAt now).now = now from rfl] at hpid
  rw [show (startAt now').now = now' from rfl] at hpid'
  rw [hpid, hpid', hsame]

/-- Lines behind an assignment to another variable index a nil `id`. -/
theorem run_headless {stat : Stat} (hname : stat.name ≠ lit "id") (hfields : stat.fields = [])
    (pid cid : Str) :
    (stat :: lines pid cid).foldlM Stat.run (fun _ => .nil) = .error .index := by
  have hstat : stat.run (fun _ => .nil) =
      .ok (Function.update (fun _ => .nil) stat.name stat.value) := by
    unfold Stat.run
    rw [hfields]
    rfl
  have hnil : Function.update (fun _ => LuaVal.nil) stat.name stat.value (lit "id") = .nil :=
    Function.update_of_ne hname.symm _ _
  have hline : (lineStat (lit "pid") pid).run
      (Function.update (fun _ => .nil) stat.name stat.value) = .error .index := by
    unfold Stat.run lineStat
    rw [hnil]
    rfl
  rw [List.foldlM_cons, hstat]
  show List.foldlM Stat.run _ (lines pid cid) = _
  unfold lines
  rw [List.foldlM_cons, hline]
  rfl

/-- The first byte or two: the line of the next start becomes an assignment to
another variable, and there is no `id` to put the lines into. -/
theorem not_stable_of_headless {h : Hashes} {q : Str} (hbroken : broken q = true) (stat : Stat)
    (hhealed : healed q = some stat) (hname : stat.name ≠ lit "id") (hfields : stat.fields = []) :
    ¬ Stable h (some q) := by
  intro hstable
  obtain ⟨hreads, hvalue⟩ := reads_healed hhealed
  have hfile : load 2 q = none := by
    have hempty : ∀ stat ∈ ([] : List Stat), Simple stat := fun stat hstat => by simp at hstat
    have hnone := load_broken hempty reads_nil hbroken 0
    exact hnone
  obtain ⟨pid, hpid, -, hcreate⟩ :=
    loadOrCreate_create (h := h) (startAt []) (some q) hfile rfl
  have hfirst : outcome h (fun _ => startAt []) (some q) 0 =
      .ok (setId pid (h.hash pid) fun _ => .nil) := by
    show (loadOrCreate h (startAt []) (some q)).1 = _
    rw [hcreate]
    rfl
  have hsimple : ∀ stat' ∈ stat :: lines pid (h.hash pid), Simple stat' := by
    intro stat' hstat'
    rcases List.mem_cons.mp hstat' with rfl | hline
    · exact Or.inl hvalue
    · exact simple_lines pid (h.hash pid) stat' hline
  have hcontent : Reads (q ++ idText pid (h.hash pid))
      ((stat :: lines pid (h.hash pid)).flatMap statTokens) := by
    have hlines := reads_lines (h := h) hpid reads_lf
    have hall := hreads.append hlines
    rw [← line_eq, List.append_assoc] at hall
    rw [idText_eq]
    exact hall
  have hsecond : outcome h (fun _ => startAt []) (some q) 1 = .error .index := by
    show (loadOrCreate h (startAt []) (loadOrCreate h (startAt []) (some q)).2).1 = _
    rw [hcreate]
    show (loadOrCreate h (startAt []) (some (q ++ idText pid (h.hash pid)))).1 = _
    rw [loadOrCreate_run hsimple hcontent]
    exact run_headless hname hfields pid (h.hash pid)
  obtain ⟨_, _, hlater⟩ := hstable _ _ hfirst
  obtain ⟨later, hok, -⟩ := hlater 0
  rw [hsecond] at hok
  cases hok

/-! ## Every cut -/

theorem opened_length {field : Str} (hfield : half field) : (opened field).length = 10 := by
  rcases hfield with rfl | rfl
  · decide
  · decide

/-- A line that is cut inside its name. -/
theorem cut_name {field : Str} (hfield : half field) {m : Nat} (hpos : 0 < m) (hm : m ≤ 6) :
    broken ((opened field).take m) = true ∧
      ∃ stat, healed ((opened field).take m) = some stat ∧ harmless stat = true := by
  have hall : ∀ f ∈ [lit "pid", lit "cid"], ∀ k < 7, 0 < k →
      broken ((opened f).take k) = true ∧
        ((healed ((opened f).take k)).any harmless) = true := by
    decide
  have hmem : field ∈ [lit "pid", lit "cid"] := by simpa [half] using hfield
  obtain ⟨hbroken, hany⟩ := hall field hmem m (by omega) hpos
  refine ⟨hbroken, ?_⟩
  cases hhealed : healed ((opened field).take m) with
  | none => simp [hhealed] at hany
  | some stat => exact ⟨stat, rfl, by simpa [hhealed] using hany⟩

/-- A line that is cut between its name and its opening quote. -/
theorem cut_dead {field : Str} (hfield : half field) {m : Nat} (hpos : 6 < m) (hm : m ≤ 9) :
    broken ((opened field).take m) = true ∧ dead ((opened field).take m) = true := by
  have hall : ∀ f ∈ [lit "pid", lit "cid"], ∀ k < 10, 6 < k →
      broken ((opened f).take k) = true ∧ dead ((opened f).take k) = true := by
    decide
  have hmem : field ∈ [lit "pid", lit "cid"] := by simpa [half] using hfield
  exact hall field hmem m (by omega) hpos

/-- What is behind complete lines in a file that was cut inside the next one. -/
theorem stable_line_iff {h : Hashes} {stats : List Stat} (hsimple : ∀ stat ∈ stats, Simple stat)
    (htabled : Tabled stats) {s : Str} (hs : Reads s (stats.flatMap statTokens)) {field value : Str}
    (hfield : half field) (hvalue : ∀ c ∈ value, base32Digit c = true) {m : Nat} (hpos : 0 < m)
    (hm : m ≤ 10 + value.length) :
    Stable h (some (s ++ (line field value).take m)) ↔ m ≤ 6 := by
  have hlen := opened_length hfield
  have hcut : m ≤ 10 → (line field value).take m = (opened field).take m := by
    intro hle
    unfold line
    rw [List.take_append_of_le_length (by omega)]
  constructor
  · intro hstable
    by_contra hmore
    by_cases hquote : m ≤ 9
    case pos =>
      obtain ⟨hbroken, hdead⟩ := cut_dead hfield (by omega) hquote
      rw [hcut (by omega)] at hstable
      refine not_stable_of_dead (load_broken hsimple hs hbroken 0) ?_ hstable
      intro rest
      have hnone := load_dead hsimple hs hdead 0 rest
      simp only [List.append_assoc] at hnone ⊢
      exact hnone
    case neg =>
      have hinside : (line field value).take m = opened field ++ value.take (m - 10) := by
        have hrest : (value ++ lit "'\n").take (m - 10) = value.take (m - 10) :=
          List.take_append_of_le_length (by omega)
        unfold line
        rw [List.take_append, List.take_of_length_le (by omega), hlen, hrest]
      have hdigits : ∀ c ∈ value.take (m - 10), base32Digit c = true :=
        fun c hc => hvalue c (List.mem_of_mem_take hc)
      rw [hinside] at hstable
      refine not_stable_of_dead ?_ ?_ hstable
      · unfold load
        rw [lex_quoted hfield hdigits hs]
        rfl
      · intro rest
        have hnone := load_unfinished (l := 2) hs (scan_quoted hfield hdigits) rest
        simp only [List.append_assoc] at hnone ⊢
        exact hnone
  · intro hle
    obtain ⟨hbroken, stat, hhealed, hharmless⟩ := cut_name hfield hpos hle
    rw [hcut (by omega)]
    exact stable_healed hsimple htabled hs hbroken hhealed hharmless

/-- A file that was cut in its first line. -/
theorem not_stable_header {h : Hashes} {n : Nat} (hn : n ≤ 9) :
    ¬ Stable h (some (header.take n)) := by
  have hempty : ∀ stat ∈ ([] : List Stat), Simple stat := fun stat hstat => absurd hstat (by simp)
  have hheader : ∀ stat ∈ [headerStat], Simple stat := by
    intro stat hstat
    rw [List.mem_singleton.mp hstat]
    exact Or.inl rfl
  have hdead : ∀ q, broken q = true → dead q = true → ¬ Stable h (some q) := by
    intro q hbroken hq
    refine not_stable_of_dead (load_broken hempty reads_nil hbroken 0) ?_
    intro rest
    have hnone := load_dead hempty reads_nil hq 0 rest
    rw [List.nil_append, List.append_assoc] at hnone
    exact hnone
  interval_cases n
  · exact not_stable_of_incomplete hempty reads_nil rfl rfl
  · exact not_stable_of_headless (by decide) ⟨lit "iid", [], .table []⟩ rfl (by decide) rfl
  · exact not_stable_of_headless (by decide) ⟨lit "idid", [], .table []⟩ rfl (by decide) rfl
  · exact hdead _ (by decide) (by decide)
  · exact hdead _ (by decide) (by decide)
  · exact hdead _ (by decide) (by decide)
  · exact hdead _ (by decide) (by decide)
  · exact hdead _ (by decide) (by decide)
  · -- the line without its line feed
    refine not_stable_of_incomplete hheader (reads_of_scan ?_) (run_headerStat _) rfl
    decide
  · exact not_stable_of_incomplete hheader reads_header (run_headerStat _) rfl

theorem line_length (field : Str) (hfield : half field) (value : Str) :
    (line field value).length = 12 + value.length := by
  rw [line_eq, List.length_append, opened_length hfield]
  simp only [List.length_append, List.length_cons, List.length_nil]
  omega

/-- A line that was cut behind its closing quote. -/
theorem take_line (field : Str) (hfield : half field) (value : Str) {m : Nat}
    (hm : 11 + value.length ≤ m) :
    ∃ tail, (line field value).take m = opened field ++ (value ++ 39 :: tail) ∧
      Reads tail [] := by
  have hlen := opened_length hfield
  rw [line_eq]
  by_cases hall : 12 + value.length ≤ m
  case pos =>
    refine ⟨[10], List.take_of_length_le ?_, reads_lf⟩
    rw [← line_eq, line_length field hfield]
    exact hall
  case neg =>
    refine ⟨[], ?_, reads_nil⟩
    have hm' : m = (opened field).length + (value.length + 1) := by omega
    rw [hm', List.take_length_add_append, List.take_length_add_append]
    rfl

/-- **Which cuts the bot recovers from.**  After any initial state of `id.lua` a
run can have left, the first start that gets to its end has a complete identity,
and every later start comes to the same one, exactly if the file was absent, or
cut behind its last quote, or inside the name its second or third line starts
with. -/
theorem stable_iff (h : Hashes) (initial : Initial h) :
    Stable h initial.file ↔ initial.Recovers := by
  cases initial with
  | absent => exact ⟨fun _ => trivial, fun _ => stable_absent h⟩
  | cut pid hpid n =>
      have hcid := h.hash_digits pid
      have hheaderLen : header.length = 9 := by decide
      have hpidLen := line_length (lit "pid") (Or.inl rfl) pid
      have hheaderSimple : ∀ stat ∈ [headerStat], Simple stat := by
        intro stat hstat
        rw [List.mem_singleton.mp hstat]
        exact Or.inl rfl
      have hheaderReads : Reads header ([headerStat].flatMap statTokens) := reads_header
      show Stable h (some ((idText pid (h.hash pid)).take n)) ↔
        (9 < n ∧ n ≤ 15) ∨ (21 + pid.length < n ∧ n ≤ 21 + pid.length + 6) ∨
          21 + pid.length + (h.hash pid).length + 11 ≤ n
      rw [idText_eq]
      by_cases hfirst : n ≤ 9
      case pos =>
        have hno := not_stable_header (h := h) hfirst
        rw [List.take_append_of_le_length (by omega)]
        exact ⟨fun hstable => absurd hstable hno, fun hrecovers => by omega⟩
      case neg =>
        rw [List.take_append, List.take_of_length_le (l := header) (by omega), hheaderLen]
        by_cases hsecond : n - 9 ≤ 10 + pid.length
        case pos =>
          rw [List.take_append_of_le_length (by omega)]
          have hiff := stable_line_iff (h := h) hheaderSimple tabled_header hheaderReads
            (Or.inl rfl) hpid (m := n - 9) (by omega) hsecond
          rw [hiff]
          omega
        case neg =>
          obtain ⟨tail, htake, htail⟩ := take_line (lit "pid") (Or.inl rfl)
            pid (m := n - 9) (by omega)
          have hline := reads_closed (Or.inl rfl) hpid htail
          have hlines := hheaderReads.append hline
          have hsimple : ∀ stat ∈ [headerStat, lineStat (lit "pid") pid], Simple stat :=
            simple_append hheaderSimple fun stat hstat => by
              rw [List.mem_singleton.mp hstat]
              exact Or.inr ⟨pid, rfl⟩
          by_cases hthird : n ≤ 21 + pid.length
          case pos =>
            -- `id.pid` is there, and `id.cid` is not
            rw [List.take_append_of_le_length (by omega), htake]
            have hno := not_stable_of_incomplete (h := h) hsimple hlines rfl rfl
            exact ⟨fun hstable => absurd hstable hno, fun hrecovers => by omega⟩
          case neg =>
            have hwhole : (line (lit "pid") pid).take (n - 9) = line (lit "pid") pid :=
              List.take_of_length_le (by omega)
            rw [List.take_append, hwhole, hpidLen]
            by_cases hquote : n - 9 - (12 + pid.length) ≤ 10 + (h.hash pid).length
            case pos =>
              have htabled := tabled_header.snoc (harmless_line (lit "pid") pid)
              rw [← htake, hwhole] at hlines
              have hiff := stable_line_iff (h := h) hsimple htabled hlines (Or.inr rfl) hcid
                (m := n - 9 - (12 + pid.length)) (by omega) hquote
              rw [List.append_assoc] at hiff
              rw [hiff]
              omega
            case neg =>
              obtain ⟨tail', htake', htail'⟩ := take_line (lit "cid") (Or.inr rfl)
                (h.hash pid) (m := n - 9 - (12 + pid.length)) (by omega)
              rw [htake']
              have hyields := yields_of_tabled (h := h) hpid hheaderSimple tabled_header
                hheaderReads htail'
              exact ⟨fun _ => by omega, fun _ => stable_of_yields hyields⟩

/-- Hashes of one digit, which tells an even length from an odd one. -/
def parityHashes : Hashes where
  pas := fun pass _ => if pass.length % 2 = 0 then lit "A" else lit "B"
  hash := fun _ => lit "C"
  pas_digits := by
    intro pass salt
    split
    · exact List.all_eq_true.mp (by decide)
    · exact List.all_eq_true.mp (by decide)
  hash_digits := by
    intro pid
    exact List.all_eq_true.mp (by decide)
  varies := ⟨[], [32], by decide⟩

/-- An empty file stays empty, and there is no identity at any start. -/
theorem stable_empty_fails : ¬ ∀ (h : Hashes) (initial : Initial h), Stable h initial.file := by
  intro hall
  have hnone : ∀ c ∈ ([] : Str), base32Digit c = true := fun c hc => absurd hc (by simp)
  have hstable := hall parityHashes (.cut [] hnone 0)
  exact not_stable_header (h := parityHashes) (n := 0) (by omega) hstable

end LuadchAnnouncer.Core.Adc
