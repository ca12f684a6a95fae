import Mathlib.Data.List.AList
import LuadchAnnouncer.Core.Log

/-!
# `core/announce.lua`

One call of `announce.update` walks the directories the rules name and
collects the releases to announce in the map `found`.

The file system may change between any two calls the scan makes, so a scan
runs in a `World` that answers every call separately: a `Moment` is the
position of a call in the scan (rule, directory entry, place in the code),
and `World.fs` gives the file system at that moment, with no relation assumed
between moments.  A scan of a file system that stands still is the special
case `World.still`.

The log is part of that world.  Every release that is blocked and every
directory that is searched or passed over is told to `log.event`, unprotected,
and `log.event` raises when it does not find its file, so a line that cannot be
logged ends the scan as a directory that cannot be listed does.  `World.log`
gives the state of the module `log` that each of these calls finds.

Errors are real here: `lfs.attributes` answers `nil` for what cannot be
stat-ed, `lfs.dir` and `io.lines` raise, and so does every operator that is
given a value of the wrong type.

The definitions follow the source function by function: the small predicates,
the two checks of what a release holds, `count_files_by_ext` and the excess it
is for, the chain of filters with the body of `search` around it, and
`announce.update`.
-/

namespace LuadchAnnouncer.Core.Announce

open LuadchAnnouncer.Verified.Bytes
open LuadchAnnouncer.Verified.LuaValue
open LuadchAnnouncer.Core.Log (LogState)
open LuadchAnnouncer.Verified.LuaPattern (Item noneOf char digit any capture)

/-! ## Rules and the file system -/

/-- One entry of the table `rules`.  A field may hold any value; one that is
left out is `nil`. -/
structure Rule where
  active : LuaVal := .nil
  path : LuaVal := .nil
  blacklist : LuaVal := .nil
  whitelist : LuaVal := .nil
  daydirscheme : LuaVal := .nil
  zeroday : LuaVal := .nil
  skipHidden : LuaVal := .nil
  checkspaces : LuaVal := .nil
  checkage : LuaVal := .nil
  maxage : LuaVal := .nil
  checkdirs : LuaVal := .nil
  checkdirsnfo : LuaVal := .nil
  checkdirssfv : LuaVal := .nil
  checkfiles : LuaVal := .nil
  maxPerExtension : LuaVal := .nil
  maxPerExtensionRecursive : LuaVal := .nil
  maxPerExtensionMaxDepth : LuaVal := .nil
  command : LuaVal := .nil
  category : LuaVal := .nil
  alibicheck : LuaVal := .nil
  alibinick : LuaVal := .nil

/-- The part of `lfs.attributes( path ).mode` the scan tells apart. -/
inductive Mode where
  | file
  | directory
  | other
  deriving DecidableEq, Repr

/-- What `lfs.attributes( path )` gives of a path that can be stat-ed, as far as
the scan looks at it. -/
structure Attributes where
  mode : Mode
  modification : Int
  deriving DecidableEq, Repr

/-- What the system answers at one moment.  `none` is `nil` plus an error for
`attributes`, and an error raised for `dir` and `lines`. -/
structure Fs where
  attributes : Str → Option Attributes
  dir : Str → Option (List Str)
  lines : Str → Option (List Str)
  time : Int
  today : Str

/-- The position of a call in the scan. -/
abbrev Moment := List Nat

/-- The surroundings of a scan.  `log` is the state in which a call of `log.event`
finds the module, `stamp` the time at the head of the line it writes.  `pathMax`
bounds the length of a path that can be opened, and with it the depth of any
walk. -/
structure World where
  fs : Moment → Fs
  log : Moment → LogState
  stamp : Moment → Str
  address : LuaVal → Str
  pathMax : Nat

/-- Nothing changes during the scan, and the log takes every line. -/
def World.still (fs : Fs) (address : LuaVal → Str) (pathMax : Nat) : World :=
  { fs := fun _ => fs
    log := fun _ => Log.load 2097152 none none
    stamp := fun _ => []
    address := address
    pathMax := pathMax }

@[simp] theorem World.still_fs (fs : Fs) (address : LuaVal → Str) (pathMax : Nat)
    (m : Moment) : (World.still fs address pathMax).fs m = fs := rfl

/-- `path .. "/" .. name` -/
def join (path name : Str) : Str := path ++ lit "/" ++ name

/-- `name ~= "." and name ~= ".."` -/
def notDots (name : Str) : Bool := name != lit "." && name != lit ".."

/-- `lfs.attributes( path, "mode" )` -/
def World.mode (w : World) (m : Moment) (path : Str) : Option Mode :=
  ((w.fs m).attributes path).map Attributes.mode

/-! ## The small predicates -/

/-- The loop of `match` over the patterns: one of them occurs in the name. -/
def anyPattern (buf : Str) : List LuaVal → Except LuaError Bool
  | [] => .ok false
  | .str pattern :: rest =>
      if find buf (lower pattern) then .ok true else anyPattern buf rest
  | _ :: _ => .error .index

/-- The local function `match`. -/
def matchPatterns (buf : Str) (patternlist : LuaVal) (white : Bool) :
    Except LuaError Bool := do
  let entries ← patternlist.pairs
  if ← anyPattern (lower buf) (entries.map Prod.fst) then
    return true
  else
    return white && entries.isEmpty

/-- `( os.time() - filetime ) / 86400`, a difference of integers and a quotient
of floats. -/
def ageInDays (now filetime : Int) : LuaNum := (LuaNum.wrap (now - filetime)).divide 86400

/-- A space occurs in the name. -/
def checkForWhitespaces (release : Str) : Bool := find release (lit " ")

/-- `num >= mini and maxi >= num`, of what `tonumber` makes of a capture. -/
def checkNumberBetween (num : Option Str) (mini maxi : Int) : Except LuaError Bool :=
  match num.bind LuaNum.ofStr with
  | none => .error .compare
  | some n => .ok (LuaNum.le (.int mini) n && n.le (.int maxi))

/-- The name starts with a dot. -/
def isHidden (name : Str) : Bool := name.take 1 == lit "."

/-- `".-[^\\/]-%.?([^%.\\/]*)$"` -/
def extensionPattern : List Item :=
  [.lazy any, .lazy (noneOf ['\\', '/']), .opt (char '.'),
    .openCapture, .star (noneOf ['.', '\\', '/']), .closeCapture, .atEnd]

/-- What follows the last dot of a file name, by that pattern. -/
def extension (file : Str) : Option Str :=
  capture (LuadchAnnouncer.Verified.LuaPattern.match extensionPattern file)

/-- `"%.([^%.]+)$"` -/
def suffixPattern : List Item :=
  [.one (char '.'), .openCapture, .plus (noneOf ['.']), .closeCapture, .atEnd]

/-- `"([^,]+) ([^,]+)"` -/
def sfvPattern : List Item :=
  [.openCapture, .plus (noneOf [',']), .closeCapture, .one (char ' '),
    .openCapture, .plus (noneOf [',']), .closeCapture]

/-- `"(%d%d)(%d%d)"` -/
def daydirPattern : List Item :=
  [.openCapture, .one digit, .one digit, .closeCapture,
    .openCapture, .one digit, .one digit, .closeCapture]

/-! ## What a release directory holds -/

/-- The directory holds a regular file with the extension `nfo`. -/
def directoryHasNfo (w : World) (m : Moment) (path : Str) : Except LuaError Bool :=
  match (w.fs m).dir path with
  | none => .error .call
  | some files =>
      .ok (files.zipIdx.any fun (file, j) =>
        notDots file && (w.mode (m ++ [j]) (join path file) == some .file &&
          extension file == some (lit "nfo")))

/-- The file name a line of an `.sfv` file lists, if it lists one. -/
def sfvFilename (line : Str) : Option Str :=
  if 0 < line.length ∧ line.head? ≠ some 59 then
    capture (LuadchAnnouncer.Verified.LuaPattern.match sfvPattern line)
  else none

/-- Every file the `.sfv` file at `f` lists can be stat-ed in `path`. -/
def sfvListed (w : World) (m : Moment) (path f : Str) : Except LuaError Bool :=
  match (w.fs (m ++ [0])).lines f with
  | none => .error .call
  | some ls =>
      .ok (ls.zipIdx.all fun (line, k) =>
        match sfvFilename line with
        | none => true
        | some name => ((w.fs (m ++ [k + 1])).attributes (join path name)).isSome)

/-- The first regular file of the directory with the extension `sfv` lists only
files that are there. -/
def directoryHasValidSfv (w : World) (m : Moment) (path : Str) : Except LuaError Bool :=
  match (w.fs m).dir path with
  | none => .error .call
  | some files =>
      match files.zipIdx.find? fun (file, j) =>
        notDots file && (w.mode (m ++ [j]) (join path file) == some .file &&
          extension file == some (lit "sfv")) with
      | none => .ok false
      | some (file, j) => sfvListed w (m ++ [j]) path (join path file)

/-! ## `count_files_by_ext` -/

/-- The table `counts`: zero is an absent key. -/
abbrev Counts := Str → Nat

/-- `counts[ ext ] = ( counts[ ext ] or 0 ) + 1` -/
def Counts.bump (counts : Counts) (ext : Str) : Counts :=
  fun e => if e = ext then counts e + 1 else counts e

/-- How many directory levels `depth > max_depth` lets through, `max_depth`
being 8 when the rule does not set it. -/
def levels (pathMax : Nat) (maxDepth : LuaVal) : Except LuaError Nat :=
  if maxDepth.truthy then
    match maxDepth with
    | .num (.int i) => .ok (i + 1).toNat
    | .num (.flt q) => .ok (q.floor + 1).toNat
    | .num (.inf true) => .ok 0
    | .num _ => .ok (pathMax + 1)
    | _ => .error .compare
  else .ok 9

/-- The local function `walk`, on the levels that are left. -/
def walk (w : World) (recursive : Bool) : Nat → Moment → Str → Counts → Counts
  | 0, _, _, counts => counts
  | n + 1, m, p, counts =>
      match (w.fs m).dir p with
      | none => counts
      | some files =>
          files.zipIdx.foldl (fun counts (file, j) =>
            if notDots file then
              match w.mode (m ++ [j, 0]) (join p file) with
              | some .file =>
                  match capture (LuadchAnnouncer.Verified.LuaPattern.match suffixPattern file) with
                  | none => counts
                  | some ext => counts.bump (lower ext)
              | some .directory =>
                  if recursive then walk w recursive n (m ++ [j, 1]) (join p file) counts
                  else counts
              | _ => counts
            else counts) counts

/-- The table the walk leaves. -/
def countFilesByExt (w : World) (m : Moment) (path : Str) (recursive : Bool)
    (maxDepth : LuaVal) : Except LuaError Counts := do
  let n ← levels w.pathMax maxDepth
  return walk w recursive n m path fun _ => 0

/-- The three results of `find_extension_excess`; `count` is `nil` for an
extension no file has. -/
structure Excess where
  ext : LuaVal
  count : Option Nat
  max : LuaVal

/-- `counts[ ext ]` -/
def countOf (counts : Counts) : LuaVal → Option Nat
  | .str ext => if counts ext = 0 then none else some (counts ext)
  | _ => none

/-- The loop over the limits, up to the first that is exceeded. -/
def firstExcess (counts : Counts) : List (LuaVal × LuaVal) → Except LuaError (Option Excess)
  | [] => .ok none
  | (ext, max) :: rest => do
      if ← max.ltNum (.int ((countOf counts ext).getD 0)) then
        return some { ext := ext, count := countOf counts ext, max := max }
      else firstExcess counts rest

/-- What `find_extension_excess` returns; a `limits` that is no table limits nothing. -/
def findExtensionExcess (w : World) (m : Moment) (path : Str) (limits : LuaVal)
    (recursive : Bool) (maxDepth : LuaVal) : Except LuaError (Option Excess) :=
  match limits with
  | .table entries => do
      let counts ← countFilesByExt w m path recursive maxDepth
      firstExcess counts entries
  | _ => .ok none

/-! ## `search` -/

/-- The releases to announce, each with the rule that found it. -/
abbrev Found := AList (fun _ : Str => Rule)

/-- What a scan has produced so far: `found`, the lines it has logged, and the
local counter of the search it is in. -/
structure Scan where
  found : Found := ∅
  logs : List Str := []
  count : Nat := 0

/-- The line is in the log. -/
def Scan.logged (st : Scan) (buf : Str) : Scan := { st with logs := st.logs ++ [buf] }

/-- `log.event( buf )`, in the state the call finds the module in. -/
def Scan.log (w : World) (m : Moment) (st : Scan) (buf : Str) : Except LuaError Scan := do
  let _ ← (w.log m).event (w.stamp m) buf
  return st.logged buf

/-- One arm of the filter chain: its condition, and the reason it logs.  Both may raise,
and the reason is only asked for where the condition holds. -/
structure Filter where
  blocks : Except LuaError Bool
  reason : Except LuaError Str

/-- `if .. elseif .. elseif ..`: the reason of the first arm that is taken. -/
def firstBlock : List Filter → Except LuaError (Option Str)
  | [] => .ok none
  | filter :: rest => do
      if ← filter.blocks then
        let reason ← filter.reason
        return some reason
      else firstBlock rest

/-- `cfg.checkage and cfg.maxage > 0 and age_in_days( .. ) >= cfg.maxage` -/
def tooOld (fs : Fs) (cfg : Rule) (f : Str) : Except LuaError Bool :=
  if cfg.checkage.truthy then do
    if ← cfg.maxage.numLt (.int 0) then
      match fs.attributes f with
      | none => throw .index
      | some attributes =>
          cfg.maxage.leNum (ageInDays fs.time attributes.modification)
    else return false
  else .ok false

/-- The pre-computed excess of a release. -/
def excessOf (w : World) (m : Moment) (cfg : Rule) (f : Str) (mode : Mode) :
    Except LuaError (Option Excess) :=
  if cfg.maxPerExtension.truthy && mode == .directory then
    findExtensionExcess w m f cfg.maxPerExtension cfg.maxPerExtensionRecursive.notFalse
      cfg.maxPerExtensionMaxDepth
  else .ok none

/-- `"too many ." .. excess_ext .. " files (" .. excess_cnt .. " > " .. excess_max .. ")"` -/
def excessReason (excess : Option Excess) : Except LuaError Str :=
  match excess with
  | none => .ok []
  | some excess => do
      let ext ← excess.ext.concatText
      let cnt ← match excess.count with
        | none => Except.error LuaError.concat
        | some n => .ok (LuaNum.natText n)
      let max ← excess.max.concatText
      return lit "too many ." ++ ext ++ lit " files (" ++ cnt ++ lit " > " ++ max ++ lit ")"

/-- `excess_ext` as a condition.  It is the key of the limit, so a limit under the
key `false` is passed over. -/
def excessTaken (excess : Option Excess) : Bool := (excess.map Excess.ext).any LuaVal.truthy

@[simp] theorem excessTaken_none : excessTaken none = false := rfl

@[simp] theorem excessTaken_some (excess : Excess) :
    excessTaken (some excess) = excess.ext.truthy := rfl

/-- The filter chain for one release, in the order of the code. -/
def filters (w : World) (m : Moment) (cfg : Rule) (f release : Str)
    (excess : Option Excess) : List Filter :=
  [ ⟨matchPatterns release cfg.blacklist false, .ok (lit "Blacklist")⟩,
    ⟨(!·) <$> matchPatterns release cfg.whitelist true, .ok (lit "Whitelist")⟩,
    ⟨.ok (cfg.skipHidden.notFalse && isHidden release), .ok (lit "Hidden (dot-prefix)")⟩,
    ⟨.ok (cfg.checkspaces.truthy && checkForWhitespaces release), .ok (lit "Whitespaces")⟩,
    ⟨tooOld (w.fs (m ++ [2])) cfg f, .ok (lit "Max Age")⟩,
    ⟨if cfg.checkdirs.truthy && cfg.checkdirsnfo.truthy then
        (!·) <$> directoryHasNfo w (m ++ [3]) f
      else .ok false, .ok (lit "NFO Check: No NFO file found")⟩,
    ⟨if cfg.checkdirs.truthy && cfg.checkdirssfv.truthy then
        (!·) <$> directoryHasValidSfv w (m ++ [4]) f
      else .ok false, .ok (lit "SFV Check")⟩,
    ⟨.ok (excessTaken excess), excessReason excess⟩ ]

/-- The last branch: the rule takes releases of this kind. -/
def wants (cfg : Rule) : Mode → Bool
  | .directory => cfg.checkdirs.truthy
  | .file => cfg.checkfiles.truthy
  | .other => false

/-- `announce.blocked`, which nothing ever adds to. -/
def blocked : List Str := []

/-- The body of the loop in `search`. -/
def searchEntry (w : World) (m : Moment) (alreadysent : Str → Bool) (path : Str)
    (cfg : Rule) (st : Scan) (entry : Str × Nat) : Except LuaError Scan := do
  let (release, j) := entry
  let m := m ++ [1, j]
  let f := join path release
  match (w.fs (m ++ [0])).attributes f with
  | none => throw .index
  | some attributes =>
      if notDots release && !blocked.contains release && !alreadysent release then
        let excess ← excessOf w (m ++ [1]) cfg f attributes.mode
        match ← firstBlock (filters w m cfg f release excess) with
        | some reason =>
            Scan.log w m { st with count := st.count + 1 }
              (lit "Release: '" ++ release ++ lit "' blocked. | Reason: " ++ reason)
        | none =>
            if wants cfg attributes.mode then
              return { st with found := st.found.insert release cfg }
            else return st
      else return st

/-- The local function `search`. -/
def search (w : World) (m : Moment) (alreadysent : Str → Bool) (path : Str) (cfg : Rule)
    (st : Scan) : Except LuaError Scan :=
  match (w.fs (m ++ [0])).dir path with
  | none => .error .call
  | some entries => do
      let st ← entries.zipIdx.foldlM (searchEntry w m alreadysent path cfg)
        { st with count := 0 }
      st.log w (m ++ [2]) (lit "Releases blocked: " ++ LuaNum.natText st.count)

/-! ## `announce.update` -/

/-- What `loadfile` and running the chunk make of `cfg/rules.lua`: it does not
load, it raises, or it leaves something in the global `rules`, which may not be
a table. -/
inductive RulesFile where
  | broken (err : Str)
  | raises
  | leaves (rules : Option (List Rule))

/-- The test on the name of a day directory. -/
def isDaydir (dir : Str) : Except LuaError Bool :=
  match LuaNum.ofStr dir with
  | none => .ok false
  | some _ => do
      let captures := LuadchAnnouncer.Verified.LuaPattern.match daydirPattern dir
      if ← checkNumberBetween (captures.bind (·[1]?)) 1 31 then
        checkNumberBetween (captures.bind (·[0]?)) 1 12
      else return false

/-- The body of the day directory loop. -/
def daydirEntry (w : World) (m : Moment) (alreadysent : Str → Bool) (path : Str)
    (cfg : Rule) (st : Scan) (entry : Str × Nat) : Except LuaError Scan := do
  let (dir, j) := entry
  if notDots dir then
    if ← isDaydir dir then
      search w (m ++ [j]) alreadysent (join path dir) cfg st
    else
      st.log w (m ++ [j]) (lit "Warning: directory '" ++ dir ++
        lit "' fits not in 4 digit day dir scheme, skipping...")
  else return st

/-- The directories a rule selects below its path, searched. -/
def searchRule (w : World) (m : Moment) (alreadysent : Str → Bool) (path : Str)
    (cfg : Rule) (st : Scan) : Except LuaError Scan :=
  if cfg.daydirscheme.truthy then
    if cfg.zeroday.truthy then
      let today := join path (w.fs (m ++ [1])).today
      if w.mode (m ++ [1]) today = some .directory then
        search w (m ++ [2]) alreadysent today cfg st
      else
        st.log w (m ++ [1]) (lit "Warning: directory '" ++ today ++
          lit "' seems not to exist, skipping...")
    else
      match (w.fs (m ++ [1])).dir path with
      | none => .error .call
      | some dirs => dirs.zipIdx.foldlM (daydirEntry w (m ++ [2]) alreadysent path cfg) st
  else search w (m ++ [2]) alreadysent path cfg st

/-- The body of the loop over the rules. -/
def updateRule (w : World) (alreadysent : Str → Bool) (st : Scan) (entry : Rule × Nat) :
    Except LuaError Scan :=
  let (cfg, i) := entry
  if cfg.active.truthy then
    let path := cfg.path.tostring w.address
    if w.mode [i, 0] path ≠ some .directory then
      st.log w [i, 0] (lit "Warning: directory '" ++ path ++
        lit "' is not a directory or does not exist, skipping...")
    else if !cfg.blacklist.isTable || !cfg.whitelist.isTable then
      st.log w [i, 0] (lit "Warning: config for '" ++ path ++ lit "' is broken, skipping...")
    else do
      let st ← st.log w [i, 0] (lit "Searching in '" ++ path ++ lit "'...")
      searchRule w [i] alreadysent path cfg st
  else .ok st

/-- The scan proper, with the rules in the order `pairs` visits them. -/
def scanRules (w : World) (alreadysent : Str → Bool) (rules : List Rule) (st : Scan) :
    Except LuaError Scan :=
  rules.zipIdx.foldlM (updateRule w alreadysent) st

/-- The results of one call: the global `rules` afterwards, and the scan. -/
structure Update where
  rules : Option (List Rule)
  scan : Scan

/-- Loading `rules.lua` over the rules of the last call. -/
def loadRules (w : World) (file : RulesFile) (rules : Option (List Rule)) :
    Except LuaError (Option (List Rule) × Scan) :=
  match file with
  | .broken err => do
      let st ← Scan.log w [0] {} (lit "Your rules.lua is broken: " ++ err ++
        lit "; Using old configuration.")
      return (rules, st)
  | .raises => .error .failed
  | .leaves rules => .ok (rules, {})

/-- `announce.update( )`. -/
def update (w : World) (file : RulesFile) (rules : Option (List Rule))
    (alreadysent : Str → Bool) : Except LuaError Update := do
  let (rules, st) ← loadRules w file rules
  let st ← st.log w [1] (lit "Search directories for updates...")
  match rules with
  | none => throw .call
  | some list =>
      let st ← scanRules w alreadysent list st
      let st ← st.log w [2] (lit "...finished. Found " ++
        LuaNum.natText st.found.entries.length ++ lit " new releases.")
      return { rules := rules, scan := st }

/-! ## A line in the log -/

/-- Where a line can be logged, the scan goes on with the line in its log and nothing else
changed. -/
theorem Scan.log_ok {w : World} {m : Moment} {st st' : Scan} {buf : Str}
    (h : st.log w m buf = .ok st') : st' = st.logged buf := by
  unfold Scan.log at h
  cases hevent : (w.log m).event (w.stamp m) buf with
  | error e =>
      rw [hevent] at h
      cases h
  | ok log =>
      rw [hevent] at h
      injection h with h
      exact h.symm

@[simp] theorem Scan.logged_found (st : Scan) (buf : Str) : (st.logged buf).found = st.found := rfl

/-- While nothing changes the log takes every line. -/
@[simp] theorem Scan.log_still (fs : Fs) (address : LuaVal → Str) (pathMax : Nat) (m : Moment)
    (st : Scan) (buf : Str) :
    st.log (World.still fs address pathMax) m buf = .ok (st.logged buf) := rfl

end LuadchAnnouncer.Core.Announce
