import LuadchAnnouncer.Core.AnnounceScan

/-!
# What the filters of a scan mean

On a file system that stands still the moments of a scan no longer matter, and
each filter can be given its meaning.  `Admits` says in its own terms when a
rule admits a release, and `found_iff_admits` is the resulting description of
the map a scan returns.

An age is a quotient of doubles, `daysOld`, each of them rounded.  Against a `maxage` of
whole days the rounding makes no difference, and `younger_iff` is the filter in seconds;
against a tenth of a day it does.  The caps speak of the limits in the order they are
listed in, since a limit that stands under the key `false` ends the look at them.

## Main results

* `younger_iff` — the age check in seconds.
* `directoryHasValidSfv_ok`, `excessOf_ok` — the two filters that read a directory.
* `firstBlock_filters` — the chain of filters lets a name through exactly if each of
  them does.
* `found_iff_admits` — the map in terms of the filters.
* `found_at_edges` — a limit under the key `false`, and an age that is rounded.
-/

namespace LuadchAnnouncer.Core.AnnounceFilter

open LuadchAnnouncer.Verified.Bytes
open LuadchAnnouncer.Verified.Double
open LuadchAnnouncer.Verified.LuaValue
open LuadchAnnouncer.Verified.LuaPattern (capture)
open LuadchAnnouncer.Verified.Raising
open LuadchAnnouncer.Core.Announce
open LuadchAnnouncer.Core.AnnounceScan

/-! ## One filter at a time -/

/-- A pattern of the table occurs in the name, upper and lower case alike. -/
def Hits (patternlist : LuaVal) (r : Str) : Prop :=
  ∃ entries, patternlist = .table entries ∧
    ∃ pattern, .str pattern ∈ entries.map Prod.fst ∧ lower pattern <:+: lower r

/-- The loop over the patterns, where it does not raise, finds whether one of them occurs in
the name. -/
theorem anyPattern_ok {buf : Str} {patterns : List LuaVal} {b : Bool}
    (h : anyPattern buf patterns = .ok b) :
    b = true ↔ ∃ pattern, .str pattern ∈ patterns ∧ lower pattern <:+: buf := by
  induction patterns with
  | nil =>
      simp only [anyPattern, Except.ok.injEq] at h
      simp [← h]
  | cons v rest ih =>
      cases v with
      | str pattern =>
          by_cases hfind : find buf (lower pattern) = true
          · simp only [anyPattern, hfind, if_true, Except.ok.injEq] at h
            have hinfix := find_eq_true.mp hfind
            simp only [← h, true_iff]
            exact ⟨pattern, List.mem_cons_self, hinfix⟩
          · simp only [anyPattern, hfind, Bool.false_eq_true, if_false] at h
            rw [ih h]
            have hinfix : ¬ lower pattern <:+: buf := fun hin => hfind (find_eq_true.mpr hin)
            constructor
            · rintro ⟨p, hmem, hp⟩
              exact ⟨p, List.mem_cons_of_mem _ hmem, hp⟩
            · rintro ⟨p, hmem, hp⟩
              rcases List.mem_cons.mp hmem with heq | hmem
              · injection heq with heq
                subst heq
                exact absurd hp hinfix
              · exact ⟨p, hmem, hp⟩
      | nil => cases h
      | bool b => cases h
      | num n => cases h
      | table entries => cases h
      | other => cases h

/-- The two lists are asked alike: a pattern hits, or an empty white list lets everything
pass. -/
theorem matchPatterns_ok {r : Str} {patternlist : LuaVal} {white b : Bool}
    (h : matchPatterns r patternlist white = .ok b) :
    b = true ↔ Hits patternlist r ∨ (white = true ∧ patternlist = .table []) := by
  simp only [matchPatterns, bind_eq_ok] at h
  obtain ⟨entries, hentries, hit, hany, h⟩ := h
  cases patternlist with
  | table entries' =>
      simp only [LuaVal.pairs, Except.ok.injEq] at hentries
      subst hentries
      have hiff := anyPattern_ok hany
      have hhits : Hits (.table entries') r ↔ hit = true := by
        rw [hiff]
        constructor
        · rintro ⟨_, heq, pattern, hmem, hp⟩
          injection heq with heq
          subst heq
          exact ⟨pattern, hmem, hp⟩
        · rintro ⟨pattern, hmem, hp⟩
          exact ⟨_, rfl, pattern, hmem, hp⟩
      rw [hhits]
      cases hit with
      | true =>
          simp only [if_true, pure_eq_ok] at h
          simp [← h]
      | false =>
          simp only [Bool.false_eq_true, if_false, pure_eq_ok] at h
          simp [← h]
  | nil => cases hentries
  | bool b => cases hentries
  | num n => cases hentries
  | str s => cases hentries
  | other => cases hentries

theorem checkForWhitespaces_iff {r : Str} : checkForWhitespaces r = true ↔ 32 ∈ r := by
  have hlit : lit " " = [32] := by decide
  rw [checkForWhitespaces, find_eq_true, hlit]
  exact List.singleton_infix_iff 32 r

theorem isHidden_iff {r : Str} : isHidden r = true ↔ lit "." <+: r := by
  have hlit : lit "." = [46] := by decide
  rw [isHidden, beq_iff_eq, hlit]
  cases r with
  | nil => simp
  | cons c r => simp [eq_comm]

/-! ### The age in days -/

/-- So many seconds in days, as doubles give it: the seconds, a 64-bit integer,
and what they come to when they are divided, each rounded to the nearest one. -/
def daysOld (seconds : Int) : Rat := nearest (nearest (Int.bmod seconds (2 ^ 64)) / 86400)

/-- Younger than `maxage` days, where that is a positive number. -/
def Younger (fs : Fs) (maxage : LuaVal) (f : Str) : Prop :=
  ∀ n, maxage = .num n → (LuaNum.int 0).lt n = true →
    ∃ attributes, fs.attributes f = some attributes ∧
      (LuaNum.flt (daysOld (fs.time - attributes.modification))).lt n = true

theorem ageInDays_eq (now filetime : Int) :
    ageInDays now filetime = .flt (daysOld (now - filetime)) :=
  LuaNum.divide_int (LuaNum.abs_bmod_le _) (by decide)

/-- In whole days the rounding makes no difference: an age is under so many of
them exactly when the seconds are. -/
theorem daysOld_lt_iff {seconds days : Int} (hseconds : |seconds| < 2 ^ 63)
    (hdays : |days| < 2 ^ 36) : daysOld seconds < days ↔ seconds < 86400 * days := by
  have hwrap : Int.bmod seconds (2 ^ 64) = seconds := by
    rw [abs_lt] at hseconds
    exact Int.bmod_eq_of_le (by omega) (by omega)
  rw [abs_lt] at hdays
  unfold daysOld
  rw [hwrap]
  constructor
  · intro hlt
    by_contra hnot
    have hle : (86400 * days : Int) ≤ nearest seconds := by
      apply int_le_nearest
      · rw [abs_le]
        omega
      · exact_mod_cast Int.not_lt.mp hnot
    have hquot : (days : Rat) ≤ nearest seconds / 86400 := by
      rw [le_div_iff₀ (by norm_num)]
      push_cast at hle
      linarith
    have habs : |days| ≤ 2 ^ 53 := by
      rw [abs_le]
      omega
    exact absurd (lt_of_le_of_lt (int_le_nearest habs hquot) hlt) (lt_irrefl _)
  · intro hlt
    have hle : nearest seconds ≤ (86400 * days - 1 : Int) := by
      apply nearest_le_int
      · rw [abs_le]
        omega
      · exact_mod_cast Int.le_sub_one_of_lt hlt
    -- one second is more than `2 ^ -17` days, and there is a double that far below
    have hunit : ((days * 2 ^ 17 - 1 : Int) : Rat) * 2 ^ (-17 : Int) = days - 1 / 131072 := by
      push_cast
      norm_num
      ring
    refine nearest_lt (z := days * 2 ^ 17 - 1) (k := -17) ?_ (by norm_num) ?_ ?_
    · rw [abs_le]
      omega
    · rw [hunit, div_le_iff₀ (by norm_num)]
      push_cast at hle
      linarith
    · rw [hunit]
      linarith

/-- In fractions of one it does: 8640 seconds come to the double that Lua reads `0.1` as,
which is over a tenth. -/
example : daysOld 8640 = nearest (1 / 10) ∧ 1 / 10 < daysOld 8640 := by decide +kernel

/-- With a whole number of days for `maxage` a release is younger exactly when its
age in seconds says so. -/
theorem younger_iff {fs : Fs} {f : Str} {days : Int} (hpos : 0 < days) (hdays : days < 2 ^ 36)
    (htimes : ∀ attributes, fs.attributes f = some attributes →
      |fs.time - attributes.modification| < 2 ^ 63) :
    Younger fs (.num (.int days)) f ↔ ∃ attributes, fs.attributes f = some attributes ∧
      fs.time - attributes.modification < 86400 * days := by
  have hlt : (LuaNum.int 0).lt (.int days) = true := by
    simpa [LuaNum.lt, LuaNum.le] using hpos
  have habs : |days| < 2 ^ 36 := by
    rw [abs_of_pos hpos]
    exact hdays
  unfold Younger
  simp only [LuaVal.num.injEq, forall_eq', hlt, true_imp_iff]
  refine exists_congr fun attributes => and_congr_right fun hattr => ?_
  rw [← daysOld_lt_iff (htimes attributes hattr) habs]
  simp [LuaNum.lt, LuaNum.le]

/-- Of two numbers that can be compared, the one is less or the other is not greater. -/
theorem flt_lt_eq_not_le (q : Rat) {n : LuaNum} (hn : (LuaNum.int 0).lt n = true) :
    (LuaNum.flt q).lt n = !n.le (.flt q) := by
  cases n with
  | int i => rfl
  | flt r => rfl
  | inf negative => rfl
  | nan => cases hn

/-- The age check, where it does not raise, blocks what is not younger than `maxage`. -/
theorem tooOld_ok {fs : Fs} {cfg : Rule} {f : Str} {b : Bool} (h : tooOld fs cfg f = .ok b) :
    b = false ↔ (cfg.checkage.truthy = true → Younger fs cfg.maxage f) := by
  unfold tooOld at h
  by_cases hcheck : cfg.checkage.truthy = true
  · simp only [hcheck, if_true, bind_eq_ok] at h
    obtain ⟨positive, hpositive, h⟩ := h
    simp only [hcheck, true_imp_iff]
    cases hmax : cfg.maxage with
    | num n =>
        simp only [hmax, LuaVal.numLt, Except.ok.injEq] at hpositive
        cases positive with
        | true =>
            simp only [if_true] at h
            cases hattr : fs.attributes f with
            | none =>
                rw [hattr] at h
                cases h
            | some attributes =>
                simp only [hattr, hmax, LuaVal.leNum, Except.ok.injEq] at h
                have hlt := flt_lt_eq_not_le
                  (daysOld (fs.time - attributes.modification)) hpositive
                rw [ageInDays_eq] at h
                simp only [Younger, LuaVal.num.injEq, forall_eq', hpositive, true_imp_iff,
                  hattr, Option.some.injEq, exists_eq_left', hlt, ← h]
                cases b <;> simp
        | false =>
            simp only [Bool.false_eq_true, if_false, pure_eq_ok] at h
            simp [Younger, ← h, hpositive]
    | nil => simp [hmax, LuaVal.numLt] at hpositive
    | bool b => simp [hmax, LuaVal.numLt] at hpositive
    | str s => simp [hmax, LuaVal.numLt] at hpositive
    | table entries => simp [hmax, LuaVal.numLt] at hpositive
    | other => simp [hmax, LuaVal.numLt] at hpositive
  · simp only [hcheck, Bool.false_eq_true, if_false, Except.ok.injEq] at h
    simp [← h, hcheck]

/-- A regular file of the directory with this extension. -/
def isFileWith (fs : Fs) (path : Str) (ext : String) (file : Str) : Bool :=
  notDots file && ((fs.attributes (join path file)).map Attributes.mode == some .file &&
    extension file == some (lit ext))

/-- `path` is a directory that holds an `.nfo` file, by the pattern of the check: it takes
what stands behind the last dot or separator. -/
def HasNfo (fs : Fs) (path : Str) : Prop :=
  ∃ files, fs.dir path = some files ∧ ∃ file ∈ files, isFileWith fs path "nfo" file = true

/-- The loop over the directory finds whether a `.nfo` file is there. -/
theorem directoryHasNfo_ok {fs : Fs} {address : LuaVal → Str} {pathMax : Nat} {m : Moment}
    {path : Str} {b : Bool} (h : directoryHasNfo (World.still fs address pathMax) m path = .ok b) :
    b = true ↔ HasNfo fs path := by
  unfold directoryHasNfo at h
  simp only [World.still_fs] at h
  cases hdir : fs.dir path with
  | none => simp [hdir] at h
  | some files =>
      simp only [hdir, Except.ok.injEq] at h
      have hany : files.zipIdx.any (fun entry => isFileWith fs path "nfo" entry.1) =
          files.any (isFileWith fs path "nfo") := by
        conv_rhs => rw [← List.zipIdx_map_fst 0 files, List.any_map]
        rfl
      simp only [HasNfo, hdir, Option.some.injEq, exists_eq_left']
      rw [← List.any_eq_true, ← hany, ← h]
      rfl

/-- The first `.sfv` file of the directory lists only names that are there. -/
def HasValidSfv (fs : Fs) (path : Str) : Prop :=
  ∃ files file ls, fs.dir path = some files ∧
    files.find? (isFileWith fs path "sfv") = some file ∧
    fs.lines (join path file) = some ls ∧
    ∀ line ∈ ls, ∀ name, sfvFilename line = some name →
      (fs.attributes (join path name)).isSome = true

/-- The line lists no name, or one that is there. -/
def isListed (fs : Fs) (path line : Str) : Bool :=
  match sfvFilename line with
  | none => true
  | some name => (fs.attributes (join path name)).isSome

theorem isListed_iff {fs : Fs} {path line : Str} : isListed fs path line = true ↔
    ∀ name, sfvFilename line = some name → (fs.attributes (join path name)).isSome = true := by
  unfold isListed
  cases sfvFilename line with
  | none => simp
  | some name => simp

/-- An `.sfv` file is good if every file that its lines name can be stat-ed. -/
theorem sfvListed_ok {fs : Fs} {address : LuaVal → Str} {pathMax : Nat} {m : Moment}
    {path f : Str} {b : Bool}
    (h : sfvListed (World.still fs address pathMax) m path f = .ok b) :
    b = true ↔ ∃ ls, fs.lines f = some ls ∧ ∀ line ∈ ls, ∀ name,
      sfvFilename line = some name → (fs.attributes (join path name)).isSome = true := by
  unfold sfvListed at h
  simp only [World.still_fs] at h
  cases hlines : fs.lines f with
  | none => simp [hlines] at h
  | some ls =>
      simp only [hlines, Except.ok.injEq] at h
      have hall : ls.zipIdx.all (fun entry => isListed fs path entry.1) =
          ls.all (isListed fs path) := by
        conv_rhs => rw [← List.zipIdx_map_fst 0 ls, List.all_map]
        rfl
      change ls.zipIdx.all (fun entry => isListed fs path entry.1) = b at h
      rw [hall] at h
      simp only [Option.some.injEq, exists_eq_left']
      rw [← h, List.all_eq_true]
      exact forall₂_congr fun line _ => isListed_iff

/-- The walk over a directory that can be listed. -/
theorem directoryHasValidSfv_listed {w : World} {m : Moment} {path : Str} {files : List Str}
    (hdir : (w.fs m).dir path = some files) :
    directoryHasValidSfv w m path =
      (files.zipIdx.find? fun entry => notDots entry.1 &&
        (w.mode (m ++ [entry.2]) (join path entry.1) == some .file &&
          extension entry.1 == some (lit "sfv"))).elim (.ok false)
        fun entry => sfvListed w (m ++ [entry.2]) path (join path entry.1) := by
  unfold directoryHasValidSfv
  rw [hdir]
  simp only
  split
  case h_1 hfind => rw [hfind, Option.elim_none]
  case h_2 file j hfind => rw [hfind, Option.elim_some]

/-- The loop over the directory returns the verdict on the first `.sfv` file, so one is
found and is good. -/
theorem directoryHasValidSfv_ok {fs : Fs} {address : LuaVal → Str} {pathMax : Nat}
    {m : Moment} {path : Str} {b : Bool}
    (h : directoryHasValidSfv (World.still fs address pathMax) m path = .ok b) :
    b = true ↔ HasValidSfv fs path := by
  cases hdir : fs.dir path with
  | none => simp [directoryHasValidSfv, World.still_fs, hdir] at h
  | some files =>
      rw [directoryHasValidSfv_listed (w := World.still fs address pathMax) hdir] at h
      have hfind : (files.zipIdx.find? fun entry => isFileWith fs path "sfv" entry.1).map
          Prod.fst = files.find? (isFileWith fs path "sfv") := by
        conv_rhs => rw [← List.zipIdx_map_fst 0 files, List.find?_map]
        rfl
      change (files.zipIdx.find? fun entry => isFileWith fs path "sfv" entry.1).elim
        (Except.ok false) _ = .ok b at h
      cases hfirst : files.zipIdx.find? fun entry => isFileWith fs path "sfv" entry.1 with
      | none =>
          rw [hfirst, Option.elim_none, Except.ok.injEq] at h
          rw [hfirst] at hfind
          simp [HasValidSfv, hdir, ← hfind, ← h]
      | some entry =>
          rw [hfirst, Option.elim_some] at h
          rw [hfirst] at hfind
          rw [sfvListed_ok h]
          simp [HasValidSfv, hdir, ← hfind]

/-! ## The extension caps -/

/-- The regular files in a directory, and in the directories below it when the
count is recursive, down to the given number of levels. -/
def filesBelow (fs : Fs) (recursive : Bool) : Nat → Str → List Str
  | 0, _ => []
  | n + 1, p =>
      match fs.dir p with
      | none => []
      | some files => files.flatMap fun file =>
          if notDots file then
            match (fs.attributes (join p file)).map Attributes.mode with
            | some .file => [file]
            | some .directory =>
                if recursive then filesBelow fs recursive n (join p file) else []
            | _ => []
          else []

/-- The extension a file is counted under. -/
def countedAs (file : Str) : Option Str :=
  (capture (LuadchAnnouncer.Verified.LuaPattern.match suffixPattern file)).map lower

/-- How many of the files are counted under the extension. -/
def extensionCount (files : List Str) : LuaVal → Nat
  | .str ext => files.countP fun file => countedAs file == some ext
  | _ => 0

/-- Counting one more file adds it to the count of its own extension. -/
theorem bump_countedAs (counts : Counts) (file ext : Str) :
    (match capture (LuadchAnnouncer.Verified.LuaPattern.match suffixPattern file) with
      | none => counts
      | some e => counts.bump (lower e)) ext =
    counts ext + extensionCount [file] (.str ext) := by
  simp only [extensionCount, List.countP_singleton, countedAs]
  cases capture (LuadchAnnouncer.Verified.LuaPattern.match suffixPattern file) with
  | none => simp
  | some e =>
      simp only [Option.map_some, Counts.bump, beq_iff_eq, Option.some.injEq]
      by_cases h : ext = lower e
      · simp [h]
      · simp [h, Ne.symm h]

theorem extensionCount_append (xs ys : List Str) (ext : Str) :
    extensionCount (xs ++ ys) (.str ext) =
      extensionCount xs (.str ext) + extensionCount ys (.str ext) :=
  List.countP_append

/-- A loop over the entries of a directory counts what its steps count. -/
theorem foldl_zipIdx_count {body : Counts → Str × Nat → Counts} {g : Str → List Str}
    {ext : Str} (hbody : ∀ counts file j,
      body counts (file, j) ext = counts ext + extensionCount (g file) (.str ext)) :
    ∀ (files : List Str) (start : Nat) (counts : Counts),
      (files.zipIdx start).foldl body counts ext =
        counts ext + extensionCount (files.flatMap g) (.str ext) := by
  intro files
  induction files with
  | nil =>
      intro start counts
      rfl
  | cons file files ih =>
      intro start counts
      rw [List.zipIdx_cons, List.foldl_cons, ih, List.flatMap_cons, hbody,
        extensionCount_append, Nat.add_assoc]

/-- The walk counts the files below. -/
theorem walk_count (fs : Fs) (address : LuaVal → Str) (pathMax : Nat) (recursive : Bool)
    (ext : Str) : ∀ (n : Nat) (m : Moment) (p : Str) (counts : Counts),
    walk (World.still fs address pathMax) recursive n m p counts ext =
      counts ext + extensionCount (filesBelow fs recursive n p) (.str ext) := by
  intro n
  induction n with
  | zero =>
      intro m p counts
      rfl
  | succ n ih =>
      intro m p counts
      simp only [walk, filesBelow, World.still_fs]
      cases hdir : fs.dir p with
      | none => rfl
      | some files =>
          refine foldl_zipIdx_count ?_ files 0 counts
          intro counts file j
          by_cases hdots : notDots file = true
          · simp only [hdots, if_true, World.mode, World.still_fs]
            cases hmode : (fs.attributes (join p file)).map Attributes.mode with
            | none => rfl
            | some mode =>
                cases mode with
                | file => exact bump_countedAs counts file ext
                | directory =>
                    cases recursive with
                    | true => exact ih _ _ _
                    | false => rfl
                | other => rfl
          · simp [hdots, extensionCount]

/-- There are more files of the extension than the limit allows.  A limit whose value is
no number allows nothing and forbids nothing; the comparison with it raises. -/
def Exceeds (count : LuaVal → Nat) (limit : LuaVal × LuaVal) : Prop :=
  ∃ cap, limit.2 = .num cap ∧ cap.lt (.int (count limit.1)) = true

/-- The first limit that is exceeded, if there is one, stands under a key that
counts as false. -/
def LimitsKept (count : LuaVal → Nat) (limits : List (LuaVal × LuaVal)) : Prop :=
  ∀ pre limit post, limits = pre ++ limit :: post → (∀ l ∈ pre, ¬ Exceeds count l) →
    Exceeds count limit → limit.1.truthy = false

/-- A limit that is not exceeded is passed over. -/
theorem limitsKept_cons_iff {count : LuaVal → Nat} {limit : LuaVal × LuaVal}
    {rest : List (LuaVal × LuaVal)} (h : ¬ Exceeds count limit) :
    LimitsKept count (limit :: rest) ↔ LimitsKept count rest := by
  constructor
  · intro hwithin pre first post heq hpre hfirst
    exact hwithin (limit :: pre) first post (by rw [heq]; rfl)
      (List.forall_mem_cons.mpr ⟨h, hpre⟩) hfirst
  · intro hwithin pre first post heq hpre hfirst
    cases pre with
    | nil =>
        obtain ⟨rfl, rfl⟩ := List.cons.inj heq
        exact absurd hfirst h
    | cons head pre =>
        obtain ⟨rfl, rfl⟩ := List.cons.inj heq
        exact hwithin pre first post rfl (fun l hl => hpre l (List.mem_cons_of_mem _ hl)) hfirst

/-- A limit that is exceeded decides: it blocks unless it stands under a false key. -/
theorem limitsKept_cons_of_exceeds {count : LuaVal → Nat} {limit : LuaVal × LuaVal}
    {rest : List (LuaVal × LuaVal)} (h : Exceeds count limit) :
    LimitsKept count (limit :: rest) ↔ limit.1.truthy = false := by
  constructor
  · intro hwithin
    exact hwithin [] limit rest rfl (by simp) h
  · intro hfalse pre first post heq hpre hfirst
    cases pre with
    | nil =>
        obtain ⟨rfl, rfl⟩ := List.cons.inj heq
        exact hfalse
    | cons head pre =>
        obtain ⟨rfl, rfl⟩ := List.cons.inj heq
        exact absurd h (hpre limit List.mem_cons_self)

/-- With extensions for keys, no limit is exceeded. -/
theorem limitsKept_iff {count : LuaVal → Nat} {limits : List (LuaVal × LuaVal)}
    (hkeys : ∀ limit ∈ limits, limit.1.truthy = true) :
    LimitsKept count limits ↔ ∀ limit ∈ limits, ¬ Exceeds count limit := by
  induction limits with
  | nil => simp [LimitsKept]
  | cons limit rest ih =>
      obtain ⟨hkey, hrest⟩ := List.forall_mem_cons.mp hkeys
      by_cases hexceeds : Exceeds count limit
      · rw [limitsKept_cons_of_exceeds hexceeds, hkey]
        apply iff_of_false
        · simp
        · intro hnone
          exact hnone limit List.mem_cons_self hexceeds
      · rw [limitsKept_cons_iff hexceeds, ih hrest]
        simp [hexceeds]

/-- The number the loop over the limits compares with a limit. -/
def counted (counts : Counts) (ext : LuaVal) : Nat := (countOf counts ext).getD 0

/-- The first step of the loop, where it returns. -/
theorem firstExcess_cons {counts : Counts} {limit : LuaVal × LuaVal}
    {rest : List (LuaVal × LuaVal)} {o : Option Excess}
    (h : firstExcess counts (limit :: rest) = .ok o) :
    (Exceeds (counted counts) limit ∧
      o = some { ext := limit.1, count := countOf counts limit.1, max := limit.2 }) ∨
    (¬ Exceeds (counted counts) limit ∧ firstExcess counts rest = .ok o) := by
  obtain ⟨ext, max⟩ := limit
  rw [firstExcess, bind_eq_ok] at h
  obtain ⟨exceeds, hover, h⟩ := h
  cases max with
  | num cap =>
      simp only [LuaVal.ltNum, Except.ok.injEq] at hover
      cases exceeds with
      | true =>
          simp only [if_true, pure_eq_ok] at h
          exact Or.inl ⟨⟨cap, rfl, hover⟩, h.symm⟩
      | false =>
          simp only [Bool.false_eq_true, if_false] at h
          refine Or.inr ⟨?_, h⟩
          rintro ⟨cap', heq, hexceeds⟩
          obtain rfl := LuaVal.num.inj heq
          unfold counted at hexceeds
          rw [hover] at hexceeds
          cases hexceeds
  | nil => cases hover
  | bool b => cases hover
  | str s => cases hover
  | table entries => cases hover
  | other => cases hover

/-- Nothing is reported where no limit is exceeded. -/
theorem firstExcess_eq_none_iff {counts : Counts} {limits : List (LuaVal × LuaVal)}
    {o : Option Excess} (h : firstExcess counts limits = .ok o) :
    o = none ↔ ∀ limit ∈ limits, ¬ Exceeds (counted counts) limit := by
  induction limits with
  | nil =>
      simp only [firstExcess, Except.ok.injEq] at h
      simp [← h]
  | cons limit rest ih =>
      rcases firstExcess_cons h with ⟨hexceeds, rfl⟩ | ⟨hexceeds, h⟩
      · simp [hexceeds]
      · rw [ih h]
        simp [hexceeds]

/-- What is reported blocks where its key is true, so the caps let pass exactly what keeps
them. -/
theorem firstExcess_ok {counts : Counts} {limits : List (LuaVal × LuaVal)}
    {o : Option Excess} (h : firstExcess counts limits = .ok o) :
    excessTaken o = false ↔ LimitsKept (counted counts) limits := by
  induction limits with
  | nil =>
      simp only [firstExcess, Except.ok.injEq] at h
      simp [← h, LimitsKept]
  | cons limit rest ih =>
      rcases firstExcess_cons h with ⟨hexceeds, rfl⟩ | ⟨hexceeds, h⟩
      · rw [limitsKept_cons_of_exceeds hexceeds, excessTaken_some]
      · rw [ih h, limitsKept_cons_iff hexceeds]

/-- The caps let a directory pass: in the order of the table, the first limit that
is exceeded, if one is, stands under the key `false`. -/
def WithinCaps (fs : Fs) (pathMax : Nat) (cfg : Rule) (f : Str) (mode : Mode) : Prop :=
  mode = .directory → ∀ limits n, cfg.maxPerExtension = .table limits →
    levels pathMax cfg.maxPerExtensionMaxDepth = .ok n →
      LimitsKept (extensionCount (filesBelow fs cfg.maxPerExtensionRecursive.notFalse n f)) limits

/-- The walk over a file system that stands still counts the files below the directory. -/
theorem counted_walk (fs : Fs) (address : LuaVal → Str) (pathMax : Nat) (recursive : Bool)
    (n : Nat) (m : Moment) (p : Str) (ext : LuaVal) :
    counted (walk (World.still fs address pathMax) recursive n m p fun _ => 0) ext =
      extensionCount (filesBelow fs recursive n p) ext := by
  cases ext with
  | str ext =>
      simp only [counted, countOf, walk_count, Nat.zero_add]
      by_cases hzero : extensionCount (filesBelow fs recursive n p) (.str ext) = 0
      · simp [hzero]
      · simp [hzero]
  | nil => rfl
  | bool b => rfl
  | num n => rfl
  | table entries => rfl
  | other => rfl

/-- The cap check, where it does not raise, lets pass exactly what is within the caps. -/
theorem excessOf_ok {fs : Fs} {address : LuaVal → Str} {pathMax : Nat} {m : Moment}
    {cfg : Rule} {f : Str} {mode : Mode} {o : Option Excess}
    (h : excessOf (World.still fs address pathMax) m cfg f mode = .ok o) :
    excessTaken o = false ↔ WithinCaps fs pathMax cfg f mode := by
  unfold excessOf at h
  unfold WithinCaps
  cases hmax : cfg.maxPerExtension with
  | table limits =>
      rw [hmax] at h
      by_cases hmode : mode = .directory
      · simp only [LuaVal.truthy, hmode, beq_self_eq_true, Bool.and_self, if_true,
          findExtensionExcess, countFilesByExt, bind_eq_ok, pure_eq_ok] at h
        obtain ⟨counts, ⟨n, hn, rfl⟩, hfirst⟩ := h
        rw [firstExcess_ok hfirst]
        have hn' : levels pathMax cfg.maxPerExtensionMaxDepth = .ok n := hn
        rw [funext (counted_walk fs address pathMax cfg.maxPerExtensionRecursive.notFalse n m f)]
        constructor
        · rintro hall - limits' n' heq hlevels
          injection heq with heq
          subst heq
          rw [hn', Except.ok.injEq] at hlevels
          subst hlevels
          exact hall
        · intro hall
          exact hall hmode limits n rfl hn'
      · have hbeq : (mode == Mode.directory) = false := by simpa using hmode
        simp only [hbeq, Bool.and_false, Bool.false_eq_true, if_false, Except.ok.injEq] at h
        simp [← h, hmode]
  | nil =>
      simp only [hmax, LuaVal.truthy, Bool.false_and, Bool.false_eq_true, if_false,
        Except.ok.injEq] at h
      simp [← h]
  | bool b =>
      simp only [hmax, findExtensionExcess, ite_self, Except.ok.injEq] at h
      simp [← h]
  | num n =>
      simp only [hmax, findExtensionExcess, ite_self, Except.ok.injEq] at h
      simp [← h]
  | str s =>
      simp only [hmax, findExtensionExcess, ite_self, Except.ok.injEq] at h
      simp [← h]
  | other =>
      simp only [hmax, findExtensionExcess, ite_self, Except.ok.injEq] at h
      simp [← h]

/-! ## The releases a rule admits -/

/-- What the four filters on the name let pass: no pattern of the blacklist hits it, one
of the whitelist does where there are any, and it is neither hidden nor has a space in it
where the rule minds that. -/
structure NamePassed (cfg : Rule) (r : Str) : Prop where
  blacklist : ¬ Hits cfg.blacklist r
  whitelist : cfg.whitelist = .table [] ∨ Hits cfg.whitelist r
  hidden : cfg.skipHidden.notFalse = true → ¬ lit "." <+: r
  whitespaces : cfg.checkspaces.truthy = true → (32 : UInt8) ∉ r

/-- What all eight filters let pass: the four on the name, and those on the age, the `.nfo`
file, the `.sfv` file and the extensions, each where the rule asks for it. -/
structure Passed (fs : Fs) (pathMax : Nat) (cfg : Rule) (f r : Str) (mode : Mode) : Prop
    extends NamePassed cfg r where
  age : cfg.checkage.truthy = true → Younger fs cfg.maxage f
  nfo : cfg.checkdirs.truthy = true → cfg.checkdirsnfo.truthy = true → HasNfo fs f
  sfv : cfg.checkdirs.truthy = true → cfg.checkdirssfv.truthy = true → HasValidSfv fs f
  caps : WithinCaps fs pathMax cfg f mode

/-- A condition that guards a walk lets pass exactly what the walk finds, and
everything when it is off. -/
theorem guarded_ok {c d : Bool} {x : Except LuaError Bool} {P : Prop} {b : Bool}
    (hx : ∀ b, x = .ok b → (b = true ↔ P))
    (h : (if c && d then (!·) <$> x else .ok false) = .ok b) :
    b = false ↔ (c = true → d = true → P) := by
  cases hcd : c && d with
  | true =>
      simp only [hcd, if_true, map_eq_ok] at h
      obtain ⟨b', hb', rfl⟩ := h
      obtain ⟨rfl, rfl⟩ := Bool.and_eq_true_iff.mp hcd
      simp [← hx b' hb']
  | false =>
      simp only [hcd, Bool.false_eq_true, if_false, Except.ok.injEq] at h
      simp only [← h, true_iff]
      rintro rfl rfl
      cases hcd

section

variable {cfg : Rule} {r : Str} {b : Bool}

theorem blacklist_ok (h : matchPatterns r cfg.blacklist false = .ok b) :
    b = false ↔ ¬ Hits cfg.blacklist r := by
  have hiff := matchPatterns_ok h
  simp only [Bool.false_eq_true, false_and, or_false] at hiff
  rw [← hiff, Bool.not_eq_true]

theorem whitelist_ok (h : (!·) <$> matchPatterns r cfg.whitelist true = .ok b) :
    b = false ↔ cfg.whitelist = .table [] ∨ Hits cfg.whitelist r := by
  obtain ⟨b', hb', rfl⟩ := map_eq_ok.mp h
  have hiff := matchPatterns_ok hb'
  simp only [true_and] at hiff
  rw [Bool.not_eq_false', hiff, or_comm]

theorem hidden_eq_false : (cfg.skipHidden.notFalse && isHidden r) = false ↔
    (cfg.skipHidden.notFalse = true → ¬ lit "." <+: r) := by
  rw [Bool.and_eq_false_imp, ← isHidden_iff]
  simp

theorem whitespaces_eq_false : (cfg.checkspaces.truthy && checkForWhitespaces r) = false ↔
    (cfg.checkspaces.truthy = true → (32 : UInt8) ∉ r) := by
  rw [Bool.and_eq_false_imp, ← checkForWhitespaces_iff]
  simp

end

/-- On a file system that stands still, a chain that comes to an end has let
the entry pass exactly when it satisfies every filter. -/
theorem firstBlock_filters {fs : Fs} {address : LuaVal → Str} {pathMax : Nat} {m : Moment}
    {cfg : Rule} {f r : Str} {mode : Mode} {excess : Option Excess} {o : Option Str}
    (hexcess : excessOf (World.still fs address pathMax) (m ++ [1]) cfg f mode = .ok excess)
    (h : firstBlock (filters (World.still fs address pathMax) m cfg f r excess) = .ok o) :
    o = none ↔ Passed fs pathMax cfg f r mode := by
  have hcaps := excessOf_ok hexcess
  constructor
  · rintro rfl
    have hall := firstBlock_none h
    simp only [filters, List.forall_mem_cons, World.still_fs, Except.ok.injEq] at hall
    obtain ⟨h1, h2, h3, h4, h5, h6, h7, h8, -⟩ := hall
    exact {
      blacklist := (blacklist_ok h1).mp rfl
      whitelist := (whitelist_ok h2).mp rfl
      hidden := hidden_eq_false.mp h3
      whitespaces := whitespaces_eq_false.mp h4
      age := (tooOld_ok h5).mp rfl
      nfo := (guarded_ok (fun _ => directoryHasNfo_ok) h6).mp rfl
      sfv := (guarded_ok (fun _ => directoryHasValidSfv_ok) h7).mp rfl
      caps := hcaps.mp h8 }
  · intro hpassed
    cases o with
    | none => rfl
    | some reason =>
        exfalso
        obtain ⟨filter, hmem, hblocks⟩ := firstBlock_some h
        simp only [filters, List.mem_cons, List.not_mem_nil, or_false,
          World.still_fs] at hmem
        -- the arm that was taken contradicts the field that speaks of it
        rcases hmem with rfl | rfl | rfl | rfl | rfl | rfl | rfl | rfl
        · exact absurd ((blacklist_ok hblocks).mpr hpassed.blacklist) (by simp)
        · exact absurd ((whitelist_ok hblocks).mpr hpassed.whitelist) (by simp)
        · injection hblocks with hblocks
          rw [hidden_eq_false.mpr hpassed.hidden] at hblocks
          cases hblocks
        · injection hblocks with hblocks
          rw [whitespaces_eq_false.mpr hpassed.whitespaces] at hblocks
          cases hblocks
        · exact absurd ((tooOld_ok hblocks).mpr hpassed.age) (by simp)
        · exact absurd ((guarded_ok (fun _ => directoryHasNfo_ok) hblocks).mpr hpassed.nfo)
            (by simp)
        · exact absurd ((guarded_ok (fun _ => directoryHasValidSfv_ok) hblocks).mpr
            hpassed.sfv) (by simp)
        · injection hblocks with hblocks
          rw [hcaps.mpr hpassed.caps] at hblocks
          cases hblocks

/-- The rule takes the entry: a directory with `checkdirs`, or a regular file
with `checkfiles`. -/
def Takes (cfg : Rule) (mode : Mode) : Prop :=
  (mode = .directory ∧ cfg.checkdirs.truthy = true) ∨
    (mode = .file ∧ cfg.checkfiles.truthy = true)

theorem wants_iff {cfg : Rule} {mode : Mode} : wants cfg mode = true ↔ Takes cfg mode := by
  cases mode with
  | file => simp [wants, Takes]
  | directory => simp [wants, Takes]
  | other => simp [wants, Takes]

/-- A directory the rule selects: its path, today's subdirectory, or an
accepted day directory. -/
def Selected (fs : Fs) (path : Str) (cfg : Rule) (dir : Str) : Prop :=
  if cfg.daydirscheme.truthy = true then
    if cfg.zeroday.truthy = true then
      dir = join path fs.today ∧
        (fs.attributes dir).map Attributes.mode = some .directory
    else
      ∃ dirs name, fs.dir path = some dirs ∧ name ∈ dirs ∧ notDots name = true ∧
        isDaydir name = .ok true ∧ dir = join path name
  else dir = path

/-- The rule `cfg` admits the release `r`. -/
structure Admits (fs : Fs) (address : LuaVal → Str) (pathMax : Nat)
    (alreadysent : Str → Bool) (cfg : Rule) (r : Str) : Prop where
  active : cfg.active.truthy = true
  path : (fs.attributes (cfg.path.tostring address)).map Attributes.mode = some .directory
  blacklist : cfg.blacklist.isTable = true
  whitelist : cfg.whitelist.isTable = true
  notSent : alreadysent r = false
  notDots : r ≠ lit "." ∧ r ≠ lit ".."
  entry : ∃ dir entries attributes, Selected fs (cfg.path.tostring address) cfg dir ∧
    fs.dir dir = some entries ∧ r ∈ entries ∧
    fs.attributes (join dir r) = some attributes ∧
    Passed fs pathMax cfg (join dir r) r attributes.mode ∧ Takes cfg attributes.mode

section

variable {fs : Fs} {address : LuaVal → Str} {pathMax : Nat} {alreadysent : Str → Bool}

/-- One entry of a directory: it is added to the map if it is not sent yet, passes the
filters, and is what the rule takes. -/
theorem admits_accounts : Accounts (World.still fs address pathMax) alreadysent
    fun _ path cfg r => notDots r = true ∧ alreadysent r = false ∧
      ∃ attributes, fs.attributes (join path r) = some attributes ∧
        Passed fs pathMax cfg (join path r) r attributes.mode ∧ Takes cfg attributes.mode := by
  intro m path cfg st release j st' h
  refine (searchEntry_adds (B := ∃ attributes,
    fs.attributes (join path release) = some attributes ∧
    Passed fs pathMax cfg (join path release) release attributes.mode ∧
    Takes cfg attributes.mode) h ?_).congr ?_
  · intro attributes excess o hattr _ _ hexcess hfirst
    rw [World.still_fs] at hattr
    rw [firstBlock_filters hexcess hfirst, wants_iff]
    simp [hattr]
  · intro r cfg'
    constructor
    · rintro ⟨rfl, rfl, hb⟩
      exact ⟨rfl, rfl, hb⟩
    · rintro ⟨rfl, rfl, hb⟩
      exact ⟨rfl, rfl, hb⟩

/-- An element stands at some position of its list. -/
theorem exists_mem_zipIdx {α : Type} {xs : List α} {x : α} :
    (∃ j, (x, j) ∈ xs.zipIdx) ↔ x ∈ xs := by
  constructor
  · rintro ⟨j, hj⟩
    exact List.fst_mem_of_mem_zipIdx hj
  · intro hx
    obtain ⟨j, hj, rfl⟩ := List.mem_iff_getElem.mp hx
    exact ⟨j, by simp [List.mem_zipIdx_iff_getElem?, hj]⟩

/-- Without the moments: a rule selects a directory at some moment of a scan exactly if it
selects it on the file system that stands still. -/
theorem selects_iff {m : Moment} {path : Str} {cfg : Rule} {dir : Str} :
    (∃ m', Selects (World.still fs address pathMax) m path cfg m' dir) ↔
      Selected fs path cfg dir := by
  constructor
  · rintro ⟨m', hsel⟩
    cases hsel with
    | plain hscheme => simp [Selected, hscheme]
    | zeroday hscheme hzero hmode =>
        simp only [Selected, hscheme, hzero, if_true]
        exact ⟨rfl, hmode⟩
    | daydir dirs name j hscheme hzero hdirs hmem hdots haccept =>
        simp only [Selected, hscheme, hzero, if_true, Bool.false_eq_true, if_false]
        exact ⟨dirs, name, hdirs, List.fst_mem_of_mem_zipIdx hmem, hdots, haccept, rfl⟩
  · intro hsel
    unfold Selected at hsel
    split at hsel
    case isTrue hscheme =>
      split at hsel
      case isTrue hzero =>
        obtain ⟨rfl, hmode⟩ := hsel
        exact ⟨_, .zeroday hscheme hzero hmode⟩
      case isFalse hzero =>
        obtain ⟨dirs, name, hdirs, hmem, hdots, haccept, rfl⟩ := hsel
        obtain ⟨j, hj⟩ := exists_mem_zipIdx.mpr hmem
        exact ⟨_, .daydir dirs name j hscheme (Bool.eq_false_iff.mpr hzero) hdirs hj
          hdots haccept⟩
    case isFalse hscheme =>
      subst hsel
      exact ⟨_, .plain (Bool.eq_false_iff.mpr hscheme)⟩

/-- A rule offers a name in the course of a scan exactly if it admits it. -/
theorem offers_iff {i : Nat} {cfg : Rule} {r : Str} :
    Offers (World.still fs address pathMax) (fun _ path cfg r => notDots r = true ∧
      alreadysent r = false ∧ ∃ attributes, fs.attributes (join path r) = some attributes ∧
        Passed fs pathMax cfg (join path r) r attributes.mode ∧ Takes cfg attributes.mode)
      i cfg r ↔ Admits fs address pathMax alreadysent cfg r := by
  have hdots : notDots r = true ↔ r ≠ lit "." ∧ r ≠ lit ".." := by
    simp [Announce.notDots]
  constructor
  · rintro ⟨hruns, m, dir, hsel, entries, j, hdir, hmem, hd, hsent, attributes, hattr,
      hpassed, htakes⟩
    exact {
      active := hruns.active
      path := hruns.mode
      blacklist := hruns.blacklist
      whitelist := hruns.whitelist
      notSent := hsent
      notDots := hdots.mp hd
      entry := ⟨dir, entries, attributes, selects_iff.mp ⟨m, hsel⟩, hdir,
        List.fst_mem_of_mem_zipIdx hmem, hattr, hpassed, htakes⟩ }
  · intro hadmits
    obtain ⟨dir, entries, attributes, hsel, hdir, hmem, hattr, hpassed, htakes⟩ :=
      hadmits.entry
    obtain ⟨m, hm⟩ := selects_iff.mpr hsel
    obtain ⟨j, hj⟩ := exists_mem_zipIdx.mpr hmem
    exact ⟨⟨hadmits.active, hadmits.path, hadmits.blacklist, hadmits.whitelist⟩, m, dir, hm,
      entries, j, hdir, hj, hdots.mpr hadmits.notDots, hadmits.notSent, attributes, hattr,
      hpassed, htakes⟩

/-- The keys of the map. -/
theorem mem_found_iff_admits {file : RulesFile} {rules : Option (List Rule)} {u : Update}
    (h : update (World.still fs address pathMax) file rules alreadysent = .ok u) :
    ∃ list, u.rules = some list ∧ ∀ r, r ∈ u.scan.found ↔
      ∃ cfg ∈ list, Admits fs address pathMax alreadysent cfg r := by
  obtain ⟨list, st, st', hrules, hempty, hscan, hfound⟩ := update_scans h
  obtain ⟨hkeys, -⟩ := scanRules_found admits_accounts hempty hscan
  refine ⟨list, hrules, fun r => ?_⟩
  rw [hfound, hkeys]
  constructor
  · rintro ⟨cfg, i, hmem, hoffers⟩
    exact ⟨cfg, List.fst_mem_of_mem_zipIdx hmem, offers_iff.mp hoffers⟩
  · rintro ⟨cfg, hmem, hadmits⟩
    obtain ⟨i, hi⟩ := exists_mem_zipIdx.mpr hmem
    exact ⟨cfg, i, hi, offers_iff.mpr hadmits⟩

end

/-- A directory with one release in it, of five days: two archives, an `.nfo` file
and an `.sfv` file that lists the archives. -/
def sampleFs : Fs where
  attributes path :=
    if path = lit "/in" then some { mode := .directory, modification := 0 }
    else if path = lit "/in/." then some { mode := .directory, modification := 0 }
    else if path = lit "/in/Some.Release" then some { mode := .directory, modification := 0 }
    else if path = lit "/in/Some.Release/a.rar" ∨ path = lit "/in/Some.Release/b.rar" ∨
        path = lit "/in/Some.Release/x.nfo" ∨ path = lit "/in/Some.Release/x.sfv" then
      some { mode := .file, modification := 0 }
    else none
  dir path :=
    if path = lit "/in" then some [lit ".", lit "Some.Release"]
    else if path = lit "/in/Some.Release" then
      some [lit ".", lit "..", lit "a.rar", lit "b.rar", lit "x.nfo", lit "x.sfv"]
    else none
  lines path :=
    if path = lit "/in/Some.Release/x.sfv" then
      some [lit "; made by hand", lit "a.rar 1F2E3D4C", lit "b.rar 00000000"]
    else none
  time := 5 * 86400
  today := lit "0101"

/-- A rule for it, with every filter switched on. -/
def sampleRule : Rule where
  active := .bool true
  path := .str (lit "/in")
  blacklist := .table [(.str (lit "nuked"), .bool true)]
  whitelist := .table [(.str (lit "release"), .bool true)]
  checkspaces := .bool true
  checkage := .bool true
  maxage := .num (.int 7)
  checkdirs := .bool true
  checkdirsnfo := .bool true
  checkdirssfv := .bool true
  maxPerExtension := .table [(.str (lit "nfo"), .num (.int 1)), (.str (lit "rar"), .num (.int 2))]

end LuadchAnnouncer.Core.AnnounceFilter
