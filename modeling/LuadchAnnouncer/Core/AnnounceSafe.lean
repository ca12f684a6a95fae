import LuadchAnnouncer.Core.AnnounceFilter
import LuadchAnnouncer.Core.AnnounceScheme
import LuadchAnnouncer.Core.LogRotation

/-!
# When a scan raises

Nothing between `announce.update` and the reconnect loop of a frontend catches
an error, so a scan that raises ends the process.  For rules with the field
types the configuration dialogs write, `update_returns_iff` gives the exact
condition under which it does not: what must be readable, and when, for every
rule, directory and entry the scan comes to.

The walk behind the extension caps is guarded, and all it needs is that its limits
can be compared with numbers.  Everything else the scan asks the system has to be
answered: each entry is stat-ed before it is looked at, and again for its age, and
the directories that are searched, the day directories, and the releases checked
for `.nfo` and `.sfv` files are listed unguarded.

What the scan tells the log is a question of the same kind.  `log.event` raises
when it does not find `logfile.txt` or cannot cut it, so `LogReady` is asked of
every moment at which a line is due: before and after the search, for each rule
that is switched on, for each directory that is searched or passed over, and for
each release that is blocked.

The condition follows the code from the inside out.  `Asked` is one filter of the
chain: its question has an answer, and what comes of the answer is seen to, the
line in the log on one side and the rest of the chain on the other.  `EntrySafe`,
`SearchSafe`, `RuleSafe` and `UpdateSafe` are what the loops around it need, and
each of them comes with the lemma that the definition it is named for returns if
and only if it holds.

## Main results

* `searchEntry_returns_iff`, `search_returns_iff`, `updateRule_returns_iff` — the
  body of the loop, a directory, a rule.
* `update_returns_iff` — the whole call, over the rules that are in force, whether
  `rules.lua` has been loaded or not.
-/

namespace LuadchAnnouncer.Core.AnnounceSafe

open LuadchAnnouncer.Verified.Bytes
open LuadchAnnouncer.Verified.LuaValue
open LuadchAnnouncer.Verified.LuaPattern (digit)
open LuadchAnnouncer.Verified.Raising
open LuadchAnnouncer.Core.Announce
open LuadchAnnouncer.Core.LogRotation (LogReady event_returns_iff)
open LuadchAnnouncer.Core.AnnounceScheme
open LuadchAnnouncer.Core.AnnounceScan
open LuadchAnnouncer.Core.AnnounceFilter

/-! ## Rules with the types the dialogs write -/

/-- A rule as the dialogs keep it: switches are booleans, `maxage` is a number,
the two lists have string keys.  The last fields are the ones only the shipped
`rules.lua` mentions, which no dialog writes, and they may hold anything. -/
structure TypedRule where
  active : Bool
  path : Str
  blacklist : List (Str × LuaVal)
  whitelist : List (Str × LuaVal)
  daydirscheme : Bool
  zeroday : Bool
  checkspaces : Bool
  checkage : Bool
  maxage : LuaNum
  checkdirs : Bool
  checkdirsnfo : Bool
  checkdirssfv : Bool
  checkfiles : Bool
  command : Str
  category : Str
  alibicheck : Bool
  alibinick : Str
  skipHidden : LuaVal := .nil
  maxPerExtension : LuaVal := .nil
  maxPerExtensionRecursive : LuaVal := .nil
  maxPerExtensionMaxDepth : LuaVal := .nil

/-- A table with string keys. -/
def strTable (entries : List (Str × LuaVal)) : LuaVal :=
  .table (entries.map fun (k, v) => (.str k, v))

/-- The rule as a table of values. -/
def TypedRule.rule (t : TypedRule) : Rule where
  active := .bool t.active
  path := .str t.path
  blacklist := strTable t.blacklist
  whitelist := strTable t.whitelist
  daydirscheme := .bool t.daydirscheme
  zeroday := .bool t.zeroday
  skipHidden := t.skipHidden
  checkspaces := .bool t.checkspaces
  checkage := .bool t.checkage
  maxage := .num t.maxage
  checkdirs := .bool t.checkdirs
  checkdirsnfo := .bool t.checkdirsnfo
  checkdirssfv := .bool t.checkdirssfv
  checkfiles := .bool t.checkfiles
  maxPerExtension := t.maxPerExtension
  maxPerExtensionRecursive := t.maxPerExtensionRecursive
  maxPerExtensionMaxDepth := t.maxPerExtensionMaxDepth
  command := .str t.command
  category := .str t.category
  alibicheck := .bool t.alibicheck
  alibinick := .str t.alibinick

/-! ## What one entry needs -/

section

variable (w : World) (m : Moment) (cfg : Rule) (f : Str)

/-- Every limit up to the first that is exceeded can be compared with a number. -/
def Comparable (count : LuaVal → Nat) : List (LuaVal × LuaVal) → Prop
  | [] => True
  | limit :: rest =>
      (∃ n, limit.2 = .num n) ∧ (¬ Exceeds count limit → Comparable count rest)

/-- The caps of a directory can be looked at: the depth of the walk, if the rule sets
one, is a number, and so are the limits as far as they are compared. -/
def CapsKnown (mode : Mode) : Prop :=
  mode = .directory → ∀ limits, cfg.maxPerExtension = .table limits →
    ∃ n, levels w.pathMax cfg.maxPerExtensionMaxDepth = .ok n ∧
      Comparable (counted
        (walk w cfg.maxPerExtensionRecursive.notFalse n (m ++ [1]) f fun _ => 0)) limits

/-- The second `lfs.attributes` of the age filter is answered.  It comes after the one of
the loop, and the entry may be gone by then; the code indexes what it gets. -/
def AgeKnown : Prop :=
  cfg.checkage.truthy = true → ∀ n, cfg.maxage = .num n → (LuaNum.int 0).lt n = true →
    ((w.fs (m ++ [2])).attributes f).isSome = true

/-- The age filter lets the release pass. -/
def AgePassed : Prop := tooOld (w.fs (m ++ [2])) cfg f = .ok false

/-- The release can be listed for the `.nfo` check. -/
def NfoReadable : Prop :=
  cfg.checkdirs.truthy = true → cfg.checkdirsnfo.truthy = true →
    ((w.fs (m ++ [3])).dir f).isSome = true

/-- The check for an `.nfo` file, where the rule asks for one, finds one. -/
def NfoPassed : Prop :=
  cfg.checkdirs.truthy = true → cfg.checkdirsnfo.truthy = true →
    directoryHasNfo w (m ++ [3]) f = .ok true

/-- An entry `directory_has_valid_sfv` opens: a regular file with the extension
`sfv`, stat-ed at its turn. -/
def isSfvEntry (m : Moment) (entry : Str × Nat) : Bool :=
  notDots entry.1 && (w.mode (m ++ [entry.2]) (join f entry.1) == some .file &&
    extension entry.1 == some (lit "sfv"))

/-- The release can be listed for the `.sfv` check, and its first `.sfv` file
can be read. -/
def SfvReadable : Prop :=
  cfg.checkdirs.truthy = true → cfg.checkdirssfv.truthy = true →
    ∃ files, (w.fs (m ++ [4])).dir f = some files ∧
      ∀ file j, files.zipIdx.find? (isSfvEntry w f (m ++ [4])) = some (file, j) →
        ((w.fs (m ++ [4] ++ [j] ++ [0])).lines (join f file)).isSome = true

/-- The check of the first `.sfv` file, where the rule asks for it, finds nothing
missing. -/
def SfvPassed : Prop :=
  cfg.checkdirs.truthy = true → cfg.checkdirssfv.truthy = true →
    directoryHasValidSfv w (m ++ [4]) f = .ok true

/-- The cap that is reported, if one is, is over a count that can be printed, and
the report can be logged: it is not a negative cap for an extension no file has. -/
def CapsPrintable (mode : Mode) : Prop :=
  ∀ excess, excessOf w (m ++ [1]) cfg f mode = .ok (some excess) →
    excess.ext.truthy = true → excess.count ≠ none ∧ LogReady (w.log m)

/-- One filter asks its question.  There is an answer; where the release is blocked
the log takes the line that says so, and where it passes the rest is in order. -/
def Asked (known passed rest : Prop) : Prop :=
  known ∧ (¬ passed → LogReady (w.log m)) ∧ (passed → rest)

end

/-- What the scan of the entry `r` needs: it can be stat-ed, and each question
the chain gets to has an answer. -/
def EntrySafe (w : World) (alreadysent : Str → Bool) (m : Moment) (path : Str) (cfg : Rule)
    (r : Str) : Prop :=
  ∃ attributes, (w.fs (m ++ [0])).attributes (join path r) = some attributes ∧
    (notDots r = true → alreadysent r = false →
      CapsKnown w m cfg (join path r) attributes.mode ∧
      Asked w m True (NamePassed cfg r)
        (Asked w m (AgeKnown w m cfg (join path r)) (AgePassed w m cfg (join path r))
          (Asked w m (NfoReadable w m cfg (join path r)) (NfoPassed w m cfg (join path r))
            (Asked w m (SfvReadable w m cfg (join path r)) (SfvPassed w m cfg (join path r))
              (CapsPrintable w m cfg (join path r) attributes.mode)))))

/-! ## One filter at a time -/

/-- The chain comes to an end, and where it blocks, `L` holds: the reason is put into a
line for the log. -/
def Ends (L : Prop) (filters : List Filter) : Prop :=
  ∃ o, firstBlock filters = .ok o ∧ (o.isSome = true → L)

theorem ends_nil {L : Prop} : Ends L [] := ⟨none, rfl, by simp⟩

/-- A chain comes to an end when its first question is answered and what
follows does. -/
theorem ends_cons {L : Prop} {filter : Filter} {rest : List Filter} :
    Ends L (filter :: rest) ↔
      ∃ b, filter.blocks = .ok b ∧ (b = true → Returns filter.reason ∧ L) ∧
        (b = false → Ends L rest) := by
  unfold Ends
  simp only [firstBlock, bind_eq_ok]
  constructor
  · rintro ⟨o, ⟨b, hb, h⟩, hL⟩
    refine ⟨b, hb, ?_, ?_⟩
    · rintro rfl
      simp only [if_true, bind_eq_ok, pure_eq_ok] at h
      obtain ⟨reason, hreason, rfl⟩ := h
      exact ⟨⟨reason, hreason⟩, hL rfl⟩
    · rintro rfl
      exact ⟨o, h, hL⟩
  · rintro ⟨b, hb, hblock, hpass⟩
    cases b with
    | true =>
        obtain ⟨⟨reason, hreason⟩, hL⟩ := hblock rfl
        refine ⟨some reason, ⟨true, hb, ?_⟩, fun _ => hL⟩
        simp [hreason, bind, Except.bind, pure, Except.pure]
    | false =>
        obtain ⟨o, ho, hL⟩ := hpass rfl
        exact ⟨o, ⟨false, hb, ho⟩, hL⟩

/-- A filter that logs a fixed reason: once its question is answered, the chain
ends here or goes on. -/
theorem ends_fixed {L : Prop} {blocks : Except LuaError Bool} {reason : Str}
    {rest : List Filter} :
    Ends L (⟨blocks, .ok reason⟩ :: rest) ↔
      Returns blocks ∧ (blocks ≠ .ok false → L) ∧ (blocks = .ok false → Ends L rest) := by
  rw [ends_cons]
  simp only
  cases blocks with
  | error e => simp
  | ok b =>
      cases b with
      | true => simp
      | false => simp

/-- The keys of the lists are strings, so each of them can be lowered and looked for. -/
theorem anyPattern_returns (buf : Str) {patterns : List LuaVal}
    (h : ∀ v ∈ patterns, ∃ s, v = .str s) : Returns (anyPattern buf patterns) := by
  induction patterns with
  | nil => exact returns_ok false
  | cons v rest ih =>
      obtain ⟨hv, hrest⟩ := List.forall_mem_cons.mp h
      obtain ⟨pattern, rfl⟩ := hv
      by_cases hfind : find buf (lower pattern) = true
      · rw [anyPattern, if_pos hfind]
        exact returns_ok true
      · rw [anyPattern, if_neg hfind]
        exact ih hrest

/-- The two name filters of a typed rule never raise. -/
theorem matchPatterns_returns (r : Str) (entries : List (Str × LuaVal)) (white : Bool) :
    Returns (matchPatterns r (strTable entries) white) := by
  have hstrings : ∀ v ∈ (entries.map fun (k, v) => (LuaVal.str k, v)).map Prod.fst,
      ∃ s, v = LuaVal.str s := by
    intro v hv
    simp only [List.map_map, List.mem_map, Function.comp_apply] at hv
    obtain ⟨entry, -, rfl⟩ := hv
    exact ⟨entry.1, rfl⟩
  obtain ⟨hit, hhit⟩ := anyPattern_returns (lower r) hstrings
  refine returns_bind_iff.mpr ⟨_, rfl, returns_bind_iff.mpr ⟨hit, hhit, ?_⟩⟩
  cases hit with
  | true => exact returns_ok _
  | false => exact returns_ok _

section

variable {w : World} {m : Moment} {t : TypedRule} {f : Str}

/-- The age check raises where the entry has vanished between the two calls of
`lfs.attributes`, and nowhere else. -/
theorem tooOld_returns_iff :
    Returns (tooOld (w.fs (m ++ [2])) t.rule f) ↔ AgeKnown w m t.rule f := by
  unfold tooOld AgeKnown
  cases hcheck : t.checkage with
  | false =>
      simp [TypedRule.rule, hcheck, LuaVal.truthy]
  | true =>
      simp only [TypedRule.rule, hcheck, LuaVal.truthy, if_true, LuaVal.numLt, true_imp_iff,
        LuaVal.num.injEq, forall_eq']
      rw [returns_bind_iff]
      simp only [Except.ok.injEq, exists_eq_left']
      by_cases hpos : (LuaNum.int 0).lt t.maxage = true
      · simp only [hpos, if_true, true_imp_iff]
        cases (w.fs (m ++ [2])).attributes f with
        | none => simp [Returns]
        | some attributes => simp [LuaVal.leNum]
      · simp [hpos, Returns]

theorem directoryHasNfo_returns_iff {m : Moment} :
    Returns (directoryHasNfo w m f) ↔ ((w.fs m).dir f).isSome = true := by
  unfold directoryHasNfo
  cases (w.fs m).dir f with
  | none => simp
  | some files => simp

theorem sfvListed_returns_iff {m : Moment} {path : Str} :
    Returns (sfvListed w m path f) ↔ ((w.fs (m ++ [0])).lines f).isSome = true := by
  unfold sfvListed
  cases (w.fs (m ++ [0])).lines f with
  | none => simp
  | some ls => simp

/-- The loop lists the directory without a guard and opens the first `.sfv` file it comes
upon; it reads no second one. -/
theorem directoryHasValidSfv_returns_iff {m : Moment} :
    Returns (directoryHasValidSfv w m f) ↔
      ∃ files, (w.fs m).dir f = some files ∧
        ∀ file j, files.zipIdx.find? (isSfvEntry w f m) = some (file, j) →
          ((w.fs (m ++ [j] ++ [0])).lines (join f file)).isSome = true := by
  cases hdir : (w.fs m).dir f with
  | none => simp [directoryHasValidSfv, hdir]
  | some files =>
      simp only [Option.some.injEq, exists_eq_left']
      rw [directoryHasValidSfv_listed hdir]
      change Returns ((files.zipIdx.find? (isSfvEntry w f m)).elim (Except.ok false) _) ↔ _
      cases files.zipIdx.find? (isSfvEntry w f m) with
      | none => simp
      | some entry =>
          simp only [Option.some.injEq, Option.elim_some]
          rw [sfvListed_returns_iff]
          constructor
          · rintro h file j rfl
            exact h
          · intro h
            exact h entry.1 entry.2 rfl

/-- A guarded question is answered when it is not asked or its walk returns. -/
theorem guarded_returns_iff {c d : Bool} {x : Except LuaError Bool} :
    Returns (if c && d then (!·) <$> x else .ok false) ↔
      (c = true → d = true → Returns x) := by
  cases c with
  | false => simp
  | true =>
      cases d with
      | false => simp
      | true => simp [returns_map_iff]

/-- A check that is switched off passes, and one that is on passes where its walk says so. -/
theorem guarded_eq_false_iff {c d : Bool} {x : Except LuaError Bool} :
    (if c && d then (!·) <$> x else .ok false) = .ok false ↔
      (c = true → d = true → x = .ok true) := by
  cases c with
  | false => simp
  | true =>
      cases d with
      | false => simp
      | true => simp [map_eq_ok]

/-- The loop over the limits returns when they can be compared. -/
theorem firstExcess_returns_iff {counts : Counts} {limits : List (LuaVal × LuaVal)} :
    Returns (firstExcess counts limits) ↔ Comparable (counted counts) limits := by
  induction limits with
  | nil =>
      simp only [firstExcess, Comparable, iff_true]
      exact returns_ok none
  | cons limit rest ih =>
      unfold Comparable
      rw [← ih]
      constructor
      · rintro ⟨o, ho⟩
        constructor
        · obtain ⟨ext, max⟩ := limit
          rw [firstExcess, bind_eq_ok] at ho
          obtain ⟨exceeds, hover, -⟩ := ho
          cases max with
          | num n => exact ⟨n, rfl⟩
          | nil => cases hover
          | bool b => cases hover
          | str s => cases hover
          | table entries => cases hover
          | other => cases hover
        · intro hnot
          rcases firstExcess_cons ho with ⟨hexceeds, -⟩ | ⟨-, hrest⟩
          · exact absurd hexceeds hnot
          · exact ⟨o, hrest⟩
      · rintro ⟨⟨cap, hcap⟩, hrest⟩
        obtain ⟨ext, max⟩ := limit
        obtain rfl : max = .num cap := hcap
        rw [firstExcess, returns_bind_iff]
        refine ⟨_, rfl, ?_⟩
        by_cases hover : cap.lt (.int ((countOf counts ext).getD 0)) = true
        · rw [if_pos hover]
          exact returns_ok _
        · rw [if_neg hover]
          apply hrest
          rintro ⟨cap', heq, hexceeds⟩
          obtain rfl := LuaVal.num.inj heq
          exact hover hexceeds

/-- What the loop reports: a limit that is a number, with the count it is under. -/
theorem firstExcess_shape {counts : Counts} {limits : List (LuaVal × LuaVal)} {excess : Excess}
    (h : firstExcess counts limits = .ok (some excess)) :
    excess.count = countOf counts excess.ext ∧ ∃ n, excess.max = .num n := by
  induction limits with
  | nil => cases h
  | cons limit rest ih =>
      rcases firstExcess_cons h with ⟨⟨cap, hcap, -⟩, heq⟩ | ⟨-, hrest⟩
      · obtain rfl := Option.some.inj heq
        exact ⟨rfl, cap, hcap⟩
      · exact ih hrest

/-- What is computed ahead of the chain. -/
theorem excessOf_eq {cfg : Rule} {m : Moment} {limits : List (LuaVal × LuaVal)}
    (hlimits : cfg.maxPerExtension = .table limits) :
    excessOf w m cfg f .directory = (do
      let n ← levels w.pathMax cfg.maxPerExtensionMaxDepth
      firstExcess (walk w cfg.maxPerExtensionRecursive.notFalse n m f fun _ => 0) limits) := by
  unfold excessOf
  rw [hlimits]
  simp only [LuaVal.truthy, beq_self_eq_true, Bool.and_self, if_true, findExtensionExcess,
    countFilesByExt]
  cases levels w.pathMax cfg.maxPerExtensionMaxDepth with
  | error e => rfl
  | ok n => rfl

theorem excessOf_of_not_directory {cfg : Rule} {m : Moment} {mode : Mode}
    (h : mode ≠ .directory) : excessOf w m cfg f mode = .ok none := by
  unfold excessOf
  rw [beq_false_of_ne h, Bool.and_false, if_neg (by decide)]

/-- No caps, no walk: without a table the caller never asks. -/
theorem excessOf_of_not_table {cfg : Rule} {m : Moment} {mode : Mode}
    (h : ∀ limits, cfg.maxPerExtension ≠ .table limits) :
    excessOf w m cfg f mode = .ok none := by
  unfold excessOf findExtensionExcess
  split
  · split
    case h_1 limits hlimits => exact absurd hlimits (h limits)
    case h_2 => rfl
  · rfl

/-- The caps of an entry can be looked at. -/
theorem excessOf_returns_iff {cfg : Rule} {mode : Mode} :
    Returns (excessOf w (m ++ [1]) cfg f mode) ↔ CapsKnown w m cfg f mode := by
  unfold CapsKnown
  by_cases hmode : mode = .directory
  · subst hmode
    by_cases hlimits : ∃ limits, cfg.maxPerExtension = .table limits
    · obtain ⟨limits, hlimits⟩ := hlimits
      rw [excessOf_eq hlimits, returns_bind_iff]
      simp only [firstExcess_returns_iff, true_imp_iff, hlimits, LuaVal.table.injEq, forall_eq']
    · have hnone : ∀ limits, cfg.maxPerExtension ≠ .table limits :=
        fun limits h => hlimits ⟨limits, h⟩
      rw [excessOf_of_not_table hnone]
      exact iff_of_true (returns_ok none) fun _ limits h => absurd h (hnone limits)
  · rw [excessOf_of_not_directory hmode]
    exact iff_of_true (returns_ok none) fun h => absurd h hmode

/-- What can be put into the line in the log: a cap is always a number, and what has a count
is an extension. -/
theorem excessOf_shape {cfg : Rule} {m : Moment} {mode : Mode} {excess : Excess}
    (h : excessOf w m cfg f mode = .ok (some excess)) :
    (excess.count ≠ none → ∃ s, excess.ext = .str s) ∧ ∃ n, excess.max = .num n := by
  by_cases hmode : mode = .directory
  case neg =>
    rw [excessOf_of_not_directory hmode] at h
    cases h
  subst hmode
  by_cases hlimits : ∃ limits, cfg.maxPerExtension = .table limits
  case neg =>
    rw [excessOf_of_not_table fun limits h => hlimits ⟨limits, h⟩] at h
    cases h
  obtain ⟨limits, hlimits⟩ := hlimits
  rw [excessOf_eq hlimits, bind_eq_ok] at h
  obtain ⟨n, -, h⟩ := h
  obtain ⟨hcount, hmax⟩ := firstExcess_shape h
  refine ⟨fun hsome => ?_, hmax⟩
  rw [hcount] at hsome
  cases hext : excess.ext with
  | str s => exact ⟨s, rfl⟩
  | nil => simp [hext, countOf] at hsome
  | bool b => simp [hext, countOf] at hsome
  | num n => simp [hext, countOf] at hsome
  | table entries => simp [hext, countOf] at hsome
  | other => simp [hext, countOf] at hsome

/-- The report of an excess: only a count of no files is not a text. -/
theorem excessReason_returns_iff {excess : Excess}
    (hext : excess.count ≠ none → ∃ s, excess.ext = .str s) (hmax : ∃ n, excess.max = .num n) :
    Returns (excessReason (some excess)) ↔ excess.count ≠ none := by
  obtain ⟨n, hn⟩ := hmax
  cases hcount : excess.count with
  | none =>
      simp only [ne_eq, not_true_eq_false, iff_false]
      rintro ⟨reason, hreason⟩
      simp only [excessReason, hcount, bind_eq_ok] at hreason
      obtain ⟨ext, -, cnt, hcnt, -⟩ := hreason
      cases hcnt
  | some k =>
      obtain ⟨s, hs⟩ := hext (by rw [hcount]; simp)
      simp [excessReason, hs, hn, hcount, LuaVal.concatText, Returns, bind, Except.bind,
        pure, Except.pure]

/-- A line can be logged when the log is ready for it. -/
theorem log_returns_iff (w : World) (m : Moment) (st : Scan) (buf : Str) :
    Returns (st.log w m buf) ↔ LogReady (w.log m) := by
  unfold Scan.log
  rw [← event_returns_iff (w.log m) (w.stamp m) buf]
  exact returns_bind_iff_left fun log => returns_ok _

end

/-! ## The chain, an entry, and the loops -/

section

variable {w : World} {m : Moment} {t : TypedRule} {alreadysent : Str → Bool} {path f r : Str}

/-- A filter that logs a fixed reason asks its question. -/
theorem ends_asked {known passed tail : Prop} {blocks : Except LuaError Bool} (reason : Str)
    {rest : List Filter} (hknown : Returns blocks ↔ known)
    (hpassed : blocks = .ok false ↔ passed) (hrest : Ends (LogReady (w.log m)) rest ↔ tail) :
    Ends (LogReady (w.log m)) (⟨blocks, .ok reason⟩ :: rest) ↔ Asked w m known passed tail := by
  rw [ends_fixed, hknown, ne_eq, hpassed, hrest]
  rfl

/-- The four filters on the name always have an answer. -/
theorem ends_nameFilters {rest : List Filter} {tail : Prop}
    (hrest : Ends (LogReady (w.log m)) rest ↔ tail) :
    Ends (LogReady (w.log m)) (
      ⟨matchPatterns r t.rule.blacklist false, .ok (lit "Blacklist")⟩ ::
      ⟨(!·) <$> matchPatterns r t.rule.whitelist true, .ok (lit "Whitelist")⟩ ::
      ⟨.ok (t.rule.skipHidden.notFalse && isHidden r), .ok (lit "Hidden (dot-prefix)")⟩ ::
      ⟨.ok (t.rule.checkspaces.truthy && checkForWhitespaces r), .ok (lit "Whitespaces")⟩ ::
      rest) ↔ Asked w m True (NamePassed t.rule r) tail := by
  obtain ⟨black, hblack⟩ := matchPatterns_returns r t.blacklist false
  obtain ⟨white, hwhite⟩ := matchPatterns_returns r t.whitelist true
  have hblack' : matchPatterns r t.rule.blacklist false = .ok black := hblack
  have hwhite' : (!·) <$> matchPatterns r t.rule.whitelist true = .ok (!white) :=
    map_eq_ok.mpr ⟨white, hwhite, rfl⟩
  have hname : NamePassed t.rule r ↔ black = false ∧ (!white) = false ∧
      (t.rule.skipHidden.notFalse && isHidden r) = false ∧
      (t.rule.checkspaces.truthy && checkForWhitespaces r) = false := by
    rw [blacklist_ok hblack', whitelist_ok hwhite', hidden_eq_false, whitespaces_eq_false]
    constructor
    · intro h
      exact ⟨h.blacklist, h.whitelist, h.hidden, h.whitespaces⟩
    · rintro ⟨hb, hw, hh, hs⟩
      exact ⟨hb, hw, hh, hs⟩
  rw [ends_fixed, ends_fixed, ends_fixed, ends_fixed, hblack', hwhite', hrest, Asked, hname]
  simp only [returns_ok, true_and, ne_eq, Except.ok.injEq]
  tauto

/-- The chain of filters comes to its end exactly where each question it gets to has an
answer and each answer that blocks can be logged. -/
theorem ends_filters {mode : Mode} {excess : Option Excess}
    (hexcess : excessOf w (m ++ [1]) t.rule f mode = .ok excess) :
    Ends (LogReady (w.log m)) (filters w m t.rule f r excess) ↔
      Asked w m True (NamePassed t.rule r)
        (Asked w m (AgeKnown w m t.rule f) (AgePassed w m t.rule f)
          (Asked w m (NfoReadable w m t.rule f) (NfoPassed w m t.rule f)
            (Asked w m (SfvReadable w m t.rule f) (SfvPassed w m t.rule f)
              (CapsPrintable w m t.rule f mode)))) := by
  have hlast : Ends (LogReady (w.log m)) [⟨.ok (excessTaken excess), excessReason excess⟩] ↔
      CapsPrintable w m t.rule f mode := by
    rw [ends_cons]
    unfold CapsPrintable
    simp only [hexcess, Except.ok.injEq, exists_eq_left']
    cases excess with
    | none => simp [ends_nil]
    | some e =>
        obtain ⟨hext, hmax⟩ := excessOf_shape hexcess
        simp [excessReason_returns_iff hext hmax, ends_nil]
  have hsfv := ends_asked (lit "SFV Check")
    (guarded_returns_iff (c := t.rule.checkdirs.truthy) (d := t.rule.checkdirssfv.truthy)
      (x := directoryHasValidSfv w (m ++ [4]) f)) guarded_eq_false_iff hlast
  have hnfo := ends_asked (lit "NFO Check: No NFO file found")
    (guarded_returns_iff (c := t.rule.checkdirs.truthy) (d := t.rule.checkdirsnfo.truthy)
      (x := directoryHasNfo w (m ++ [3]) f)) guarded_eq_false_iff hsfv
  have hage := ends_asked (lit "Max Age")
    (tooOld_returns_iff (w := w) (m := m) (t := t) (f := f)) Iff.rfl hnfo
  rw [directoryHasNfo_returns_iff, directoryHasValidSfv_returns_iff] at hage
  exact ends_nameFilters hage

/-- One turn of the loop of `search`.  The cases follow the code: the entry is stat-ed,
skipped by its name, measured against the caps, and sent through the filters. -/
theorem searchEntry_returns_iff {st : Scan} {release : Str} {j : Nat} :
    Returns (searchEntry w m alreadysent path t.rule st (release, j)) ↔
      EntrySafe w alreadysent (m ++ [1, j]) path t.rule release := by
  simp only [searchEntry, EntrySafe]
  cases hattr : (w.fs (m ++ [1, j] ++ [0])).attributes (join path release) with
  | none => simp [Returns]
  | some attributes =>
      simp only [Option.some.injEq, exists_eq_left', blocked, List.contains_nil,
        Bool.not_false, Bool.and_true]
      by_cases hgo : (notDots release && !alreadysent release) = true
      · obtain ⟨hdots, hsent⟩ := Bool.and_eq_true_iff.mp hgo
        rw [Bool.not_eq_true'] at hsent
        rw [if_pos hgo, ← excessOf_returns_iff]
        simp only [hdots, hsent, true_imp_iff]
        -- what follows the excess is the chain, and a line in the log where it blocks
        refine returns_bind_iff_and fun excess hexcess => ?_
        rw [← ends_filters hexcess, returns_bind_iff]
        unfold Ends
        refine exists_congr fun o => and_congr_right fun _ => ?_
        cases o with
        | some reason => simp [log_returns_iff]
        | none =>
            by_cases hwants : wants t.rule attributes.mode = true
            · simp only [hwants, if_true]
              exact iff_of_true (returns_ok _) (by simp)
            · simp only [hwants]
              exact iff_of_true (returns_ok _) (by simp)
      · rw [if_neg hgo]
        refine iff_of_true (returns_ok st) ?_
        intro hdots hsent
        simp [hdots, hsent] at hgo

/-- What the search of a directory needs: it can be listed, each entry is in order,
and so is the log at the end. -/
def SearchSafe (w : World) (alreadysent : Str → Bool) (m : Moment) (path : Str)
    (cfg : Rule) : Prop :=
  ∃ entries, (w.fs (m ++ [0])).dir path = some entries ∧
    (∀ entry ∈ entries.zipIdx,
      EntrySafe w alreadysent (m ++ [1, entry.2]) path cfg entry.1) ∧
    LogReady (w.log (m ++ [2]))

/-- The loop of `search`, between its two lines in the log. -/
theorem search_returns_iff {st : Scan} :
    Returns (search w m alreadysent path t.rule st) ↔
      SearchSafe w alreadysent m path t.rule := by
  unfold search SearchSafe
  cases (w.fs (m ++ [0])).dir path with
  | none => simp
  | some entries =>
      simp only [Option.some.injEq, exists_eq_left']
      rw [← returns_foldlM_iff (searchEntry w m alreadysent path t.rule)
        (fun entry st => searchEntry_returns_iff) entries.zipIdx { st with count := 0 }]
      exact returns_bind_iff_and fun st' _ => log_returns_iff w (m ++ [2]) st' _

/-- Four digits in a row somewhere in the name.  The pattern of the day directories is not
anchored, so this is all it asks for. -/
def FourDigits (name : Str) : Prop :=
  ∃ a b c d, [a, b, c, d] <:+: name ∧ digit a = true ∧ digit b = true ∧
    digit c = true ∧ digit d = true

/-- Four digits in a row are what the pattern of the day directories captures from. -/
theorem fourDigits_iff {name : Str} : FourDigits name ↔ ∃ run, firstRun name = some run := by
  rw [← Option.isSome_iff_exists, firstRun_isSome_iff]
  constructor
  · intro h
    obtain ⟨a, b, c, d, hinfix, ha, hb, hc, hd⟩ := h
    exact ⟨[a, b, c, d], hinfix, by simp [isRun, ha, hb, hc, hd]⟩
  · intro h
    obtain ⟨run, hinfix, hrun⟩ := h
    unfold isRun at hrun
    rw [Bool.and_eq_true, beq_iff_eq] at hrun
    obtain ⟨a, b, c, d, rfl⟩ := List.length_eq_four.mp hrun.1
    have hdigits := List.all_eq_true.mp hrun.2
    exact ⟨a, b, c, d, hinfix, hdigits a (by simp), hdigits b (by simp), hdigits c (by simp),
      hdigits d (by simp)⟩

/-- The test of a name raises on a number without four digits in a row: its captures are
compared unasked. -/
theorem isDaydir_returns_iff {dir : Str} :
    Returns (isDaydir dir) ↔ (LuaNum.ofStr dir ≠ none → FourDigits dir) := by
  rw [isDaydir_eq, fourDigits_iff]
  by_cases hnumber : LuaNum.ofStr dir = none
  · rw [if_pos hnumber]
    exact iff_of_true (returns_ok false) fun h => absurd hnumber h
  · rw [if_neg hnumber]
    cases firstRun dir with
    | none =>
        apply iff_of_false (not_returns_error _)
        intro h
        obtain ⟨run, hrun⟩ := h hnumber
        cases hrun
    | some run => exact iff_of_true (returns_ok _) fun _ => ⟨run, rfl⟩

/-- What the choice of directories needs.  With day directories, they can be listed, a
name that reads as a number has four digits in a row, and a name that is refused can
be logged; with `zeroday`, it can be logged that there is no directory of today. -/
structure SchemeSafe (w : World) (m : Moment) (path : Str) (cfg : Rule) : Prop where
  days : cfg.daydirscheme.truthy = true → cfg.zeroday.truthy = false →
    ∃ dirs, (w.fs (m ++ [1])).dir path = some dirs ∧
      ∀ entry ∈ dirs.zipIdx, notDots entry.1 = true →
        (LuaNum.ofStr entry.1 ≠ none → FourDigits entry.1) ∧
        (isDaydir entry.1 = .ok false → LogReady (w.log (m ++ [2] ++ [entry.2])))
  today : cfg.daydirscheme.truthy = true → cfg.zeroday.truthy = true →
    w.mode (m ++ [1]) (join path (w.fs (m ++ [1])).today) ≠ some .directory →
      LogReady (w.log (m ++ [1]))

/-- One turn of the loop over the day directories. -/
theorem daydirEntry_returns_iff {st : Scan} {dir : Str} {j : Nat} :
    Returns (daydirEntry w m alreadysent path t.rule st (dir, j)) ↔
      (notDots dir = true → (LuaNum.ofStr dir ≠ none → FourDigits dir) ∧
        (isDaydir dir = .ok false → LogReady (w.log (m ++ [j]))) ∧
        (isDaydir dir = .ok true →
          SearchSafe w alreadysent (m ++ [j]) (join path dir) t.rule)) := by
  simp only [daydirEntry]
  by_cases hdots : notDots dir = true
  · rw [if_pos hdots, ← isDaydir_returns_iff]
    simp only [hdots, true_imp_iff]
    refine returns_bind_iff_and fun b hb => ?_
    rw [hb]
    cases b with
    | true => simp [search_returns_iff]
    | false => simp [log_returns_iff]
  · rw [if_neg hdots]
    exact iff_of_true (returns_ok st) fun h => absurd h hdots

/-- The directories of a rule, in the three ways in which a rule selects them. -/
theorem searchRule_returns_iff {st : Scan} :
    Returns (searchRule w m alreadysent path t.rule st) ↔
      SchemeSafe w m path t.rule ∧
        ∀ m' dir, Selects w m path t.rule m' dir → SearchSafe w alreadysent m' dir t.rule := by
  cases hscheme : t.rule.daydirscheme.truthy with
  | false =>
      have hsafe : SchemeSafe w m path t.rule :=
        ⟨fun h => absurd h (by simp [hscheme]), fun h => absurd h (by simp [hscheme])⟩
      simp only [hsafe, true_and, selects_plain hscheme]
      rw [searchRule_plain hscheme, search_returns_iff]
      constructor
      · rintro hsearch m' dir ⟨rfl, rfl⟩
        exact hsearch
      · intro hall
        exact hall _ _ ⟨rfl, rfl⟩
  | true =>
      cases hzero : t.rule.zeroday.truthy with
      | true =>
          rw [searchRule_zeroday hscheme hzero]
          simp only [selects_zeroday hscheme hzero]
          by_cases hmode :
              w.mode (m ++ [1]) (join path (w.fs (m ++ [1])).today) = some .directory
          · have hsafe : SchemeSafe w m path t.rule :=
              ⟨fun _ h => absurd h (by simp [hzero]), fun _ _ h => absurd hmode h⟩
            rw [if_pos hmode, search_returns_iff]
            simp only [hsafe, true_and]
            constructor
            · rintro hsearch m' dir ⟨-, rfl, rfl⟩
              exact hsearch
            · intro hall
              exact hall _ _ ⟨hmode, rfl, rfl⟩
          · rw [if_neg hmode, log_returns_iff]
            constructor
            · intro hlog
              refine ⟨⟨fun _ h => absurd h (by simp [hzero]), fun _ _ _ => hlog⟩, ?_⟩
              intro m' dir hsel
              exact absurd hsel.1 hmode
            · intro hsafe
              exact hsafe.1.today hscheme hzero hmode
      | false =>
          cases hdirs : (w.fs (m ++ [1])).dir path with
          | none =>
              rw [searchRule_unlisted hscheme hzero hdirs]
              apply iff_of_false (not_returns_error _)
              rintro ⟨hsafe, -⟩
              obtain ⟨dirs, hlisted, -⟩ := hsafe.days hscheme hzero
              rw [hdirs] at hlisted
              cases hlisted
          | some dirs =>
              simp only [selects_daydir hscheme hzero hdirs]
              rw [searchRule_daydir hscheme hzero hdirs,
                returns_foldlM_iff (daydirEntry w (m ++ [2]) alreadysent path t.rule)
                (fun entry st => daydirEntry_returns_iff)]
              constructor
              · intro hall
                refine ⟨⟨fun _ _ => ⟨dirs, hdirs, ?_⟩, fun _ h => absurd h (by simp [hzero])⟩, ?_⟩
                · intro entry hmem hdots
                  exact ⟨(hall entry hmem hdots).1, (hall entry hmem hdots).2.1⟩
                · rintro m' dir ⟨entry, hmem, hdots, haccept, rfl, rfl⟩
                  exact (hall entry hmem hdots).2.2 haccept
              · rintro ⟨hsafe, hsel⟩ entry hmem hdots
                obtain ⟨dirs', hdirs', hnames⟩ := hsafe.days hscheme hzero
                obtain rfl := Option.some.inj (hdirs.symm.trans hdirs')
                refine ⟨(hnames entry hmem hdots).1, (hnames entry hmem hdots).2, ?_⟩
                intro haccept
                exact hsel _ _ ⟨entry, hmem, hdots, haccept, rfl, rfl⟩

/-- What the scan of the rule at position `i` needs.  A rule that is switched on is
always told to the log, as one that is searched or as one that is skipped. -/
def RuleSafe (w : World) (alreadysent : Str → Bool) (i : Nat) (cfg : Rule) : Prop :=
  cfg.active.truthy = true → LogReady (w.log [i, 0]) ∧
    (Runs w [i, 0] cfg → SchemeSafe w [i] (cfg.path.tostring w.address) cfg ∧
      ∀ m dir, Selects w [i] (cfg.path.tostring w.address) cfg m dir →
        SearchSafe w alreadysent m dir cfg)

/-- One rule of a scan.  A rule that is switched off is passed over without a line in the
log. -/
theorem updateRule_returns_iff {st : Scan} (i : Nat) :
    Returns (updateRule w alreadysent st (t.rule, i)) ↔ RuleSafe w alreadysent i t.rule := by
  have hblack : t.rule.blacklist.isTable = true := rfl
  have hwhite : t.rule.whitelist.isTable = true := rfl
  simp only [updateRule, RuleSafe, hblack, hwhite, Bool.not_true, Bool.or_self,
    Bool.false_eq_true, if_false]
  by_cases hactive : t.rule.active.truthy = true
  · rw [if_pos hactive]
    simp only [hactive, true_imp_iff]
    by_cases hmode : w.mode [i, 0] (t.rule.path.tostring w.address) = some .directory
    · have hruns : Runs w [i, 0] t.rule := ⟨hactive, hmode, hblack, hwhite⟩
      rw [if_neg (not_not_intro hmode)]
      simp only [hruns, true_imp_iff]
      rw [← log_returns_iff w [i, 0] st]
      exact returns_bind_iff_and fun st' _ => searchRule_returns_iff
    · rw [if_pos hmode, log_returns_iff]
      constructor
      · intro hlog
        exact ⟨hlog, fun hruns => absurd hruns.mode hmode⟩
      · rintro ⟨hlog, -⟩
        exact hlog
  · rw [if_neg hactive]
    exact iff_of_true (returns_ok _) fun h => absurd h hactive

/-- The rules a scan goes by: what the file leaves, or what the last one that loaded
has left. -/
def inForce : RulesFile → Option (List Rule) → Option (List Rule)
  | .leaves rules, _ => rules
  | .broken _, old => old
  | .raises, old => old

/-- What a call of `announce.update` needs: a `rules.lua` that does not raise, a log
that can be written to before and after the scan and where the file cannot be loaded,
and for each rule in force what the scan of it needs. -/
structure UpdateSafe (w : World) (alreadysent : Str → Bool) (file : RulesFile)
    (rules : List Rule) : Prop where
  loads : file ≠ .raises
  broken : ∀ err, file = .broken err → LogReady (w.log [0])
  start : LogReady (w.log [1])
  rules : ∀ cfg i, (cfg, i) ∈ rules.zipIdx → RuleSafe w alreadysent i cfg
  finish : LogReady (w.log [2])

/-- Loading the rules raises where the chunk does, and where a file that does not load
cannot be told to the log. -/
theorem loadRules_returns_iff {file : RulesFile} {old : Option (List Rule)} :
    Returns (loadRules w file old) ↔
      file ≠ .raises ∧ ∀ err, file = .broken err → LogReady (w.log [0]) := by
  cases file with
  | broken err =>
      simp only [loadRules, ne_eq, reduceCtorEq, not_false_eq_true, true_and,
        RulesFile.broken.injEq, forall_eq']
      rw [← log_returns_iff w [0] {}]
      exact returns_bind_iff_left fun st => returns_ok _
  | raises => simp [loadRules]
  | leaves rules => simp [loadRules]

/-- The rules a scan goes by are those in force. -/
theorem loadRules_rules {file : RulesFile} {old rules : Option (List Rule)} {st : Scan}
    (h : loadRules w file old = .ok (rules, st)) : rules = inForce file old := by
  cases file with
  | broken err =>
      simp only [loadRules, bind_eq_ok, pure_eq_ok, Prod.mk.injEq] at h
      obtain ⟨st', -, rfl, -⟩ := h
      rfl
  | raises => cases h
  | leaves left =>
      simp only [loadRules, Except.ok.injEq, Prod.mk.injEq] at h
      exact h.1.symm

/-- The loop over the rules. -/
theorem scanRules_returns_iff {rules : List TypedRule} {st : Scan} :
    Returns (scanRules w alreadysent (rules.map TypedRule.rule) st) ↔
      ∀ cfg i, (cfg, i) ∈ (rules.map TypedRule.rule).zipIdx → RuleSafe w alreadysent i cfg := by
  unfold scanRules
  rw [List.zipIdx_map, List.foldlM_map,
    returns_foldlM_iff
      (fun st entry => updateRule w alreadysent st (Prod.map TypedRule.rule id entry))
      fun entry st => updateRule_returns_iff entry.2 (t := entry.1)]
  constructor
  · intro hall cfg i hmem
    obtain ⟨entry, hentry, heq⟩ := List.mem_map.mp hmem
    obtain ⟨rfl, rfl⟩ := Prod.mk.inj heq
    exact hall entry hentry
  · intro hall entry hmem
    exact hall _ _ (List.mem_map.mpr ⟨entry, hmem, rfl⟩)

end

/-- **A scan raises exactly when something it asks for is not there.**  For rules of
the right types that are in force, left by the `rules.lua` of this call or kept where it
is missing or does not load, and whatever the file system and the log do during the
scan, `announce.update` returns iff what it asks for is there when it asks. -/
theorem update_returns_iff (w : World) (alreadysent : Str → Bool) (file : RulesFile)
    (old : Option (List Rule)) (rules : List TypedRule)
    (hforce : inForce file old = some (rules.map TypedRule.rule)) :
    (∃ u, update w file old alreadysent = .ok u) ↔
      UpdateSafe w alreadysent file (rules.map TypedRule.rule) := by
  have hscan : ∀ st, Returns (scanRules w alreadysent (rules.map TypedRule.rule) st) ↔ _ :=
    fun st => scanRules_returns_iff
  constructor
  · rintro ⟨u, hu⟩
    obtain ⟨⟨rules', st⟩, hload, hrest⟩ := bind_eq_ok.mp hu
    obtain rfl := (loadRules_rules hload).trans hforce
    obtain ⟨hloads, hbroken⟩ := loadRules_returns_iff.mp ⟨_, hload⟩
    obtain ⟨st₁, hstart, hrest⟩ := bind_eq_ok.mp hrest
    obtain ⟨st₂, hrules, hrest⟩ := bind_eq_ok.mp hrest
    obtain ⟨st₃, hfinish, -⟩ := bind_eq_ok.mp hrest
    exact {
      loads := hloads
      broken := hbroken
      start := (log_returns_iff _ _ _ _).mp ⟨st₁, hstart⟩
      rules := (hscan st₁).mp ⟨st₂, hrules⟩
      finish := (log_returns_iff _ _ _ _).mp ⟨st₃, hfinish⟩ }
  · intro hsafe
    obtain ⟨⟨rules', st⟩, hload⟩ := loadRules_returns_iff.mpr ⟨hsafe.loads, hsafe.broken⟩
    obtain rfl := (loadRules_rules hload).trans hforce
    obtain ⟨st₁, hstart⟩ := (log_returns_iff w [1] st
      (lit "Search directories for updates...")).mpr hsafe.start
    obtain ⟨st₂, hrules⟩ := (hscan st₁).mpr hsafe.rules
    obtain ⟨st₃, hfinish⟩ := (log_returns_iff w [2] st₂
      (lit "...finished. Found " ++ LuaNum.natText st₂.found.entries.length ++
        lit " new releases.")).mpr hsafe.finish
    exact ⟨_, bind_eq_ok.mpr ⟨_, hload, bind_eq_ok.mpr ⟨st₁, hstart,
      bind_eq_ok.mpr ⟨st₂, hrules, bind_eq_ok.mpr ⟨st₃, hfinish, rfl⟩⟩⟩⟩⟩

/-- A directory with a symbolic link that points nowhere. -/
def danglingFs : Fs where
  attributes path :=
    if path = lit "/in/gone" then none else some { mode := .directory, modification := 0 }
  dir _ := some [lit ".", lit "..", lit "gone"]
  lines _ := none
  time := 0
  today := lit "0101"

/-- A rule that searches it, with everything but `checkdirs` switched off. -/
def plainRule : TypedRule where
  active := true
  path := lit "/in"
  blacklist := []
  whitelist := []
  daydirscheme := false
  zeroday := false
  checkspaces := false
  checkage := false
  maxage := .int 0
  checkdirs := true
  checkdirsnfo := false
  checkdirssfv := false
  checkfiles := false
  command := lit "+addrel"
  category := lit "Movies"
  alibicheck := false
  alibinick := lit "DUMP"

/-- The same directory when the link is gone. -/
def quietFs : Fs := { danglingFs with dir := fun _ => some [lit ".", lit ".."] }

/-- A scan over the rules of the last call, with `rules.lua` away: it returns, and so what
it asks for was there. -/
theorem update_returns_kept :
    (∃ u, update (World.still quietFs (fun _ => []) 4096)
      (.broken (lit "cannot open cfg/rules.lua")) (some [plainRule.rule])
      (fun _ => false) = .ok u) ∧
    UpdateSafe (World.still quietFs (fun _ => []) 4096) (fun _ => false)
      (.broken (lit "cannot open cfg/rules.lua")) [plainRule.rule] := by
  have hreturns : ∃ u, update (World.still quietFs (fun _ => []) 4096)
      (.broken (lit "cannot open cfg/rules.lua")) (some [plainRule.rule])
      (fun _ => false) = .ok u := ⟨_, rfl⟩
  exact ⟨hreturns, (update_returns_iff (World.still quietFs (fun _ => []) 4096)
    (fun _ => false) (.broken (lit "cannot open cfg/rules.lua")) (some [plainRule.rule])
    [plainRule] rfl).mp hreturns⟩

/-- The scan raises on the link. -/
theorem update_dangling_raises :
    ¬ ∀ (w : World) (alreadysent : Str → Bool) (rules : List TypedRule)
        (old : Option (List Rule)),
      ∃ u, update w (.leaves (some (rules.map TypedRule.rule))) old alreadysent = .ok u := by
  intro hall
  obtain ⟨u, hu⟩ := hall (World.still danglingFs (fun _ => []) 4096) (fun _ => false)
    [plainRule] none
  cases hu

end LuadchAnnouncer.Core.AnnounceSafe
