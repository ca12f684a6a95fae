import LuadchAnnouncer.Core.AnnounceSafe

/-!
# Which entries are day directories

A rule with `daydirscheme` is to descend into each `MMDD` directory below its
path.  The loop asks three things of a name and nothing of the entry: that
`tonumber` reads it, and that the first four digits in a row that stand
anywhere in it are a day and a month.  It compares what the pattern has captured
even where the pattern has not matched.

What it should make of an entry is `dayEntry`: a directory called `MMDD` is searched,
and of anything else there is a warning in the log.  `WellJudged` is the condition on
the name under which it does, and `daydirs_iff` that it is the exact one.  A line that
cannot be logged ends the scan whichever way the entry is judged, so the two can be told
apart only where the log takes the warning.

## Main results

* `daydirEntry_eq_iff` — one entry, exactly.
* `daydirs_iff` — the entries of a rule's path, and the loop over them.
* `daydirs_five_raises` — a directory that is no day, and ends the scan.
-/

namespace LuadchAnnouncer.Core.AnnounceDaydir

open LuadchAnnouncer.Verified.Bytes
open LuadchAnnouncer.Verified.LuaValue
open LuadchAnnouncer.Verified.Raising
open LuadchAnnouncer.Core.Announce
open LuadchAnnouncer.Core.AnnounceScheme
open LuadchAnnouncer.Core.AnnounceScan (searchRule_daydir)
open LuadchAnnouncer.Core.LogRotation (LogReady)
open LuadchAnnouncer.Core.AnnounceSafe

/-! ## The loop -/

section

variable (w : World) (m : Moment) (alreadysent : Str → Bool) (path : Str) (cfg : Rule)

/-- The entry at this place is a directory called `MMDD`. -/
def isDayDirectory (entry : Str × Nat) : Bool :=
  isDayName entry.1 && w.mode (m ++ [entry.2]) (join path entry.1) == some .directory

/-- `Warning: directory '..' fits not in 4 digit day dir scheme, skipping...` -/
def schemeWarning (dir : Str) : Str :=
  lit "Warning: directory '" ++ dir ++ lit "' fits not in 4 digit day dir scheme, skipping..."

/-- What is to become of an entry: a day directory is searched, and of anything else
there is a warning.  The directory itself and the one above it, which are listed
with the entries, are passed over. -/
def dayEntry (st : Scan) (entry : Str × Nat) : Except LuaError Scan :=
  if notDots entry.1 then
    if isDayDirectory w m path entry then
      search w (m ++ [entry.2]) alreadysent (join path entry.1) cfg st
    else st.log w (m ++ [entry.2]) (schemeWarning entry.1)
  else .ok st

/-- The names the loop judges well: if one reads as a number there are four digits in
a row in it, and if the first four are a date there is nothing else to it, and it is
the name of a directory. -/
def WellJudged (entry : Str × Nat) : Prop :=
  LuaNum.ofStr entry.1 ≠ none → ∃ run, firstRun entry.1 = some run ∧
    (isDate run = true → entry.1 = run ∧
      w.mode (m ++ [entry.2]) (join path entry.1) = some .directory)

variable {w m alreadysent path cfg}

/-- A search is the last to speak. -/
theorem search_ne_warning {st st' : Scan} {dir path : Str} {m : Moment} :
    search w m alreadysent path cfg st ≠ .ok (st'.logged (schemeWarning dir)) := by
  intro h
  unfold search at h
  cases hdir : (w.fs (m ++ [0])).dir path with
  | none => simp [hdir] at h
  | some entries =>
      simp only [hdir, bind_eq_ok] at h
      obtain ⟨st₁, -, hlog⟩ := h
      have hlogs := congrArg (fun st => st.logs.getLast?) (Scan.log_ok hlog).symm
      simp only [Scan.logged, List.getLast?_append, List.getLast?_singleton, Option.some_or,
        Option.some.injEq] at hlogs
      have hhead : (some 82 : Option UInt8) = some 87 := congrArg List.head? hlogs
      cases hhead

/-- The two entries of every directory are skipped by name. -/
theorem wellJudged_of_dots {entry : Str × Nat} (h : notDots entry.1 = false) :
    WellJudged w m path entry := by
  have hdots : entry.1 = lit "." ∨ entry.1 = lit ".." := by
    unfold notDots at h
    rw [Bool.and_eq_false_iff, bne_eq_false_iff_eq, bne_eq_false_iff_eq] at h
    exact h
  intro hnumber
  apply absurd _ hnumber
  rcases hdots with heq | heq
  · rw [heq]
    decide
  · rw [heq]
    decide

/-- One turn of the loop in its own terms: a name that is no number is passed over with the
warning, one without four digits in a row raises, and the first four digits decide about the
others. -/
theorem daydirEntry_eq {st : Scan} {entry : Str × Nat} (h : notDots entry.1 = true) :
    daydirEntry w m alreadysent path cfg st entry =
      if LuaNum.ofStr entry.1 = none then
        st.log w (m ++ [entry.2]) (schemeWarning entry.1)
      else (firstRun entry.1).elim (.error .compare) fun run =>
        if isDate run then search w (m ++ [entry.2]) alreadysent (join path entry.1) cfg st
        else st.log w (m ++ [entry.2]) (schemeWarning entry.1) := by
  unfold daydirEntry
  simp only [h, if_true]
  rw [isDaydir_eq]
  by_cases hnumber : LuaNum.ofStr entry.1 = none
  · rw [if_pos hnumber, if_pos hnumber]
    rfl
  · rw [if_neg hnumber, if_neg hnumber]
    cases firstRun entry.1 with
    | none => rfl
    | some run => rfl

theorem isDayDirectory_iff {entry : Str × Nat} :
    isDayDirectory w m path entry = true ↔ (firstRun entry.1 = some entry.1 ∧
      isDate entry.1 = true) ∧ w.mode (m ++ [entry.2]) (join path entry.1) = some .directory := by
  unfold isDayDirectory
  rw [Bool.and_eq_true, isDayName_iff, beq_iff_eq]

theorem wellJudged_of_isDayDirectory {entry : Str × Nat}
    (h : isDayDirectory w m path entry = true) : WellJudged w m path entry := by
  have hday := isDayDirectory_iff.mp h
  exact fun _ => ⟨entry.1, hday.1.1, fun _ => ⟨rfl, hday.2⟩⟩

/-- A day directory is searched. -/
theorem daydirEntry_of_isDayDirectory {st : Scan} {entry : Str × Nat}
    (hdots : notDots entry.1 = true) (h : isDayDirectory w m path entry = true) :
    daydirEntry w m alreadysent path cfg st entry =
      search w (m ++ [entry.2]) alreadysent (join path entry.1) cfg st := by
  obtain ⟨⟨hrun, hdate⟩, -⟩ := isDayDirectory_iff.mp h
  rw [daydirEntry_eq hdots, if_neg (ofStr_of_isRun (isRun_of_firstRun hrun)), hrun,
    Option.elim_some, if_pos hdate]

/-- The warning is for what is no number, or no date. -/
theorem daydirEntry_of_warned {st : Scan} {entry : Str × Nat} (hdots : notDots entry.1 = true)
    (h : LuaNum.ofStr entry.1 ≠ none → ∃ run, firstRun entry.1 = some run ∧ ¬ isDate run = true) :
    daydirEntry w m alreadysent path cfg st entry =
      st.log w (m ++ [entry.2]) (schemeWarning entry.1) := by
  rw [daydirEntry_eq hdots]
  by_cases hnumber : LuaNum.ofStr entry.1 = none
  · rw [if_pos hnumber]
  · obtain ⟨run, hrun, hdate⟩ := h hnumber
    rw [if_neg hnumber, hrun, Option.elim_some, if_neg hdate]

/-- Nothing else comes to what a warning that is logged comes to. -/
theorem warned_of_daydirEntry {st : Scan} {entry : Str × Nat} (hdots : notDots entry.1 = true)
    (h : daydirEntry w m alreadysent path cfg st entry =
      .ok (st.logged (schemeWarning entry.1))) :
    LuaNum.ofStr entry.1 ≠ none → ∃ run, firstRun entry.1 = some run ∧ ¬ isDate run = true := by
  intro hnumber
  rw [daydirEntry_eq hdots, if_neg hnumber] at h
  cases hrun : firstRun entry.1 with
  | none =>
      rw [hrun] at h
      cases h
  | some run =>
      refine ⟨run, rfl, fun hdate => ?_⟩
      rw [hrun, Option.elim_some, if_pos hdate] at h
      exact search_ne_warning h

/-- Of the other names a date among the first four digits is judged badly. -/
theorem wellJudged_iff_of_not_isDayDirectory {entry : Str × Nat}
    (h : ¬ isDayDirectory w m path entry = true) :
    WellJudged w m path entry ↔ (LuaNum.ofStr entry.1 ≠ none →
      ∃ run, firstRun entry.1 = some run ∧ ¬ isDate run = true) := by
  apply imp_congr_right
  intro _
  apply exists_congr
  intro run
  apply and_congr_right
  intro hrun
  apply imp_congr_right
  intro hdate
  rw [iff_false]
  intro hday
  obtain ⟨hname, hmode⟩ := hday
  rw [← hname] at hrun hdate
  exact h (isDayDirectory_iff.mpr ⟨⟨hrun, hdate⟩, hmode⟩)

/-- An entry that is well judged is made of what should be. -/
theorem daydirEntry_eq_dayEntry {st : Scan} {entry : Str × Nat}
    (h : WellJudged w m path entry) :
    daydirEntry w m alreadysent path cfg st entry =
      dayEntry w m alreadysent path cfg st entry := by
  unfold dayEntry
  cases hdots : notDots entry.1 with
  | false =>
      unfold daydirEntry
      simp only [hdots]
      rfl
  | true =>
      rw [if_pos rfl]
      by_cases hthere : isDayDirectory w m path entry = true
      · rw [if_pos hthere]
        exact daydirEntry_of_isDayDirectory hdots hthere
      · rw [if_neg hthere]
        exact daydirEntry_of_warned hdots ((wellJudged_iff_of_not_isDayDirectory hthere).mp h)

/-- **One entry of the loop, exactly**, where the warning can be logged. -/
theorem daydirEntry_eq_iff {entry : Str × Nat} (hlog : LogReady (w.log (m ++ [entry.2])))
    (st : Scan) :
    daydirEntry w m alreadysent path cfg st entry = dayEntry w m alreadysent path cfg st entry ↔
      WellJudged w m path entry := by
  refine ⟨fun heq => ?_, daydirEntry_eq_dayEntry⟩
  cases hdots : notDots entry.1 with
  | false => exact wellJudged_of_dots hdots
  | true =>
      by_cases hthere : isDayDirectory w m path entry = true
      · exact wellJudged_of_isDayDirectory hthere
      · obtain ⟨st', hst'⟩ :=
          (log_returns_iff w (m ++ [entry.2]) st (schemeWarning entry.1)).mpr hlog
        obtain rfl := Scan.log_ok hst'
        rw [dayEntry, if_pos hdots, if_neg hthere, hst'] at heq
        exact (wellJudged_iff_of_not_isDayDirectory hthere).mpr (warned_of_daydirEntry hdots heq)

/-- Two loops with the same turns are one. -/
theorem foldlM_congr {ι : Type} {body body' : Scan → ι → Except LuaError Scan} {xs : List ι}
    (h : ∀ x ∈ xs, ∀ st, body st x = body' st x) (st : Scan) :
    xs.foldlM body st = xs.foldlM body' st := by
  induction xs generalizing st with
  | nil => rfl
  | cons x xs ih =>
      rw [List.forall_mem_cons] at h
      rw [List.foldlM_cons, List.foldlM_cons, h.1 st]
      exact bind_congr (ih h.2)

/-- **The day directories, exactly.**  For a rule with `daydirscheme` and without
`zeroday`, an entry of its path is searched if it is a directory called `MMDD` and
passed over with the warning if not, if its name is well judged, and only if it is
where the warning can be logged; and where all of them are, so goes the whole loop. -/
theorem daydirs_iff (w : World) (m : Moment) (alreadysent : Str → Bool) (path : Str) (cfg : Rule)
    (hscheme : cfg.daydirscheme.truthy = true) (hzero : cfg.zeroday.truthy = false)
    (dirs : List Str) (hdirs : (w.fs (m ++ [1])).dir path = some dirs) :
    (∀ entry ∈ dirs.zipIdx, ∀ st,
      (WellJudged w (m ++ [2]) path entry →
        daydirEntry w (m ++ [2]) alreadysent path cfg st entry =
          dayEntry w (m ++ [2]) alreadysent path cfg st entry) ∧
      (LogReady (w.log (m ++ [2] ++ [entry.2])) →
        (daydirEntry w (m ++ [2]) alreadysent path cfg st entry =
          dayEntry w (m ++ [2]) alreadysent path cfg st entry ↔
            WellJudged w (m ++ [2]) path entry))) ∧
    ((∀ entry ∈ dirs.zipIdx, WellJudged w (m ++ [2]) path entry) → ∀ st,
      searchRule w m alreadysent path cfg st =
        dirs.zipIdx.foldlM (dayEntry w (m ++ [2]) alreadysent path cfg) st) := by
  constructor
  · intro entry _ st
    exact ⟨daydirEntry_eq_dayEntry, fun hlog => daydirEntry_eq_iff hlog st⟩
  · intro hall st
    have hloop : searchRule w m alreadysent path cfg st =
        dirs.zipIdx.foldlM (daydirEntry w (m ++ [2]) alreadysent path cfg) st :=
      searchRule_daydir hscheme hzero hdirs
    rw [hloop]
    apply foldlM_congr
    intro entry hentry st
    exact daydirEntry_eq_dayEntry (hall entry hentry)

end

/-- A path with directories of these names. -/
def daysFs (names : List Str) : Fs where
  attributes _ := some { mode := .directory, modification := 0 }
  dir path := some (if path = lit "/in" then lit "." :: lit ".." :: names else [])
  lines _ := none
  time := 0
  today := lit "0601"

def daysRule : Rule where
  active := .bool true
  path := .str (lit "/in")
  blacklist := .table []
  whitelist := .table []
  daydirscheme := .bool true

/-- A path with two day directories and nothing else, which is searched as it should be. -/
theorem daydirs_iff_days :
    searchRule (World.still (daysFs [lit "0601", lit "1231"]) (fun _ => []) 4096) [0]
      (fun _ => false) (lit "/in") daysRule {} =
    [lit ".", lit "..", lit "0601", lit "1231"].zipIdx.foldlM
      (dayEntry (World.still (daysFs [lit "0601", lit "1231"]) (fun _ => []) 4096) ([0] ++ [2])
        (fun _ => false) (lit "/in") daysRule) {} := by
  apply (daydirs_iff _ [0] (fun _ => false) (lit "/in") daysRule rfl rfl
    [lit ".", lit "..", lit "0601", lit "1231"] rfl).2
  intro entry hentry
  have hname := List.fst_mem_of_mem_zipIdx hentry
  by_cases hdots : notDots entry.1 = false
  · exact wellJudged_of_dots hdots
  · have hday : isDayName entry.1 = true := by
      have hall : ∀ name ∈ [lit ".", lit "..", lit "0601", lit "1231"],
          notDots name = false ∨ isDayName name = true := by decide
      exact (hall entry.1 hname).resolve_left hdots
    apply wellJudged_of_isDayDirectory
    unfold isDayDirectory
    rw [hday]
    rfl

/-- A directory called `5` ends the scan. -/
theorem daydirs_five_raises :
    ¬ ∀ (w : World) (m : Moment) (alreadysent : Str → Bool) (path : Str) (cfg : Rule)
        (dirs : List Str), cfg.daydirscheme.truthy = true → cfg.zeroday.truthy = false →
      (w.fs (m ++ [1])).dir path = some dirs → ∀ entry ∈ dirs.zipIdx, ∀ st,
        daydirEntry w (m ++ [2]) alreadysent path cfg st entry =
          dayEntry w (m ++ [2]) alreadysent path cfg st entry := by
  intro hall
  have h := hall (World.still (daysFs [lit "5"]) (fun _ => []) 4096) [0] (fun _ => false)
    (lit "/in") daysRule [lit ".", lit "..", lit "5"] rfl rfl rfl (lit "5", 2) (by decide) {}
  cases h

example : isDaydir (lit "012345") = .ok true := rfl
example : isDaydir (lit "0x0101") = .ok true := rfl

end LuadchAnnouncer.Core.AnnounceDaydir
