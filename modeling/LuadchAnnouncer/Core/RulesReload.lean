import LuadchAnnouncer.Core.Announce

/-!
# Reloading the rules

`announce.update` starts with running `cfg/rules.lua`, a program that assigns
the global `rules`.  `loadfile` reports a file that is missing or not Lua, and
for such a file there is a branch that goes on with the rules of the last call.
For one that is Lua there is none: it is run with nothing around it, and what it
leaves is not looked at.

The law is `KeepsOld`: behind the call the rules of the file are in force, if it has
left some, and otherwise the old ones, and the call is a scan by them, with a line
about the file in the log where the old ones were kept.  The scan is compared as a
whole, in every world, with all that it asks the system and tells the log, so a scan
that raises has to raise the same way.

`keepsOld_iff` says for which files the law holds: those that do not load, and those
that run to their end and leave a table.

## Main results

* `keepsOld_broken`, `keepsOld_completes` — the files for which the law holds.
* `not_keepsOld_raises`, `not_keepsOld_nothing` — those for which it does not.
* `keepsOld_iff` — so it holds for these and for no others.
-/

namespace LuadchAnnouncer.Core.RulesReload

open LuadchAnnouncer.Verified.Bytes
open LuadchAnnouncer.Verified.LuaValue
open LuadchAnnouncer.Core.Announce

/-! ## The file -/

/-- What running the file comes to: whether it raised, and what there is in the
global `rules` then, if it is a table. -/
structure Ran where
  raised : Bool
  rules : Option (List Rule)

/-- `cfg/rules.lua` -/
inductive RulesLua where
  /-- It does not load. -/
  | broken (err : Str)
  /-- It can be run, over what there is in the global. -/
  | chunk (run : Option (List Rule) → Ran)

namespace RulesLua

/-- The file as `announce.update` gets to know it. -/
def asFile (file : RulesLua) (rules : Option (List Rule)) : RulesFile :=
  match file with
  | .broken err => .broken err
  | .chunk run => if (run rules).raised then .raises else .leaves (run rules).rules

/-- The global `rules` behind it. -/
def leaves (file : RulesLua) (rules : Option (List Rule)) : Option (List Rule) :=
  match file with
  | .broken _ => rules
  | .chunk run => (run rules).rules

/-- The rules of a file that runs to its end and leaves a table. -/
def replacement (file : RulesLua) (old : List Rule) : Option (List Rule) :=
  match file with
  | .broken _ => none
  | .chunk run => if (run (some old)).raised then none else (run (some old)).rules

/-- Running the file does not raise, and a table is left.  A file that does not load is
not run, and completes nothing and breaks nothing. -/
def Completes (file : RulesLua) (old : List Rule) : Prop :=
  match file with
  | .broken _ => True
  | .chunk run => (run (some old)).raised = false ∧ (run (some old)).rules.isSome = true

end RulesLua

/-! ## One call -/

/-- A call of `announce.update`: the global `rules` behind it, and what it
returns or raises. -/
structure Call where
  rules : Option (List Rule)
  outcome : Except LuaError Scan

/-- The call, in a process that has these rules in its global. -/
def callUpdate (w : World) (file : RulesLua) (rules : Option (List Rule))
    (alreadysent : Str → Bool) : Call where
  rules := file.leaves rules
  outcome := (update w (file.asFile rules) rules alreadysent).map Update.scan

/-- A scan by these rules, behind a line about the file where there is a problem
with it. -/
def scanWith (w : World) (alreadysent : Str → Bool) (rules : List Rule) (problem : Option Str) :
    Except LuaError Scan := do
  let st ← problem.elim (pure {}) (Scan.log w [0] {})
  let st ← st.log w [1] (lit "Search directories for updates...")
  let st ← scanRules w alreadysent rules st
  st.log w [2] (lit "...finished. Found " ++ LuaNum.natText st.found.entries.length ++
    lit " new releases.")

/-- The rules of a file that has some are in force, and otherwise the old ones,
with a line about it in the log. -/
def KeepsOld (file : RulesLua) (old : List Rule) : Prop :=
  ∀ (w : World) (alreadysent : Str → Bool),
    match file.replacement old with
    | some new =>
        callUpdate w file (some old) alreadysent = ⟨some new, scanWith w alreadysent new none⟩
    | none =>
        ∃ problem, callUpdate w file (some old) alreadysent =
          ⟨some old, scanWith w alreadysent old (some problem)⟩

/-- The call by its parts: a file that does not raise leaves rules, and there is a
line about it or there is none. -/
theorem update_scan {w : World} {file : RulesFile} {rules : Option (List Rule)}
    {list : List Rule} (problem : Option Str) (alreadysent : Str → Bool)
    (hload : loadRules w file rules =
      (problem.elim (pure {}) (Scan.log w [0] {})).map fun st => (some list, st)) :
    (update w file rules alreadysent).map Update.scan =
      scanWith w alreadysent list problem := by
  unfold update scanWith
  rw [hload]
  generalize (problem.elim (pure {}) (Scan.log w [0] {}) : Except LuaError Scan) = first
  cases first with
  | error err => rfl
  | ok st =>
      show Except.map Update.scan (Except.bind (Scan.log w [1] st _) _) =
        Except.bind (Scan.log w [1] st _) _
      cases Scan.log w [1] st (lit "Search directories for updates...") with
      | error err => rfl
      | ok st =>
          show Except.map Update.scan (Except.bind (scanRules w alreadysent list st) _) =
            Except.bind (scanRules w alreadysent list st) _
          cases scanRules w alreadysent list st with
          | error err => rfl
          | ok st =>
              show Except.map Update.scan (Except.bind (Scan.log w [2] st _) _) =
                Scan.log w [2] st _
              cases Scan.log w [2] st (lit "...finished. Found " ++
                  LuaNum.natText st.found.entries.length ++ lit " new releases.") with
              | error err => rfl
              | ok st => rfl

/-! ## A scan that finds nothing -/

/-- There are no files at all. -/
def emptyFs : Fs where
  attributes _ := none
  dir _ := none
  lines _ := none
  time := 0
  today := lit "0101"

/-- A world without files, that stands still. -/
def emptyWorld : World := World.still emptyFs (fun _ => []) 4096

/-- Where no path is a directory a scan returns, whatever the rules are. -/
theorem scanRules_emptyWorld (alreadysent : Str → Bool) (rules : List Rule) (st : Scan) :
    ∃ st', scanRules emptyWorld alreadysent rules st = .ok st' := by
  unfold scanRules
  generalize rules.zipIdx = entries
  induction entries generalizing st with
  | nil => exact ⟨st, rfl⟩
  | cons entry entries ih =>
      obtain ⟨st', hst'⟩ : ∃ st', updateRule emptyWorld alreadysent st entry = .ok st' := by
        obtain ⟨cfg, i⟩ := entry
        unfold updateRule
        simp only
        split
        case isTrue =>
          -- no path is that of a directory
          have hmode : emptyWorld.mode [i, 0] (cfg.path.tostring emptyWorld.address) ≠
              some .directory := fun h => by cases h
          rw [if_pos hmode]
          exact ⟨_, rfl⟩
        case isFalse => exact ⟨st, rfl⟩
      rw [List.foldlM_cons, hst']
      exact ih st'

/-- And so does an update, with or without a problem to report. -/
theorem scanWith_emptyWorld (alreadysent : Str → Bool) (rules : List Rule)
    (problem : Option Str) :
    ∃ st, scanWith emptyWorld alreadysent rules problem = .ok st := by
  have hfirst : ∃ st, (problem.elim (pure {}) (Scan.log emptyWorld [0] {}) :
      Except LuaError Scan) = .ok st := by
    cases problem with
    | none => exact ⟨_, rfl⟩
    | some buf => exact ⟨_, rfl⟩
  obtain ⟨first, hfirst⟩ := hfirst
  obtain ⟨st, hst⟩ := scanRules_emptyWorld alreadysent rules
    (first.logged (lit "Search directories for updates..."))
  unfold scanWith
  rw [hfirst]
  show ∃ st, (scanRules emptyWorld alreadysent rules _ >>= fun st => _) = .ok st
  rw [hst]
  exact ⟨_, rfl⟩

/-! ## The law -/

/-- A chunk that cannot be loaded leaves the rules that were in force. -/
theorem keepsOld_broken (err : Str) (old : List Rule) : KeepsOld (.broken err) old := by
  intro w alreadysent
  refine ⟨lit "Your rules.lua is broken: " ++ err ++ lit "; Using old configuration.", ?_⟩
  unfold callUpdate
  rw [update_scan (some _) alreadysent]
  · rfl
  · rfl

/-- One that replaces them and comes to its end has not kept the old ones. -/
theorem keepsOld_completes {run : Option (List Rule) → Ran} {old new : List Rule}
    (hraised : (run (some old)).raised = false) (hnew : (run (some old)).rules = some new) :
    KeepsOld (.chunk run) old := by
  intro w alreadysent
  have hload : loadRules w (RulesLua.asFile (.chunk run) (some old)) (some old) =
      ((none : Option Str).elim (pure {}) (Scan.log w [0] {})).map fun st => (some new, st) := by
    unfold RulesLua.asFile
    simp only [hraised, hnew]
    rfl
  have hleaves : RulesLua.leaves (.chunk run) (some old) = some new := hnew
  have hreplacement : RulesLua.replacement (.chunk run) old = some new := by
    unfold RulesLua.replacement
    simp only [hraised, hnew]
    rfl
  rw [hreplacement]
  show callUpdate w (.chunk run) (some old) alreadysent = _
  unfold callUpdate
  rw [update_scan none alreadysent hload, hleaves]

/-- A file that raises makes the call raise, which a scan need not do. -/
theorem not_keepsOld_raises {run : Option (List Rule) → Ran} {old : List Rule}
    (hraised : (run (some old)).raised = true) : ¬ KeepsOld (.chunk run) old := by
  intro h
  have hreplacement : RulesLua.replacement (.chunk run) old = none := by
    unfold RulesLua.replacement
    simp only [hraised, if_true]
  have hkeeps := h emptyWorld fun _ => false
  rw [hreplacement] at hkeeps
  obtain ⟨problem, hcall⟩ := hkeeps
  obtain ⟨st, hst⟩ := scanWith_emptyWorld (fun _ => false) old (some problem)
  have houtcome := congrArg Call.outcome hcall
  unfold callUpdate RulesLua.asFile at houtcome
  simp only [hraised, if_true, hst] at houtcome
  cases houtcome

/-- A file that leaves no table leaves none behind the call. -/
theorem not_keepsOld_nothing {run : Option (List Rule) → Ran} {old : List Rule}
    (hnothing : (run (some old)).rules = none) : ¬ KeepsOld (.chunk run) old := by
  intro h
  have hreplacement : RulesLua.replacement (.chunk run) old = none := by
    unfold RulesLua.replacement
    simp only [hnothing, ite_self]
  have hkeeps := h emptyWorld fun _ => false
  rw [hreplacement] at hkeeps
  obtain ⟨problem, hcall⟩ := hkeeps
  have hrules : (run (some old)).rules = some old := congrArg Call.rules hcall
  rw [hnothing] at hrules
  cases hrules

/-- **The old rules, exactly.**  A file keeps them in force, or replaces them with
its own, in every world, if and only if it does not load or it runs to its end
and leaves a table. -/
theorem keepsOld_iff (file : RulesLua) (old : List Rule) :
    KeepsOld file old ↔ file.Completes old := by
  cases file with
  | broken err => exact iff_of_true (keepsOld_broken err old) trivial
  | chunk run =>
      constructor
      · intro h
        constructor
        · rw [← Bool.not_eq_true]
          exact fun hraised => not_keepsOld_raises hraised h
        · rw [← Option.ne_none_iff_isSome]
          exact fun hnothing => not_keepsOld_nothing hnothing h
      · rintro ⟨hraised, hsome⟩
        obtain ⟨new, hnew⟩ := Option.isSome_iff_exists.mp hsome
        exact keepsOld_completes hraised hnew

/-- `rules = { }; error( )`: the call raises, and the old rules are gone. -/
theorem keepsOld_fails :
    ¬ ∀ (file : RulesLua) (old : List Rule), KeepsOld file old := by
  intro hall
  have h := hall (.chunk fun _ => ⟨true, some []⟩) [{}]
  exact not_keepsOld_raises rfl h

end LuadchAnnouncer.Core.RulesReload
