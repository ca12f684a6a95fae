import Mathlib.Data.List.Perm.Basic
import LuadchAnnouncer.Core.AnnounceFilter

/-!
# The order things are enumerated in

`lfs.dir` lists a directory in whatever order the file system keeps it, and `pairs`
visits a table in whatever order it hashes to.  `SameFs` and `SameRules` relate what
differs in nothing else, and all that the scan asks comes out the same on both sides
but two things.  Of several `.sfv` files the check reads the first.  And of several
limits that are exceeded the check of the caps reports the first, which matters where
one of them stands under the key `false`: that report is taken for none.

Both are handled alike.  What the check says in every order, and what it says in some,
does not see the order; what it says in the one at hand lies between the two; and there
is one order for all directories in which it says the first, and one in which it says
the second.

## Main results

* `mem_found_iff` — what is found in one order, in terms of another.
* `order_iff` — for which file systems and rules the order cannot be seen in what is
  found.
-/

namespace LuadchAnnouncer.Core.AnnounceOrder

open LuadchAnnouncer.Verified.Bytes
open LuadchAnnouncer.Verified.LuaValue
open LuadchAnnouncer.Verified.Raising
open LuadchAnnouncer.Core.Announce
open LuadchAnnouncer.Core.AnnounceFilter

/-! ## The same content -/

/-- Each directory lists the same entries, in another order.  All else that a scan can ask
a file system for is the same. -/
structure SameFs (fs fs' : Fs) : Prop where
  attributes : fs'.attributes = fs.attributes
  lines : fs'.lines = fs.lines
  time : fs'.time = fs.time
  today : fs'.today = fs.today
  dir : ∀ path, Option.Rel List.Perm (fs.dir path) (fs'.dir path)

/-- A table with the same entries, in another order.  `pairs` promises no order, so a
rule's tables may be visited in any. -/
inductive SameTable : LuaVal → LuaVal → Prop where
  | refl (v : LuaVal) : SameTable v v
  | perm {entries entries' : List (LuaVal × LuaVal)} (h : entries.Perm entries') :
      SameTable (.table entries) (.table entries')

/-- The three tables of a rule that `pairs` visits. -/
inductive SameRule : Rule → Rule → Prop where
  | tables {cfg : Rule} {blacklist whitelist maxPerExtension : LuaVal}
      (hblack : SameTable cfg.blacklist blacklist) (hwhite : SameTable cfg.whitelist whitelist)
      (hmax : SameTable cfg.maxPerExtension maxPerExtension) :
      SameRule cfg { cfg with
        blacklist := blacklist
        whitelist := whitelist
        maxPerExtension := maxPerExtension }

/-- The rules, each with its tables in another order, and in another order themselves. -/
def SameRules (rules rules' : List Rule) : Prop :=
  ∃ mid, List.Forall₂ SameRule rules mid ∧ mid.Perm rules'

namespace SameFs

variable {fs fs' : Fs}

/-- A file system lists its directories in its own order. -/
theorem refl (fs : Fs) : SameFs fs fs where
  attributes := rfl
  lines := rfl
  time := rfl
  today := rfl
  dir := by
    intro path
    cases fs.dir path with
    | none => exact .none
    | some files => exact .some (List.Perm.refl files)

/-- The order of either can be taken for the other's. -/
theorem symm (h : SameFs fs fs') : SameFs fs' fs where
  attributes := h.attributes.symm
  lines := h.lines.symm
  time := h.time.symm
  today := h.today.symm
  dir := by
    intro path
    have hrel := h.dir path
    generalize fs.dir path = listing at hrel ⊢
    generalize fs'.dir path = listing' at hrel ⊢
    cases hrel with
    | none => exact .none
    | some hperm => exact .some hperm.symm

/-- A directory that can be listed in one order can be listed in the other, with the same
entries. -/
theorem listed (h : SameFs fs fs') {path : Str} {files : List Str}
    (hdir : fs.dir path = some files) :
    ∃ files', fs'.dir path = some files' ∧ files.Perm files' := by
  have hrel := h.dir path
  rw [hdir] at hrel
  cases hrel' : fs'.dir path with
  | none =>
      rw [hrel'] at hrel
      cases hrel
  | some files' =>
      rw [hrel'] at hrel
      cases hrel with
      | some hperm => exact ⟨files', rfl, hperm⟩

end SameFs

namespace SameTable

variable {v v' : LuaVal}

theorem symm (h : SameTable v v') : SameTable v' v := by
  cases h with
  | refl => exact .refl v
  | perm h => exact .perm h.symm

theorem entries {entries : List (LuaVal × LuaVal)} (h : SameTable (.table entries) v') :
    ∃ entries', v' = .table entries' ∧ entries.Perm entries' := by
  cases h with
  | refl => exact ⟨entries, rfl, List.Perm.refl entries⟩
  | perm h => exact ⟨_, rfl, h⟩

theorem isTable (h : SameTable v v') (htable : v.isTable = true) : v'.isTable = true := by
  cases h with
  | refl => exact htable
  | perm h => rfl

theorem eq_empty (h : SameTable v v') (hempty : v = .table []) : v' = .table [] := by
  rw [hempty] at h
  obtain ⟨entries', rfl, hperm⟩ := h.entries
  rw [hperm.nil_eq]

theorem hits (h : SameTable v v') {r : Str} (hits : Hits v r) : Hits v' r := by
  obtain ⟨entries, rfl, pattern, hmem, hinfix⟩ := hits
  obtain ⟨entries', rfl, hperm⟩ := h.entries
  exact ⟨entries', rfl, pattern, (hperm.map Prod.fst).subset hmem, hinfix⟩

end SameTable

theorem SameRule.refl (cfg : Rule) : SameRule cfg cfg :=
  .tables (.refl cfg.blacklist) (.refl cfg.whitelist) (.refl cfg.maxPerExtension)

theorem SameRule.symm {cfg cfg' : Rule} (h : SameRule cfg cfg') : SameRule cfg' cfg := by
  cases h with
  | tables hblack hwhite hmax => exact .tables hblack.symm hwhite.symm hmax.symm

/-- A rule of the one list has its counterpart in the other. -/
theorem forall₂_exists_left {α β : Type} {R : α → β → Prop} {xs : List α} {ys : List β}
    (h : List.Forall₂ R xs ys) : ∀ x ∈ xs, ∃ y ∈ ys, R x y := by
  induction h with
  | nil => exact fun x hx => absurd hx List.not_mem_nil
  | cons hxy _ ih =>
      intro x hx
      rcases List.mem_cons.mp hx with rfl | hx
      · exact ⟨_, List.mem_cons_self, hxy⟩
      · obtain ⟨y, hy, hR⟩ := ih x hx
        exact ⟨y, List.mem_cons_of_mem _ hy, hR⟩

theorem SameRules.refl (rules : List Rule) : SameRules rules rules :=
  ⟨rules, List.forall₂_same.mpr fun cfg _ => .refl cfg, List.Perm.refl rules⟩

theorem SameRules.exists_left {rules rules' : List Rule} (h : SameRules rules rules') :
    ∀ cfg ∈ rules, ∃ cfg' ∈ rules', SameRule cfg cfg' := by
  obtain ⟨mid, hsame, hperm⟩ := h
  intro cfg hcfg
  obtain ⟨cfg', hcfg', hrule⟩ := forall₂_exists_left hsame cfg hcfg
  exact ⟨cfg', hperm.subset hcfg', hrule⟩

theorem SameRules.exists_right {rules rules' : List Rule} (h : SameRules rules rules') :
    ∀ cfg' ∈ rules', ∃ cfg ∈ rules, SameRule cfg cfg' := by
  obtain ⟨mid, hsame, hperm⟩ := h
  intro cfg' hcfg'
  exact forall₂_exists_left hsame.flip cfg' (hperm.symm.subset hcfg')

/-! ## What does not see the order -/

section

variable {fs fs' : Fs}

/-- The files below a directory are the same ones in either order. -/
theorem filesBelow_perm (h : SameFs fs fs') (recursive : Bool) (n : Nat) (p : Str) :
    (filesBelow fs recursive n p).Perm (filesBelow fs' recursive n p) := by
  induction n generalizing p with
  | zero => exact List.Perm.refl []
  | succ n ih =>
      have hrel := h.dir p
      unfold filesBelow
      generalize fs.dir p = listing at hrel ⊢
      generalize fs'.dir p = listing' at hrel ⊢
      cases hrel with
      | none => exact List.Perm.refl []
      | some hperm =>
          apply hperm.flatMap
          intro file _
          rw [h.attributes]
          split
          case isFalse => exact List.Perm.refl []
          case isTrue =>
            cases (fs.attributes (join p file)).map Attributes.mode with
            | none => exact List.Perm.refl []
            | some mode =>
                cases mode with
                | file => exact List.Perm.refl [file]
                | other => exact List.Perm.refl []
                | directory =>
                    cases recursive with
                    | false => exact List.Perm.refl []
                    | true => exact ih (join p file)

/-- A count does not depend on an order. -/
theorem extensionCount_perm {xs ys : List Str} (h : xs.Perm ys) (ext : LuaVal) :
    extensionCount xs ext = extensionCount ys ext := by
  cases ext with
  | str ext => exact h.countP_eq _
  | nil => rfl
  | bool b => rfl
  | num n => rfl
  | table entries => rfl
  | other => rfl

/-- The directories a rule selects are the same ones in either order. -/
theorem selected_same (h : SameFs fs fs') {path dir : Str} {cfg : Rule}
    (hsel : Selected fs path cfg dir) : Selected fs' path cfg dir := by
  unfold Selected at hsel ⊢
  rw [h.attributes, h.today]
  split at hsel
  case isFalse hscheme =>
    rw [if_neg hscheme]
    exact hsel
  case isTrue hscheme =>
    rw [if_pos hscheme]
    split at hsel
    case isTrue hzero =>
      rw [if_pos hzero]
      exact hsel
    case isFalse hzero =>
      rw [if_neg hzero]
      obtain ⟨dirs, name, hdirs, hname, hrest⟩ := hsel
      obtain ⟨dirs', hdirs', hperm⟩ := h.listed hdirs
      exact ⟨dirs', name, hdirs', hperm.subset hname, hrest⟩

theorem isFileWith_same (h : SameFs fs fs') (path : Str) (ext : String) :
    isFileWith fs' path ext = isFileWith fs path ext := by
  funext file
  unfold isFileWith
  rw [h.attributes]

theorem hasNfo_same (h : SameFs fs fs') {path : Str} (hnfo : HasNfo fs path) :
    HasNfo fs' path := by
  obtain ⟨files, hdir, file, hfile, htest⟩ := hnfo
  obtain ⟨files', hdir', hperm⟩ := h.listed hdir
  rw [← isFileWith_same h] at htest
  exact ⟨files', hdir', file, hperm.subset hfile, htest⟩

theorem younger_same (h : SameFs fs fs') {maxage : LuaVal} {f : Str}
    (hyounger : Younger fs maxage f) : Younger fs' maxage f := by
  unfold Younger
  rw [h.attributes, h.time]
  exact hyounger

/-- What a name has to pass is the same for a rule and one that differs in the order of its
tables. -/
theorem namePassed_same {cfg cfg' : Rule} (h : SameRule cfg cfg') {r : Str}
    (hname : NamePassed cfg r) : NamePassed cfg' r := by
  cases h with
  | tables hblack hwhite hmax =>
      exact {
        blacklist := fun hhits => hname.blacklist (hblack.symm.hits hhits)
        whitelist := hname.whitelist.imp hwhite.eq_empty hwhite.hits
        hidden := hname.hidden
        whitespaces := hname.whitespaces }

/-! ## All filters but two -/

/-- What the other six filters let pass. -/
structure PassedRest (fs : Fs) (cfg : Rule) (f r : Str) : Prop extends NamePassed cfg r where
  age : cfg.checkage.truthy = true → Younger fs cfg.maxage f
  nfo : cfg.checkdirs.truthy = true → cfg.checkdirsnfo.truthy = true → HasNfo fs f

/-- The limits of the rule are as `P` says, if the entry is a directory and they are
looked at. -/
def Caps (P : (LuaVal → Nat) → List (LuaVal × LuaVal) → Prop) (fs : Fs) (pathMax : Nat)
    (cfg : Rule) (f : Str) : Prop :=
  ∀ attributes, fs.attributes f = some attributes → attributes.mode = .directory →
    ∀ limits n, cfg.maxPerExtension = .table limits →
      levels pathMax cfg.maxPerExtensionMaxDepth = .ok n →
        P (extensionCount (filesBelow fs cfg.maxPerExtensionRecursive.notFalse n f)) limits

/-- The rule asks for `.sfv` files. -/
def NeedsSfv (cfg : Rule) : Prop :=
  cfg.checkdirs.truthy = true ∧ cfg.checkdirssfv.truthy = true

/-- The rule comes upon the release at this path, and admits it if it has valid `.sfv`
files and keeps the limits. -/
structure Reaches (fs : Fs) (address : LuaVal → Str) (alreadysent : Str → Bool)
    (cfg : Rule) (r f : Str) : Prop where
  active : cfg.active.truthy = true
  path : (fs.attributes (cfg.path.tostring address)).map Attributes.mode = some .directory
  blacklist : cfg.blacklist.isTable = true
  whitelist : cfg.whitelist.isTable = true
  notSent : alreadysent r = false
  notDots : r ≠ lit "." ∧ r ≠ lit ".."
  entry : ∃ dir entries attributes, Selected fs (cfg.path.tostring address) cfg dir ∧
    fs.dir dir = some entries ∧ r ∈ entries ∧ f = join dir r ∧
    fs.attributes f = some attributes ∧
    PassedRest fs cfg f r ∧ Takes cfg attributes.mode

variable {address : LuaVal → Str} {pathMax : Nat} {alreadysent : Str → Bool}

/-- What is left of the filters when those are taken out that an order can tell: the `.sfv`
files and the caps. -/
theorem admits_iff_reaches {cfg : Rule} {r : Str} :
    Admits fs address pathMax alreadysent cfg r ↔
      ∃ f, Reaches fs address alreadysent cfg r f ∧
        (NeedsSfv cfg → HasValidSfv fs f) ∧ Caps LimitsKept fs pathMax cfg f := by
  constructor
  · intro h
    obtain ⟨dir, entries, attributes, hsel, hdir, hr, hattr, hpassed, htakes⟩ := h.entry
    refine ⟨join dir r, ⟨h.active, h.path, h.blacklist, h.whitelist, h.notSent, h.notDots, ?_⟩, ?_⟩
    · exact ⟨dir, entries, attributes, hsel, hdir, hr, rfl, hattr,
        { hpassed.toNamePassed with
          age := hpassed.age
          nfo := hpassed.nfo }, htakes⟩
    · refine ⟨fun hneeds => hpassed.sfv hneeds.1 hneeds.2, ?_⟩
      intro attributes' hattr' hmode
      obtain rfl : attributes = attributes' := Option.some.inj (hattr.symm.trans hattr')
      exact hpassed.caps hmode
  · intro h
    obtain ⟨f, h, hsfv, hcaps⟩ := h
    obtain ⟨dir, entries, attributes, hsel, hdir, hr, rfl, hattr, hpassed, htakes⟩ := h.entry
    refine ⟨h.active, h.path, h.blacklist, h.whitelist, h.notSent, h.notDots, ?_⟩
    exact ⟨dir, entries, attributes, hsel, hdir, hr, hattr,
      { hpassed.toNamePassed with
        age := hpassed.age
        nfo := hpassed.nfo
        sfv := fun hcheck hneeds => hsfv ⟨hcheck, hneeds⟩
        caps := hcaps attributes hattr }, htakes⟩

/-- None of it sees the order. -/
theorem Reaches.same {cfg cfg' : Rule} {r f : Str}
    (h : Reaches fs address alreadysent cfg r f) (hfs : SameFs fs fs')
    (hcfg : SameRule cfg cfg') : Reaches fs' address alreadysent cfg' r f := by
  obtain ⟨dir, entries, attributes, hsel, hdir, hr, hf, hattr, hpassed, htakes⟩ := h.entry
  obtain ⟨entries', hdir', hperm⟩ := hfs.listed hdir
  have hname := namePassed_same hcfg hpassed.toNamePassed
  cases hcfg with
  | tables hblack hwhite hmax =>
      exact {
        active := h.active
        path := hfs.attributes ▸ h.path
        blacklist := hblack.isTable h.blacklist
        whitelist := hwhite.isTable h.whitelist
        notSent := h.notSent
        notDots := h.notDots
        entry := ⟨dir, entries', attributes, selected_same hfs hsel, hdir', hperm.subset hr, hf,
          hfs.attributes ▸ hattr,
          { hname with
            age := fun hcheck => younger_same hfs (hpassed.age hcheck)
            nfo := fun hcheck hneeds => hasNfo_same hfs (hpassed.nfo hcheck hneeds) },
          htakes⟩ }

end

/-! ## The check of the `.sfv` files -/

/-- All that the lines of the `.sfv` file list is there. -/
def isValidSfv (fs : Fs) (path file : Str) : Bool :=
  (fs.lines (join path file)).any fun ls => ls.all (isListed fs path)

/-- The files that are `.sfv` files to the check. -/
def sfvFiles (fs : Fs) (path : Str) : List Str :=
  ((fs.dir path).getD []).filter (isFileWith fs path "sfv")

/-- The check passes in some order: one of the `.sfv` files is valid, and it may be the
one that is listed first. -/
def SomeValid (fs : Fs) (path : Str) : Prop :=
  ∃ file ∈ sfvFiles fs path, isValidSfv fs path file = true

/-- The check passes in every order: there is an `.sfv` file, and all of them are valid. -/
def AllValid (fs : Fs) (path : Str) : Prop :=
  SomeValid fs path ∧ ∀ file ∈ sfvFiles fs path, isValidSfv fs path file = true

/-- An `.sfv` file is valid if it can be read and every file that its lines name can be
stat-ed. -/
theorem isValidSfv_iff {fs : Fs} {path file : Str} :
    isValidSfv fs path file = true ↔ ∃ ls, fs.lines (join path file) = some ls ∧
      ∀ line ∈ ls, ∀ name, sfvFilename line = some name →
        (fs.attributes (join path name)).isSome = true := by
  unfold isValidSfv
  rw [Option.any_eq_true]
  apply exists_congr
  intro ls
  rw [List.all_eq_true]
  exact and_congr_right fun _ => forall₂_congr fun line _ => isListed_iff

/-- The first of them decides. -/
theorem hasValidSfv_iff {fs : Fs} {path : Str} :
    HasValidSfv fs path ↔ ∃ file, (sfvFiles fs path).head? = some file ∧
      isValidSfv fs path file = true := by
  unfold HasValidSfv sfvFiles
  cases hdir : fs.dir path with
  | none =>
      apply iff_of_false
      · intro h
        obtain ⟨files, file, ls, hsome, -⟩ := h
        cases hsome
      · intro h
        obtain ⟨file, hfirst, -⟩ := h
        cases hfirst
  | some files =>
      rw [Option.getD_some, List.head?_filter]
      constructor
      · intro h
        obtain ⟨files', file, ls, hsome, hfirst, hlines, hall⟩ := h
        obtain rfl : files = files' := Option.some.inj hsome
        exact ⟨file, hfirst, isValidSfv_iff.mpr ⟨ls, hlines, hall⟩⟩
      · intro h
        obtain ⟨file, hfirst, hvalid⟩ := h
        obtain ⟨ls, hlines, hall⟩ := isValidSfv_iff.mp hvalid
        exact ⟨files, file, ls, rfl, hfirst, hlines, hall⟩

theorem isValidSfv_same {fs fs' : Fs} (h : SameFs fs fs') (path file : Str) :
    isValidSfv fs' path file = isValidSfv fs path file := by
  rw [Bool.eq_iff_iff, isValidSfv_iff, isValidSfv_iff, h.attributes, h.lines]

/-- A directory has the same `.sfv` files in either order. -/
theorem sfvFiles_same {fs fs' : Fs} (h : SameFs fs fs') (path : Str) :
    (sfvFiles fs path).Perm (sfvFiles fs' path) := by
  unfold sfvFiles
  rw [isFileWith_same h]
  apply List.Perm.filter
  have hrel := h.dir path
  generalize fs.dir path = listing at hrel ⊢
  generalize fs'.dir path = listing' at hrel ⊢
  cases hrel with
  | none => exact List.Perm.refl []
  | some hperm => exact hperm

/-- The first one in any order is one of them. -/
theorem someValid_of_hasValidSfv {fs fs' : Fs} (h : SameFs fs fs') {path : Str}
    (hvalid : HasValidSfv fs' path) : SomeValid fs path := by
  obtain ⟨file, hfirst, hfile⟩ := hasValidSfv_iff.mp hvalid
  rw [isValidSfv_same h] at hfile
  exact ⟨file, (sfvFiles_same h path).symm.subset (List.mem_of_head? hfirst), hfile⟩

/-- Where all of them are valid, the first one is, in any order. -/
theorem hasValidSfv_of_allValid {fs fs' : Fs} (h : SameFs fs fs') {path : Str}
    (hvalid : AllValid fs path) : HasValidSfv fs' path := by
  obtain ⟨⟨file, hfile, -⟩, hall⟩ := hvalid
  have hmem := (sfvFiles_same h path).subset hfile
  rw [hasValidSfv_iff]
  cases hlist : sfvFiles fs' path with
  | nil =>
      rw [hlist] at hmem
      exact absurd hmem List.not_mem_nil
  | cons first rest =>
      have hfirst : first ∈ sfvFiles fs' path := by
        rw [hlist]
        exact List.mem_cons_self
      refine ⟨first, rfl, ?_⟩
      rw [isValidSfv_same h]
      exact hall first ((sfvFiles_same h path).symm.subset hfirst)

/-! ### Two orders to choose -/

/-- Each directory lists first what `p` holds of. -/
def prefer (p : Str → Str → Bool) (fs : Fs) : Fs :=
  { fs with
    dir := fun path => (fs.dir path).map fun files =>
      files.filter (p path) ++ files.filter fun file => !p path file }

/-- Listing some files first is a change of order. -/
theorem sameFs_prefer (p : Str → Str → Bool) (fs : Fs) : SameFs fs (prefer p fs) where
  attributes := rfl
  lines := rfl
  time := rfl
  today := rfl
  dir := by
    intro path
    show Option.Rel List.Perm (fs.dir path) ((fs.dir path).map _)
    cases fs.dir path with
    | none => exact .none
    | some files => exact .some (List.filter_append_perm (p path) files).symm

/-- What is preferred among the `.sfv` files comes first. -/
theorem head?_prefer {p : Str → Str → Bool} {fs : Fs} {path file : Str}
    (hfile : file ∈ sfvFiles fs path) (hp : p path file = true) :
    ∃ first, (sfvFiles (prefer p fs) path).head? = some first ∧ p path first = true := by
  cases hdir : fs.dir path with
  | none =>
      unfold sfvFiles at hfile
      rw [hdir] at hfile
      exact absurd hfile List.not_mem_nil
  | some files =>
      have hmem : file ∈ (files.filter (p path)).filter (isFileWith fs path "sfv") := by
        unfold sfvFiles at hfile
        rw [hdir, Option.getD_some, List.mem_filter] at hfile
        exact List.mem_filter.mpr ⟨List.mem_filter.mpr ⟨hfile.1, hp⟩, hfile.2⟩
      have hlist : sfvFiles (prefer p fs) path =
          (files.filter (p path)).filter (isFileWith fs path "sfv") ++
            (files.filter fun file => !p path file).filter (isFileWith fs path "sfv") := by
        unfold sfvFiles
        rw [isFileWith_same (sameFs_prefer p fs), ← List.filter_append]
        show (((fs.dir path).map _).getD []).filter _ = _
        rw [hdir]
        rfl
      rw [hlist]
      cases hfirst : (files.filter (p path)).filter (isFileWith fs path "sfv") with
      | nil =>
          rw [hfirst] at hmem
          exact absurd hmem List.not_mem_nil
      | cons first rest =>
          have hin : first ∈ (files.filter (p path)).filter (isFileWith fs path "sfv") := by
            rw [hfirst]
            exact List.mem_cons_self
          exact ⟨first, rfl, (List.mem_filter.mp (List.mem_filter.mp hin).1).2⟩

theorem hasValidSfv_prefer_valid {fs : Fs} {path : Str} (h : SomeValid fs path) :
    HasValidSfv (prefer (isValidSfv fs) fs) path := by
  obtain ⟨file, hfile, hvalid⟩ := h
  exact hasValidSfv_iff.mpr (head?_prefer hfile hvalid)

/-- Where the invalid ones come first and the verdict is still good, there are none. -/
theorem allValid_of_prefer_invalid {fs : Fs} {path : Str}
    (h : HasValidSfv (prefer (fun path file => !isValidSfv fs path file) fs) path) :
    AllValid fs path := by
  refine ⟨someValid_of_hasValidSfv (sameFs_prefer _ fs) h, ?_⟩
  obtain ⟨first, hfirst, hvalid⟩ := hasValidSfv_iff.mp h
  intro file hfile
  by_contra hnot
  have hpreferred := head?_prefer (p := fun path file => !isValidSfv fs path file) hfile
    (by simpa using hnot)
  obtain ⟨first', hfirst', hinvalid⟩ := hpreferred
  obtain rfl : first = first' := Option.some.inj (hfirst.symm.trans hfirst')
  have hsame : isValidSfv fs path first = true := hvalid
  rw [hsame] at hinvalid
  cases hinvalid

/-! ## The limits -/

section

variable {count : LuaVal → Nat} {limits : List (LuaVal × LuaVal)}

/-- What is exceeded stands under the key `false`, and the limits are kept in every
order. -/
def KeptAlways (count : LuaVal → Nat) (limits : List (LuaVal × LuaVal)) : Prop :=
  ∀ limit ∈ limits, Exceeds count limit → limit.1.truthy = false

/-- Something under the key `false` is exceeded, or nothing at all, and the limits are
kept in some order. -/
def KeptSometimes (count : LuaVal → Nat) (limits : List (LuaVal × LuaVal)) : Prop :=
  (∃ limit ∈ limits, Exceeds count limit ∧ limit.1.truthy = false) ∨
    ∀ limit ∈ limits, ¬ Exceeds count limit

theorem KeptAlways.kept (h : KeptAlways count limits) : LimitsKept count limits := by
  intro pre limit post heq _ hexceeds
  exact h limit (by simp [heq]) hexceeds

/-- Limits that let pass in one order let pass in some order. -/
theorem sometimes_of_kept (h : LimitsKept count limits) : KeptSometimes count limits := by
  induction limits with
  | nil => exact Or.inr (by simp)
  | cons limit rest ih =>
      by_cases hexceeds : Exceeds count limit
      · exact Or.inl ⟨limit, List.mem_cons_self, hexceeds,
          (limitsKept_cons_of_exceeds hexceeds).mp h⟩
      · rcases ih ((limitsKept_cons_iff hexceeds).mp h) with ⟨found, hmem, hfound⟩ | hnone
        · exact Or.inl ⟨found, List.mem_cons_of_mem _ hmem, hfound⟩
        · exact Or.inr (List.forall_mem_cons.mpr ⟨hexceeds, hnone⟩)

theorem KeptAlways.perm {limits' : List (LuaVal × LuaVal)} (hperm : limits.Perm limits')
    (h : KeptAlways count limits) : KeptAlways count limits' :=
  fun limit hlimit => h limit (hperm.symm.subset hlimit)

theorem KeptSometimes.perm {limits' : List (LuaVal × LuaVal)} (hperm : limits.Perm limits')
    (h : KeptSometimes count limits) : KeptSometimes count limits' := by
  rcases h with ⟨limit, hmem, hlimit⟩ | hnone
  · exact Or.inl ⟨limit, hperm.subset hmem, hlimit⟩
  · exact Or.inr fun limit hlimit => hnone limit (hperm.symm.subset hlimit)

/-! ### Two orders to choose -/

/-- The limits of which `p` holds come first. -/
def limitsFirst (p : LuaVal × LuaVal → Bool) (limits : List (LuaVal × LuaVal)) :
    List (LuaVal × LuaVal) :=
  limits.filter p ++ limits.filter fun limit => !p limit

theorem perm_limitsFirst (p : LuaVal × LuaVal → Bool) (limits : List (LuaVal × LuaVal)) :
    limits.Perm (limitsFirst p limits) := (List.filter_append_perm p limits).symm

/-- With the key `false` in front. -/
theorem limitsKept_falseFirst (h : KeptSometimes count limits) :
    LimitsKept count (limitsFirst (fun limit => !limit.1.truthy) limits) := by
  have hfront : ∀ xs ys : List (LuaVal × LuaVal), (∀ x ∈ xs, x.1.truthy = false) →
      ((∃ x ∈ xs, Exceeds count x) ∨ ∀ y ∈ ys, ¬ Exceeds count y) →
      LimitsKept count (xs ++ ys) := by
    intro xs ys hxs hkept
    induction xs with
    | nil =>
        intro pre limit post heq _ hexceeds
        rcases hkept with ⟨x, hx, -⟩ | hnone
        · exact absurd hx List.not_mem_nil
        · exact absurd hexceeds (hnone limit (by rw [← List.nil_append ys, heq]; simp))
    | cons x xs ih =>
        obtain ⟨hx, hxs⟩ := List.forall_mem_cons.mp hxs
        rw [List.cons_append]
        by_cases hexceeds : Exceeds count x
        · exact (limitsKept_cons_of_exceeds hexceeds).mpr hx
        · refine (limitsKept_cons_iff hexceeds).mpr (ih hxs ?_)
          rcases hkept with ⟨x', hx', hexceeds'⟩ | hnone
          · rcases List.mem_cons.mp hx' with rfl | hx'
            · exact absurd hexceeds' hexceeds
            · exact Or.inl ⟨x', hx', hexceeds'⟩
          · exact Or.inr hnone
  apply hfront
  · intro limit hlimit
    simpa using (List.mem_filter.mp hlimit).2
  · rcases h with ⟨limit, hmem, hexceeds, hfalse⟩ | hnone
    · exact Or.inl ⟨limit, List.mem_filter.mpr ⟨hmem, by simp [hfalse]⟩, hexceeds⟩
    · exact Or.inr fun limit hlimit => hnone limit (List.mem_filter.mp hlimit).1

/-- With the key `false` behind the others. -/
theorem keptAlways_of_falseLast
    (h : LimitsKept count (limitsFirst (fun limit => limit.1.truthy) limits)) :
    KeptAlways count (limitsFirst (fun limit => limit.1.truthy) limits) := by
  have hfront : ∀ xs ys : List (LuaVal × LuaVal), (∀ x ∈ xs, x.1.truthy = true) →
      LimitsKept count (xs ++ ys) → ∀ x ∈ xs, ¬ Exceeds count x := by
    intro xs ys hxs hkept
    induction xs with
    | nil => simp
    | cons x xs ih =>
        obtain ⟨hx, hxs⟩ := List.forall_mem_cons.mp hxs
        rw [List.cons_append] at hkept
        by_cases hexceeds : Exceeds count x
        · rw [limitsKept_cons_of_exceeds hexceeds, hx] at hkept
          cases hkept
        · exact List.forall_mem_cons.mpr
            ⟨hexceeds, ih hxs ((limitsKept_cons_iff hexceeds).mp hkept)⟩
  intro limit hlimit hexceeds
  rcases List.mem_append.mp hlimit with htruthy | hfalse
  · have hnot := hfront _ _ (fun x hx => (List.mem_filter.mp hx).2) h limit htruthy
    exact absurd hexceeds hnot
  · simpa using (List.mem_filter.mp hfalse).2

end

section

variable {P Q : (LuaVal → Nat) → List (LuaVal × LuaVal) → Prop} {fs fs' : Fs} {pathMax : Nat}
  {cfg cfg' : Rule} {f : Str}

theorem Caps.mono (h : Caps P fs pathMax cfg f) (hPQ : ∀ count limits, P count limits →
    Q count limits) : Caps Q fs pathMax cfg f :=
  fun attributes hattr hmode limits n hlimits hlevels =>
    hPQ _ _ (h attributes hattr hmode limits n hlimits hlevels)

/-- What does not see the order of the limits is the same on both sides. -/
theorem Caps.same (hP : ∀ count limits limits', limits.Perm limits' → P count limits →
    P count limits') (hfs : SameFs fs fs') (hcfg : SameRule cfg cfg')
    (h : Caps P fs pathMax cfg f) : Caps P fs' pathMax cfg' f := by
  cases hcfg with
  | @tables _ _ max _ _ hmax =>
      intro attributes hattr hmode limits' n hlimits' hlevels
      have hlimits : max = .table limits' := hlimits'
      rw [hlimits] at hmax
      obtain ⟨limits, hlimits, hperm⟩ := hmax.symm.entries
      have hcount : extensionCount (filesBelow fs' cfg.maxPerExtensionRecursive.notFalse n f) =
          extensionCount (filesBelow fs cfg.maxPerExtensionRecursive.notFalse n f) := by
        funext ext
        exact (extensionCount_perm (filesBelow_perm hfs _ n f) ext).symm
      rw [hfs.attributes] at hattr
      show P (extensionCount (filesBelow fs' cfg.maxPerExtensionRecursive.notFalse n f)) limits'
      rw [hcount]
      exact hP _ limits limits' hperm.symm (h attributes hattr hmode limits n hlimits hlevels)

/-- The rule with its limits in another order. -/
def reorder (p : LuaVal × LuaVal → Bool) (cfg : Rule) : Rule :=
  { cfg with
    maxPerExtension :=
      match cfg.maxPerExtension with
      | .table limits => .table (limitsFirst p limits)
      | v => v }

/-- A rule with its limits in another order is the same rule. -/
theorem sameRule_reorder (p : LuaVal × LuaVal → Bool) (cfg : Rule) :
    SameRule cfg (reorder p cfg) := by
  refine .tables (.refl _) (.refl _) ?_
  cases cfg.maxPerExtension with
  | table limits => exact .perm (perm_limitsFirst p limits)
  | nil => exact .refl _
  | bool b => exact .refl _
  | num n => exact .refl _
  | str s => exact .refl _
  | other => exact .refl _

theorem sameRules_reorder (p : LuaVal × LuaVal → Bool) (rules : List Rule) :
    SameRules rules (rules.map (reorder p)) :=
  ⟨rules.map (reorder p), by
    rw [List.forall₂_map_right_iff]
    exact List.forall₂_same.mpr fun cfg _ => sameRule_reorder p cfg, List.Perm.refl _⟩

/-- The limits of the reordered rule are the limits of the rule, in the other order. -/
theorem reorder_table {p : LuaVal × LuaVal → Bool} {limits : List (LuaVal × LuaVal)}
    (h : (reorder p cfg).maxPerExtension = .table limits) :
    ∃ limits', cfg.maxPerExtension = .table limits' ∧ limits = limitsFirst p limits' := by
  unfold reorder at h
  cases hmax : cfg.maxPerExtension with
  | table limits' =>
      rw [hmax] at h
      exact ⟨limits', rfl, (LuaVal.table.inj h).symm⟩
  | nil => simp [hmax] at h
  | bool b => simp [hmax] at h
  | num n => simp [hmax] at h
  | str s => simp [hmax] at h
  | other => simp [hmax] at h

theorem caps_falseFirst (h : Caps KeptSometimes fs pathMax cfg f) :
    Caps LimitsKept fs pathMax (reorder (fun limit => !limit.1.truthy) cfg) f := by
  intro attributes hattr hmode limits n hlimits hlevels
  obtain ⟨limits', hlimits', rfl⟩ := reorder_table hlimits
  exact limitsKept_falseFirst (h attributes hattr hmode limits' n hlimits' hlevels)

/-- Where the limits under false keys come last and let pass, no other limit is exceeded, so
they let pass in every order. -/
theorem caps_of_falseLast
    (h : Caps LimitsKept fs pathMax (reorder (fun limit => limit.1.truthy) cfg) f) :
    Caps KeptAlways fs pathMax (reorder (fun limit => limit.1.truthy) cfg) f := by
  intro attributes hattr hmode limits n hlimits hlevels
  have hkept := h attributes hattr hmode limits n hlimits hlevels
  obtain ⟨limits', -, rfl⟩ := reorder_table hlimits
  exact keptAlways_of_falseLast hkept

end

/-! ## What is found -/

section

variable (fs : Fs) (address : LuaVal → Str) (pathMax : Nat) (alreadysent : Str → Bool)
  (rules : List Rule)

/-- The scan of the rules. -/
def scan : Except LuaError Update :=
  update (World.still fs address pathMax) (.leaves (some rules)) none alreadysent

/-- The release is found in whatever order, or in none: a rule comes upon it that asks for
no `.sfv` file, or upon valid ones only, and no limit is exceeded but one under the key
`false`; or else all that come upon it ask for one and find none that is valid, or have
a limit that is exceeded and none under the key `false` that is. -/
def Settled (r : Str) : Prop :=
  (∃ cfg ∈ rules, ∃ f, Reaches fs address alreadysent cfg r f ∧
    (NeedsSfv cfg → AllValid fs f) ∧ Caps KeptAlways fs pathMax cfg f) ∨
  ∀ cfg ∈ rules, ∀ f, Reaches fs address alreadysent cfg r f →
    ¬ ((NeedsSfv cfg → SomeValid fs f) ∧ Caps KeptSometimes fs pathMax cfg f)

variable {fs address pathMax alreadysent rules}

/-- The rules behind a scan are those it was given. -/
theorem scan_rules {u : Update} (h : scan fs address pathMax alreadysent rules = .ok u) :
    u.rules = some rules := by
  obtain ⟨loaded, hload, h⟩ := bind_eq_ok.mp h
  obtain rfl := Except.ok.inj hload
  obtain ⟨st, -, h⟩ := bind_eq_ok.mp h
  obtain ⟨st', -, h⟩ := bind_eq_ok.mp h
  obtain ⟨st'', -, h⟩ := bind_eq_ok.mp h
  obtain rfl := Except.ok.inj h
  rfl

theorem needsSfv_same {cfg cfg' : Rule} (h : SameRule cfg cfg') :
    NeedsSfv cfg ↔ NeedsSfv cfg' := by
  cases h with
  | tables => exact Iff.rfl

/-- What is found in one order, in terms of another. -/
theorem mem_found_iff {fs' : Fs} {rules' : List Rule} {u : Update} (hfs : SameFs fs fs')
    (hrules : SameRules rules rules')
    (h : scan fs' address pathMax alreadysent rules' = .ok u) (r : Str) :
    r ∈ u.scan.found ↔ ∃ cfg ∈ rules, ∃ cfg' ∈ rules', SameRule cfg cfg' ∧
      ∃ f, Reaches fs address alreadysent cfg r f ∧ (NeedsSfv cfg → HasValidSfv fs' f) ∧
        Caps LimitsKept fs' pathMax cfg' f := by
  obtain ⟨list, hlist, hfound⟩ := mem_found_iff_admits h
  rw [scan_rules h, Option.some.injEq] at hlist
  subst hlist
  rw [hfound]
  constructor
  · intro hadmits
    obtain ⟨cfg', hcfg', hadmits⟩ := hadmits
    obtain ⟨f, hreaches, hsfv, hcaps⟩ := admits_iff_reaches.mp hadmits
    obtain ⟨cfg, hcfg, hsame⟩ := hrules.exists_right cfg' hcfg'
    exact ⟨cfg, hcfg, cfg', hcfg', hsame, f, hreaches.same hfs.symm hsame.symm,
      fun h => hsfv ((needsSfv_same hsame).mp h), hcaps⟩
  · intro hadmits
    obtain ⟨cfg, hcfg, cfg', hcfg', hsame, f, hreaches, hsfv, hcaps⟩ := hadmits
    refine ⟨cfg', hcfg', admits_iff_reaches.mpr ⟨f, hreaches.same hfs hsame, ?_, hcaps⟩⟩
    exact fun h => hsfv ((needsSfv_same hsame).mpr h)

/-- A settled release that is found in one order is found in any other in which the scan
returns. -/
theorem mem_found_of_settled {r : Str} (hsettled : Settled fs address pathMax alreadysent rules r)
    {fs₁ fs₂ : Fs} {rules₁ rules₂ : List Rule} {u₁ u₂ : Update} (hfs₁ : SameFs fs fs₁)
    (hrules₁ : SameRules rules rules₁) (hfs₂ : SameFs fs fs₂) (hrules₂ : SameRules rules rules₂)
    (h₁ : scan fs₁ address pathMax alreadysent rules₁ = .ok u₁)
    (h₂ : scan fs₂ address pathMax alreadysent rules₂ = .ok u₂) :
    r ∈ u₁.scan.found → r ∈ u₂.scan.found := by
  rw [mem_found_iff hfs₁ hrules₁ h₁, mem_found_iff hfs₂ hrules₂ h₂]
  intro hfound
  rcases hsettled with hin | hout
  · obtain ⟨cfg, hcfg, f, hreaches, hall, hcaps⟩ := hin
    obtain ⟨cfg', hcfg', hsame⟩ := hrules₂.exists_left cfg hcfg
    refine ⟨cfg, hcfg, cfg', hcfg', hsame, f, hreaches, ?_, ?_⟩
    · exact fun h => hasValidSfv_of_allValid hfs₂ (hall h)
    · have hcaps₂ : Caps KeptAlways fs₂ pathMax cfg' f :=
        hcaps.same (fun _ _ _ => KeptAlways.perm) hfs₂ hsame
      exact hcaps₂.mono fun _ _ => KeptAlways.kept
  · obtain ⟨cfg, hcfg, cfg', hcfg', hsame, f, hreaches, hsfv, hcaps⟩ := hfound
    refine absurd ⟨?_, ?_⟩ (hout cfg hcfg f hreaches)
    · exact fun h => someValid_of_hasValidSfv hfs₁ (hsfv h)
    · exact (hcaps.mono fun _ _ => sometimes_of_kept).same (fun _ _ _ => KeptSometimes.perm)
        hfs₁.symm hsame.symm

variable (fs address pathMax alreadysent rules)

/-- What is found does not depend on the order: any two of them in which the scan returns
have the same names in the map. -/
def SameFound : Prop :=
  ∀ fs₁ rules₁ fs₂ rules₂ u₁ u₂, SameFs fs fs₁ → SameRules rules rules₁ → SameFs fs fs₂ →
    SameRules rules rules₂ → scan fs₁ address pathMax alreadysent rules₁ = .ok u₁ →
    scan fs₂ address pathMax alreadysent rules₂ = .ok u₂ →
      ∀ r, r ∈ u₁.scan.found ↔ r ∈ u₂.scan.found

/-- The scan returns, in whatever order. -/
def ReturnsAlways : Prop :=
  ∀ fs' rules', SameFs fs fs' → SameRules rules rules' →
    ∃ u, scan fs' address pathMax alreadysent rules' = .ok u

end

/-- **The order, exactly.**  What is found is the same in any two orders in which the scan
returns if all releases are settled; and where it returns in every order, only then. -/
theorem order_iff (fs : Fs) (address : LuaVal → Str) (pathMax : Nat) (alreadysent : Str → Bool)
    (rules : List Rule) :
    ((∀ r, Settled fs address pathMax alreadysent rules r) →
      SameFound fs address pathMax alreadysent rules) ∧
    (ReturnsAlways fs address pathMax alreadysent rules →
      (SameFound fs address pathMax alreadysent rules ↔
        ∀ r, Settled fs address pathMax alreadysent rules r)) := by
  have henough : (∀ r, Settled fs address pathMax alreadysent rules r) →
      SameFound fs address pathMax alreadysent rules := by
    intro hsettled fs₁ rules₁ fs₂ rules₂ u₁ u₂ hfs₁ hrules₁ hfs₂ hrules₂ h₁ h₂ r
    constructor
    · exact mem_found_of_settled (hsettled r) hfs₁ hrules₁ hfs₂ hrules₂ h₁ h₂
    · exact mem_found_of_settled (hsettled r) hfs₂ hrules₂ hfs₁ hrules₁ h₂ h₁
  refine ⟨henough, fun hreturns => ⟨?_, henough⟩⟩
  intro hsame r
  by_contra hnot
  -- valid files and the key `false` first, then the others first
  have hvalid := sameFs_prefer (isValidSfv fs) fs
  have hinvalid := sameFs_prefer (fun path file => !isValidSfv fs path file) fs
  have hfirst := sameRules_reorder (fun limit => !limit.1.truthy) rules
  have hlast := sameRules_reorder (fun limit => limit.1.truthy) rules
  obtain ⟨u₁, h₁⟩ := hreturns _ _ hvalid hfirst
  obtain ⟨u₂, h₂⟩ := hreturns _ _ hinvalid hlast
  unfold Settled at hnot
  rw [not_or] at hnot
  obtain ⟨hmissing, hreached⟩ := hnot
  push Not at hreached
  obtain ⟨cfg, hcfg, f, hreaches, hsome, hcaps⟩ := hreached
  have hin : r ∈ u₁.scan.found := by
    rw [mem_found_iff hvalid hfirst h₁]
    refine ⟨cfg, hcfg, _, List.mem_map_of_mem hcfg, sameRule_reorder _ cfg, f, hreaches, ?_, ?_⟩
    · exact fun h => hasValidSfv_prefer_valid (hsome h)
    · exact caps_falseFirst
        (hcaps.same (fun _ _ _ => KeptSometimes.perm) hvalid (.refl cfg))
  have hout : r ∈ u₂.scan.found :=
    (hsame _ _ _ _ _ _ hvalid hfirst hinvalid hlast h₁ h₂ r).mp hin
  rw [mem_found_iff hinvalid hlast h₂] at hout
  obtain ⟨cfg', hcfg', other, hother, hsame', f', hreaches', hsfv', hcaps'⟩ := hout
  obtain ⟨cfg₀, -, rfl⟩ := List.mem_map.mp hother
  refine hmissing ⟨cfg', hcfg', f', hreaches', ?_, ?_⟩
  · exact fun h => allValid_of_prefer_invalid (hsfv' h)
  · exact (caps_of_falseLast hcaps').same (fun _ _ _ => KeptAlways.perm) hinvalid.symm
      hsame'.symm

/-- A release with two `.sfv` files, of which one lists a file that is not there. -/
def twoSfvFs (files : List Str) : Fs where
  attributes path :=
    if path = lit "/in/Rel/b.rar" then none
    else if lit "/in/Rel/" <+: path then some { mode := .file, modification := 0 }
    else some { mode := .directory, modification := 0 }
  dir path := if path = lit "/in" then some [lit "Rel"] else some files
  lines path :=
    some (if path = lit "/in/Rel/a.sfv" then [lit "a.rar 0123"] else [lit "b.rar 0123"])
  time := 0
  today := lit "0601"

def sfvRule : Rule where
  active := .bool true
  path := .str (lit "/in")
  blacklist := .table []
  whitelist := .table []
  checkdirs := .bool true
  checkdirssfv := .bool true

/-- It is found in one order and not in the other. -/
theorem order_two_sfv :
    ¬ ∀ (fs : Fs) (address : LuaVal → Str) (pathMax : Nat) (alreadysent : Str → Bool)
        (rules : List Rule), SameFound fs address pathMax alreadysent rules := by
  intro hall
  have hsame := hall (twoSfvFs [lit "a.sfv", lit "b.sfv"]) (fun _ => []) 4096 (fun _ => false)
    [sfvRule]
  have hswap : SameFs (twoSfvFs [lit "a.sfv", lit "b.sfv"])
      (twoSfvFs [lit "b.sfv", lit "a.sfv"]) := by
    refine ⟨rfl, rfl, rfl, rfl, ?_⟩
    intro path
    show Option.Rel List.Perm (if path = lit "/in" then some [lit "Rel"] else some _)
      (if path = lit "/in" then some [lit "Rel"] else some _)
    split
    · exact .some (List.Perm.refl _)
    · exact .some (List.Perm.swap _ _ _)
  have hiff := hsame _ [sfvRule] _ [sfvRule] _ _ (.refl _) (.refl _) hswap (.refl _) rfl rfl
    (lit "Rel")
  exact absurd (hiff.mp (by decide)) (by decide)

end LuadchAnnouncer.Core.AnnounceOrder
