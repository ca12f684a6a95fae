import LuadchAnnouncer.Core.Announce
import LuadchAnnouncer.Verified.Raising

/-!
# What a scan adds to its map

All the loops of a scan write into one map, and all of them only add to it.
`Adds A st st'` says that a piece of the scan has added exactly the pairs of
`A`: every key it stands for is there afterwards, and a value that is new is
one of its values.  One lemma a loop carries this from a single directory
entry up to the whole scan, for any account `A` of what an entry offers.

`Passes` is the account that repeats the chain of filters, in any world.  With
it, `update_found_iff` separates the dedupe test from everything else a scan
looks at.

## Main results

* `search_adds`, `searchRule_adds` — what a step adds to the map, along the loops of the
  code.
* `scanRules_found`, `update_scans` — the map of a scan is what its rules add, one after
  the other.
* `update_found_iff` — a release is in the map exactly if some rule offers it at some
  moment.
-/

namespace LuadchAnnouncer.Core.AnnounceScan

open LuadchAnnouncer.Verified.Bytes
open LuadchAnnouncer.Verified.LuaValue
open LuadchAnnouncer.Verified.Raising
open LuadchAnnouncer.Core.Announce

/-! ## A map that only grows -/

/-- `st'` is `st` with the pairs of `A` added to what was found.  A name that several
rules offer is stored with the last of them, and all that is said here is that it is one
of them. -/
structure Adds (A : Str → Rule → Prop) (st st' : Scan) : Prop where
  keys : ∀ r, r ∈ st'.found ↔ r ∈ st.found ∨ ∃ cfg, A r cfg
  values : ∀ r cfg, st'.found.lookup r = some cfg →
    st.found.lookup r = some cfg ∨ A r cfg

namespace Adds

variable {A B : Str → Rule → Prop} {st st₁ st₂ : Scan}

/-- A step that leaves the map as it was adds nothing. -/
theorem none (hA : ∀ r cfg, ¬ A r cfg) (h : st₁.found = st.found) : Adds A st st₁ where
  keys := by
    intro r
    rw [h]
    constructor
    · exact Or.inl
    · rintro (hold | ⟨cfg, hcfg⟩)
      · exact hold
      · exact absurd hcfg (hA r cfg)
  values := by
    intro r cfg hlookup
    rw [h] at hlookup
    exact Or.inl hlookup

/-- A step that inserts one name adds it with its rule, and takes over every older entry. -/
theorem insert {release : Str} {cfg : Rule} (hA : A release cfg)
    (honly : ∀ r cfg', A r cfg' → r = release)
    (h : st₁.found = st.found.insert release cfg) : Adds A st st₁ where
  keys := by
    intro r
    rw [h, AList.mem_insert]
    constructor
    · rintro (rfl | hold)
      · exact Or.inr ⟨cfg, hA⟩
      · exact Or.inl hold
    · rintro (hold | ⟨cfg', hcfg'⟩)
      · exact Or.inr hold
      · exact Or.inl (honly r cfg' hcfg')
  values := by
    intro r cfg' hlookup
    rw [h] at hlookup
    by_cases hr : r = release
    · subst hr
      rw [AList.lookup_insert, Option.some.injEq] at hlookup
      subst hlookup
      exact Or.inr hA
    · rw [AList.lookup_insert_ne hr] at hlookup
      exact Or.inl hlookup

/-- Two steps one after the other. -/
theorem trans (h : Adds A st st₁) (h' : Adds B st₁ st₂) :
    Adds (fun r cfg => A r cfg ∨ B r cfg) st st₂ where
  keys := by
    intro r
    rw [h'.keys, h.keys, exists_or, or_assoc]
  values := by
    intro r cfg hlookup
    rcases h'.values r cfg hlookup with hmid | hB
    · rcases h.values r cfg hmid with hold | hA
      · exact Or.inl hold
      · exact Or.inr (Or.inl hA)
    · exact Or.inr (Or.inr hB)

/-- What is added, in other words. -/
theorem congr (h : Adds A st st₁) (hAB : ∀ r cfg, A r cfg ↔ B r cfg) : Adds B st st₁ where
  keys := by
    intro r
    simp only [← hAB]
    exact h.keys r
  values := by
    intro r cfg hlookup
    rw [← hAB]
    exact h.values r cfg hlookup

/-- What a piece adds does not depend on what it logs or counts. -/
theorem of_found (h : Adds A st₁ st₂) (hfound : st₁.found = st.found) : Adds A st st₂ where
  keys := by
    intro r
    rw [h.keys, hfound]
  values := by
    intro r cfg hlookup
    rw [← hfound]
    exact h.values r cfg hlookup

/-- A loop adds what its steps add. -/
theorem foldlM {ι : Type} {body : Scan → ι → Except LuaError Scan} {A : ι → Str → Rule → Prop}
    (hbody : ∀ x st st', body st x = .ok st' → Adds (A x) st st') :
    ∀ (xs : List ι) (st st' : Scan), xs.foldlM body st = .ok st' →
      Adds (fun r cfg => ∃ x ∈ xs, A x r cfg) st st' := by
  intro xs
  induction xs with
  | nil =>
      intro st st' h
      rw [List.foldlM_nil, pure_eq_ok] at h
      subst h
      exact none (by simp) rfl
  | cons x xs ih =>
      intro st st' h
      rw [List.foldlM_cons, bind_eq_ok] at h
      obtain ⟨st₁, hx, hxs⟩ := h
      refine ((hbody x st st₁ hx).trans (ih st₁ st' hxs)).congr ?_
      intro r cfg
      simp only [List.mem_cons, exists_eq_or_imp]

end Adds

/-! ## From an entry to the scan

`A m path cfg r` is the account of one entry: the rule `cfg`, searching `path`,
takes the entry `r` it comes to at the moment `m`. -/

section

variable {w : World} {alreadysent : Str → Bool} {A : Moment → Str → Rule → Str → Prop}

/-- `A` is what the body of the loop in `search` adds, wherever it is run and whatever has
been found before. -/
def Accounts (w : World) (alreadysent : Str → Bool)
    (A : Moment → Str → Rule → Str → Prop) : Prop :=
  ∀ m path cfg st release j st',
    searchEntry w m alreadysent path cfg st (release, j) = .ok st' →
      Adds (fun r cfg' => r = release ∧ cfg' = cfg ∧ A (m ++ [1, j]) path cfg r) st st'

/-- What `search` offers. -/
def Lists (w : World) (A : Moment → Str → Rule → Str → Prop) (m : Moment) (path : Str)
    (cfg : Rule) (r : Str) : Prop :=
  ∃ entries j, (w.fs (m ++ [0])).dir path = some entries ∧ (r, j) ∈ entries.zipIdx ∧
    A (m ++ [1, j]) path cfg r

/-- A search adds what its directory lists, as far as the turns of its loop account for it. -/
theorem search_adds (hA : Accounts w alreadysent A) {m : Moment} {path : Str} {cfg : Rule}
    {st st' : Scan} (h : search w m alreadysent path cfg st = .ok st') :
    Adds (fun r cfg' => cfg' = cfg ∧ Lists w A m path cfg r) st st' := by
  unfold search at h
  cases hdir : (w.fs (m ++ [0])).dir path with
  | none => simp [hdir] at h
  | some entries =>
      simp only [hdir, bind_eq_ok] at h
      obtain ⟨st₁, hloop, h⟩ := h
      obtain rfl := Scan.log_ok h
      have hadds := Adds.foldlM (fun entry st st' h => hA m path cfg st entry.1 entry.2 st' h)
        _ _ _ hloop
      have hcount : ({ st with count := 0 } : Scan).found = st.found := rfl
      have hlog : Adds (fun _ _ => False) st₁
          (st₁.logged (lit "Releases blocked: " ++ LuaNum.natText st₁.count)) :=
        Adds.none (by simp) rfl
      refine ((hadds.of_found hcount).trans hlog).congr ?_
      intro r cfg'
      constructor
      · rintro (⟨entry, hmem, rfl, rfl, hr⟩ | hfalse)
        · exact ⟨rfl, entries, entry.2, hdir, hmem, hr⟩
        · exact hfalse.elim
      · rintro ⟨rfl, entries', j, hdir', hmem, hr⟩
        rw [hdir, Option.some.injEq] at hdir'
        subst hdir'
        exact Or.inl ⟨(r, j), hmem, rfl, rfl, hr⟩

/-- The directories a rule selects, each with the moment its search starts. -/
inductive Selects (w : World) (m : Moment) (path : Str) (cfg : Rule) : Moment → Str → Prop where
  | plain (hscheme : cfg.daydirscheme.truthy = false) :
      Selects w m path cfg (m ++ [2]) path
  | zeroday (hscheme : cfg.daydirscheme.truthy = true) (hzero : cfg.zeroday.truthy = true)
      (hmode : w.mode (m ++ [1]) (join path (w.fs (m ++ [1])).today) = some .directory) :
      Selects w m path cfg (m ++ [2]) (join path (w.fs (m ++ [1])).today)
  | daydir (dirs : List Str) (dir : Str) (j : Nat)
      (hscheme : cfg.daydirscheme.truthy = true) (hzero : cfg.zeroday.truthy = false)
      (hdirs : (w.fs (m ++ [1])).dir path = some dirs) (hdir : (dir, j) ∈ dirs.zipIdx)
      (hdots : notDots dir = true) (haccept : isDaydir dir = .ok true) :
      Selects w m path cfg (m ++ [2] ++ [j]) (join path dir)

/-- Without a scheme the one directory is the path. -/
theorem selects_plain {m m' : Moment} {path dir : Str} {cfg : Rule}
    (hscheme : cfg.daydirscheme.truthy = false) :
    Selects w m path cfg m' dir ↔ m' = m ++ [2] ∧ dir = path := by
  constructor
  · intro hsel
    cases hsel with
    | plain => exact ⟨rfl, rfl⟩
    | zeroday hscheme' => simp [hscheme] at hscheme'
    | daydir dirs name j hscheme' => simp [hscheme] at hscheme'
  · rintro ⟨rfl, rfl⟩
    exact .plain hscheme

/-- With `zeroday` it is the directory of today, where this is a directory. -/
theorem selects_zeroday {m m' : Moment} {path dir : Str} {cfg : Rule}
    (hscheme : cfg.daydirscheme.truthy = true) (hzero : cfg.zeroday.truthy = true) :
    Selects w m path cfg m' dir ↔
      w.mode (m ++ [1]) (join path (w.fs (m ++ [1])).today) = some .directory ∧
        m' = m ++ [2] ∧ dir = join path (w.fs (m ++ [1])).today := by
  constructor
  · intro hsel
    cases hsel with
    | plain hscheme' => simp [hscheme] at hscheme'
    | zeroday _ _ hmode => exact ⟨hmode, rfl, rfl⟩
    | daydir dirs name j _ hzero' => simp [hzero] at hzero'
  · rintro ⟨hmode, rfl, rfl⟩
    exact .zeroday hscheme hzero hmode

/-- Otherwise each entry of the path that is taken for a day. -/
theorem selects_daydir {m m' : Moment} {path dir : Str} {cfg : Rule} {dirs : List Str}
    (hscheme : cfg.daydirscheme.truthy = true) (hzero : cfg.zeroday.truthy = false)
    (hdirs : (w.fs (m ++ [1])).dir path = some dirs) :
    Selects w m path cfg m' dir ↔
      ∃ entry ∈ dirs.zipIdx, notDots entry.1 = true ∧ isDaydir entry.1 = .ok true ∧
        m' = m ++ [2] ++ [entry.2] ∧ dir = join path entry.1 := by
  constructor
  · intro hsel
    cases hsel with
    | plain hscheme' => simp [hscheme] at hscheme'
    | zeroday _ hzero' => simp [hzero] at hzero'
    | daydir dirs' name j _ _ hdirs' hmem hdots haccept =>
        rw [hdirs, Option.some.injEq] at hdirs'
        subst hdirs'
        exact ⟨(name, j), hmem, hdots, haccept, rfl, rfl⟩
  · rintro ⟨entry, hmem, hdots, haccept, rfl, rfl⟩
    exact .daydir dirs entry.1 entry.2 hscheme hzero hdirs hmem hdots haccept

/-- One day directory adds what it lists, if it is accepted. -/
theorem daydirEntry_adds (hA : Accounts w alreadysent A) {m : Moment} {path : Str}
    {cfg : Rule} {st st' : Scan} (dir : Str) (j : Nat)
    (h : daydirEntry w m alreadysent path cfg st (dir, j) = .ok st') :
    Adds (fun r cfg' => cfg' = cfg ∧ notDots dir = true ∧ isDaydir dir = .ok true ∧
      Lists w A (m ++ [j]) (join path dir) cfg r) st st' := by
  simp only [daydirEntry] at h
  by_cases hdots : notDots dir = true
  · simp only [hdots, if_true, bind_eq_ok] at h
    obtain ⟨accept, haccept, h⟩ := h
    cases accept with
    | true =>
        refine (search_adds hA h).congr fun r cfg' => ?_
        simp [hdots, haccept]
    | false =>
        simp only [Bool.false_eq_true, if_false] at h
        obtain rfl := Scan.log_ok h
        exact Adds.none (by simp [haccept]) rfl
  · simp only [hdots, Bool.false_eq_true, if_false, pure_eq_ok] at h
    subst h
    exact Adds.none (by simp [hdots]) rfl

theorem searchRule_plain {m : Moment} {path : Str} {cfg : Rule} {st : Scan}
    (hscheme : cfg.daydirscheme.truthy = false) :
    searchRule w m alreadysent path cfg st = search w (m ++ [2]) alreadysent path cfg st := by
  unfold searchRule
  rw [if_neg (by rw [hscheme]; decide)]

/-- The branch of `zeroday`, which asks for the mode of one directory and logs that there is
none. -/
theorem searchRule_zeroday {m : Moment} {path : Str} {cfg : Rule} {st : Scan}
    (hscheme : cfg.daydirscheme.truthy = true) (hzero : cfg.zeroday.truthy = true) :
    searchRule w m alreadysent path cfg st =
      if w.mode (m ++ [1]) (join path (w.fs (m ++ [1])).today) = some .directory then
        search w (m ++ [2]) alreadysent (join path (w.fs (m ++ [1])).today) cfg st
      else
        st.log w (m ++ [1]) (lit "Warning: directory '" ++ join path (w.fs (m ++ [1])).today ++
          lit "' seems not to exist, skipping...") := by
  unfold searchRule
  rw [if_pos hscheme, if_pos hzero]

/-- The branch of the day directories, which is a loop over the listing of the path. -/
theorem searchRule_daydir {m : Moment} {path : Str} {cfg : Rule} {st : Scan}
    {dirs : List Str} (hscheme : cfg.daydirscheme.truthy = true)
    (hzero : cfg.zeroday.truthy = false) (hdirs : (w.fs (m ++ [1])).dir path = some dirs) :
    searchRule w m alreadysent path cfg st =
      dirs.zipIdx.foldlM (daydirEntry w (m ++ [2]) alreadysent path cfg) st := by
  unfold searchRule
  rw [if_pos hscheme, if_neg (by rw [hzero]; decide), hdirs]

theorem searchRule_unlisted {m : Moment} {path : Str} {cfg : Rule} {st : Scan}
    (hscheme : cfg.daydirscheme.truthy = true) (hzero : cfg.zeroday.truthy = false)
    (hdirs : (w.fs (m ++ [1])).dir path = none) :
    searchRule w m alreadysent path cfg st = .error .call := by
  unfold searchRule
  rw [if_pos hscheme, if_neg (by rw [hzero]; decide), hdirs]

/-- A rule adds what the directories list that it selects.  The cases are the three ways of
selecting them. -/
theorem searchRule_adds (hA : Accounts w alreadysent A) {m : Moment} {path : Str}
    {cfg : Rule} {st st' : Scan} (h : searchRule w m alreadysent path cfg st = .ok st') :
    Adds (fun r cfg' => cfg' = cfg ∧
      ∃ m' dir, Selects w m path cfg m' dir ∧ Lists w A m' dir cfg r) st st' := by
  cases hscheme : cfg.daydirscheme.truthy with
  | false =>
      rw [searchRule_plain hscheme] at h
      refine (search_adds hA h).congr fun r cfg' => and_congr_right fun _ => ?_
      simp only [selects_plain hscheme]
      constructor
      · intro hlists
        exact ⟨_, _, ⟨rfl, rfl⟩, hlists⟩
      · rintro ⟨m', dir, ⟨rfl, rfl⟩, hlists⟩
        exact hlists
  | true =>
      cases hzero : cfg.zeroday.truthy with
      | true =>
          rw [searchRule_zeroday hscheme hzero] at h
          by_cases hmode :
              w.mode (m ++ [1]) (join path (w.fs (m ++ [1])).today) = some .directory
          · rw [if_pos hmode] at h
            refine (search_adds hA h).congr fun r cfg' => and_congr_right fun _ => ?_
            simp only [selects_zeroday hscheme hzero]
            constructor
            · intro hlists
              exact ⟨_, _, ⟨hmode, rfl, rfl⟩, hlists⟩
            · rintro ⟨m', dir, ⟨-, rfl, rfl⟩, hlists⟩
              exact hlists
          · rw [if_neg hmode] at h
            obtain rfl := Scan.log_ok h
            refine Adds.none ?_ rfl
            rintro r cfg' ⟨-, m', dir, hsel, -⟩
            exact hmode ((selects_zeroday hscheme hzero).mp hsel).1
      | false =>
          cases hdirs : (w.fs (m ++ [1])).dir path with
          | none =>
              rw [searchRule_unlisted hscheme hzero hdirs] at h
              cases h
          | some dirs =>
              rw [searchRule_daydir hscheme hzero hdirs] at h
              have hentries := Adds.foldlM
                (fun entry st st' h => daydirEntry_adds hA entry.1 entry.2 h) _ _ _ h
              refine hentries.congr fun r cfg' => ?_
              simp only [selects_daydir hscheme hzero hdirs]
              constructor
              · rintro ⟨entry, hmem, hcfg, hdots, haccept, hlists⟩
                exact ⟨hcfg, _, _, ⟨entry, hmem, hdots, haccept, rfl, rfl⟩, hlists⟩
              · rintro ⟨hcfg, m', dir, ⟨entry, hmem, hdots, haccept, rfl, rfl⟩, hlists⟩
                exact ⟨entry, hmem, hcfg, hdots, haccept, hlists⟩

/-- The rule is one the scan follows: switched on, with a directory for its
path and tables for its two lists. -/
structure Runs (w : World) (m : Moment) (cfg : Rule) : Prop where
  active : cfg.active.truthy = true
  mode : w.mode m (cfg.path.tostring w.address) = some .directory
  blacklist : cfg.blacklist.isTable = true
  whitelist : cfg.whitelist.isTable = true

/-- What the rule at position `i` offers: it is switched on, its path selects a directory,
and the loop over that directory comes upon the name and lets it pass. -/
def Offers (w : World) (A : Moment → Str → Rule → Str → Prop) (i : Nat) (cfg : Rule)
    (r : Str) : Prop :=
  Runs w [i, 0] cfg ∧
    ∃ m dir, Selects w [i] (cfg.path.tostring w.address) cfg m dir ∧ Lists w A m dir cfg r

/-- A rule adds what it offers: one that is switched off, or whose path is no directory,
adds nothing. -/
theorem updateRule_adds (hA : Accounts w alreadysent A) {st st' : Scan} (cfg : Rule) (i : Nat)
    (h : updateRule w alreadysent st (cfg, i) = .ok st') :
    Adds (fun r cfg' => cfg' = cfg ∧ Offers w A i cfg r) st st' := by
  simp only [updateRule] at h
  by_cases hactive : cfg.active.truthy = true
  · simp only [hactive, if_true] at h
    by_cases hmode : w.mode [i, 0] (cfg.path.tostring w.address) = some .directory
    · simp only [hmode, ne_eq, not_true_eq_false, if_false] at h
      by_cases htables : (!cfg.blacklist.isTable || !cfg.whitelist.isTable) = true
      · simp only [htables, if_true] at h
        obtain rfl := Scan.log_ok h
        refine Adds.none ?_ rfl
        rintro r cfg' ⟨-, hruns, -⟩
        simp [hruns.blacklist, hruns.whitelist] at htables
      · simp only [htables, if_false, Bool.false_eq_true, bind_eq_ok] at h
        obtain ⟨st₁, hlog, h⟩ := h
        obtain rfl := Scan.log_ok hlog
        have hadds := searchRule_adds hA h
        -- the log line before the search leaves the map alone
        have hstart : Adds _ st st' := hadds.of_found rfl
        refine hstart.congr fun r cfg' => ?_
        have hboth : cfg.blacklist.isTable = true ∧ cfg.whitelist.isTable = true := by
          simpa using htables
        constructor
        · rintro ⟨rfl, hsel⟩
          exact ⟨rfl, ⟨hactive, hmode, hboth.1, hboth.2⟩, hsel⟩
        · rintro ⟨rfl, -, hsel⟩
          exact ⟨rfl, hsel⟩
    · simp only [hmode, ne_eq, not_false_eq_true, if_true] at h
      obtain rfl := Scan.log_ok h
      refine Adds.none ?_ rfl
      rintro r cfg' ⟨-, hruns, -⟩
      exact hmode hruns.mode
  · simp only [hactive, Bool.false_eq_true, if_false, Except.ok.injEq] at h
    subst h
    refine Adds.none ?_ rfl
    rintro r cfg' ⟨-, hruns, -⟩
    exact hactive hruns.active

/-- **The map of a scan.**  Its keys are the releases some rule offers, and
each is mapped to a rule that offers it. -/
theorem scanRules_found (hA : Accounts w alreadysent A) {rules : List Rule} {st st' : Scan}
    (hempty : st.found = ∅) (h : scanRules w alreadysent rules st = .ok st') :
    (∀ r, r ∈ st'.found ↔ ∃ cfg i, (cfg, i) ∈ rules.zipIdx ∧ Offers w A i cfg r) ∧
      ∀ r cfg, st'.found.lookup r = some cfg →
        ∃ i, (cfg, i) ∈ rules.zipIdx ∧ Offers w A i cfg r := by
  have hadds := Adds.foldlM (fun entry st st' h => updateRule_adds hA
    entry.1 entry.2 h) _ _ _ h
  constructor
  · intro r
    rw [hadds.keys, hempty]
    constructor
    · rintro (hold | ⟨cfg, entry, hmem, rfl, hoffers⟩)
      · exact absurd hold (AList.notMem_empty r)
      · exact ⟨entry.1, entry.2, hmem, hoffers⟩
    · rintro ⟨cfg, i, hmem, hoffers⟩
      exact Or.inr ⟨cfg, (cfg, i), hmem, rfl, hoffers⟩
  · intro r cfg hlookup
    rcases hadds.values r cfg hlookup with hold | ⟨entry, hmem, rfl, hoffers⟩
    · rw [hempty, AList.lookup_empty] at hold
      cases hold
    · exact ⟨entry.2, hmem, hoffers⟩

/-- A scan begins with an empty map, whatever comes of the rules. -/
theorem loadRules_found {file : RulesFile} {rules rules' : Option (List Rule)} {st : Scan}
    (h : loadRules w file rules = .ok (rules', st)) : st.found = ∅ := by
  cases file with
  | broken err =>
      simp only [loadRules, bind_eq_ok, pure_eq_ok, Prod.mk.injEq] at h
      obtain ⟨st₁, hlog, -, rfl⟩ := h
      rw [Scan.log_ok hlog]
      rfl
  | raises => cases h
  | leaves left =>
      simp only [loadRules, Except.ok.injEq, Prod.mk.injEq] at h
      rw [← h.2]

/-- What a call of `announce.update` that returns has done: it has scanned the
rules it leaves in the global. -/
theorem update_scans {file : RulesFile} {rules : Option (List Rule)} {u : Update}
    (h : update w file rules alreadysent = .ok u) :
    ∃ list st st', u.rules = some list ∧ st.found = ∅ ∧
      scanRules w alreadysent list st = .ok st' ∧ u.scan.found = st'.found := by
  unfold update at h
  obtain ⟨⟨rules', st⟩, hfile, h⟩ := bind_eq_ok.mp h
  have hempty := loadRules_found hfile
  obtain ⟨st₁, hlog, h⟩ := bind_eq_ok.mp h
  obtain rfl := Scan.log_ok hlog
  cases rules' with
  | none => simp at h
  | some list =>
      simp only [bind_eq_ok, pure_eq_ok] at h
      obtain ⟨st', hscan, st₂, hlast, rfl⟩ := h
      obtain rfl := Scan.log_ok hlast
      exact ⟨list, st.logged _, st', rfl, hempty, hscan, rfl⟩

end

/-! ## The chain of filters -/

/-- A release passes where every filter has answered that it does. -/
theorem firstBlock_none {filters : List Filter} (h : firstBlock filters = .ok none) :
    ∀ filter ∈ filters, filter.blocks = .ok false := by
  induction filters with
  | nil => simp
  | cons filter rest ih =>
      rw [firstBlock, bind_eq_ok] at h
      obtain ⟨b, hb, h⟩ := h
      cases b with
      | true =>
          simp only [if_true, bind_eq_ok, pure_eq_ok] at h
          obtain ⟨reason, -, hnone⟩ := h
          cases hnone
      | false =>
          simp only [Bool.false_eq_true, if_false] at h
          exact List.forall_mem_cons.mpr ⟨hb, ih h⟩

/-- A release is blocked where some filter has answered that it is. -/
theorem firstBlock_some {filters : List Filter} {reason : Str}
    (h : firstBlock filters = .ok (some reason)) :
    ∃ filter ∈ filters, filter.blocks = .ok true := by
  induction filters with
  | nil => cases h
  | cons filter rest ih =>
      rw [firstBlock, bind_eq_ok] at h
      obtain ⟨b, hb, h⟩ := h
      cases b with
      | true => exact ⟨filter, List.mem_cons_self, hb⟩
      | false =>
          simp only [Bool.false_eq_true, if_false] at h
          obtain ⟨filter', hmem, hblocks⟩ := ih h
          exact ⟨filter', List.mem_cons_of_mem _ hmem, hblocks⟩

/-- An entry that is neither a dot entry nor sent already goes through the
chain; what the chain makes of it is all the body adds. -/
theorem searchEntry_adds {w : World} {alreadysent : Str → Bool} {m : Moment} {path : Str}
    {cfg : Rule} {st st' : Scan} {release : Str} {j : Nat} {B : Prop}
    (h : searchEntry w m alreadysent path cfg st (release, j) = .ok st')
    (hB : ∀ attributes excess o,
      (w.fs (m ++ [1, j] ++ [0])).attributes (join path release) = some attributes →
      notDots release = true → alreadysent release = false →
      excessOf w (m ++ [1, j] ++ [1]) cfg (join path release) attributes.mode = .ok excess →
      firstBlock (filters w (m ++ [1, j]) cfg (join path release) release excess) = .ok o →
      ((o = none ∧ wants cfg attributes.mode = true) ↔ B)) :
    Adds (fun r cfg' => r = release ∧ cfg' = cfg ∧
      notDots release = true ∧ alreadysent release = false ∧ B) st st' := by
  simp only [searchEntry] at h
  cases hattr : (w.fs (m ++ [1, j] ++ [0])).attributes (join path release) with
  | none =>
      rw [hattr] at h
      cases h
  | some attributes =>
      simp only [hattr, blocked, List.contains_nil, Bool.not_false, Bool.and_true] at h
      by_cases hgo : (notDots release && !alreadysent release) = true
      · simp only [hgo, if_true, bind_eq_ok] at h
        obtain ⟨excess, hexcess, o, hfirst, h⟩ := h
        simp only [Bool.and_eq_true, Bool.not_eq_true'] at hgo
        have hiff := hB attributes excess o hattr hgo.1 hgo.2 hexcess hfirst
        cases o with
        | some reason =>
            obtain rfl := Scan.log_ok h
            refine Adds.none ?_ rfl
            rintro r cfg' ⟨-, -, -, -, hb⟩
            exact absurd (hiff.mpr hb).1 (by simp)
        | none =>
            simp only at h
            by_cases hwants : wants cfg attributes.mode = true
            · simp only [hwants, if_true, pure_eq_ok] at h
              subst h
              refine Adds.insert ⟨rfl, rfl, hgo.1, hgo.2, hiff.mp ⟨rfl, hwants⟩⟩ ?_ rfl
              rintro r cfg' ⟨rfl, -⟩
              rfl
            · simp only [hwants, Bool.false_eq_true, if_false, pure_eq_ok] at h
              subst h
              refine Adds.none ?_ rfl
              rintro r cfg' ⟨-, -, -, -, hb⟩
              exact hwants (hiff.mpr hb).2
      · simp only [hgo, Bool.false_eq_true, if_false, pure_eq_ok] at h
        subst h
        refine Adds.none ?_ rfl
        rintro r cfg' ⟨-, -, hdots, hsent, -⟩
        simp [hdots, hsent] at hgo

/-- The chain lets the entry pass, and the rule takes entries of its kind.  It
is not asked whether the entry was sent before. -/
def Passes (w : World) (m : Moment) (path : Str) (cfg : Rule) (r : Str) : Prop :=
  notDots r = true ∧ ∃ attributes excess,
    (w.fs (m ++ [0])).attributes (join path r) = some attributes ∧
    excessOf w (m ++ [1]) cfg (join path r) attributes.mode = .ok excess ∧
    firstBlock (filters w m cfg (join path r) r excess) = .ok none ∧
    wants cfg attributes.mode = true

/-- Every entry of a directory accounts for itself: a name is added if it is new and passes,
and only then. -/
theorem passes_accounts (w : World) (alreadysent : Str → Bool) :
    Accounts w alreadysent fun m path cfg r =>
      alreadysent r = false ∧ Passes w m path cfg r := by
  intro m path cfg st release j st' h
  refine (searchEntry_adds (B := ∃ attributes excess,
    (w.fs (m ++ [1, j] ++ [0])).attributes (join path release) = some attributes ∧
    excessOf w (m ++ [1, j] ++ [1]) cfg (join path release) attributes.mode = .ok excess ∧
    firstBlock (filters w (m ++ [1, j]) cfg (join path release) release excess) = .ok none ∧
    wants cfg attributes.mode = true) h ?_).congr ?_
  · intro attributes excess o hattr _ _ hexcess hfirst
    constructor
    · rintro ⟨rfl, hwants⟩
      exact ⟨attributes, excess, hattr, hexcess, hfirst, hwants⟩
    · rintro ⟨attributes', excess', hattr', hexcess', hfirst', hwants⟩
      rw [hattr, Option.some.injEq] at hattr'
      subst hattr'
      rw [hexcess, Except.ok.injEq] at hexcess'
      subst hexcess'
      rw [hfirst, Except.ok.injEq] at hfirst'
      exact ⟨hfirst', hwants⟩
  · intro r cfg'
    constructor
    · rintro ⟨rfl, rfl, hdots, hsent, hb⟩
      exact ⟨rfl, rfl, hsent, hdots, hb⟩
    · rintro ⟨rfl, rfl, hsent, hdots, hb⟩
      exact ⟨rfl, rfl, hdots, hsent, hb⟩

/-- A release that would be offered were nothing sent before. -/
def OffersFresh (w : World) (rules : List Rule) (r : Str) : Prop :=
  ∃ cfg i, (cfg, i) ∈ rules.zipIdx ∧ Offers w (Passes w) i cfg r

/-- **The dedupe test of a scan.**  What is found is what passes and has not
been sent. -/
theorem update_found_iff {w : World} {file : RulesFile} {rules : Option (List Rule)}
    {alreadysent : Str → Bool} {u : Update} (h : update w file rules alreadysent = .ok u) :
    ∃ list, u.rules = some list ∧
      ∀ r, r ∈ u.scan.found ↔ alreadysent r = false ∧ OffersFresh w list r := by
  obtain ⟨list, st, st', hrules, hempty, hscan, hfound⟩ := update_scans h
  obtain ⟨hkeys, -⟩ := scanRules_found (passes_accounts w alreadysent) hempty hscan
  refine ⟨list, hrules, fun r => ?_⟩
  rw [hfound, hkeys]
  constructor
  · rintro ⟨cfg, i, hmem, hruns, m, dir, hsel, entries, j, hdir, hr, hsent, hpass⟩
    exact ⟨hsent, cfg, i, hmem, hruns, m, dir, hsel, entries, j, hdir, hr, hpass⟩
  · rintro ⟨hsent, cfg, i, hmem, hruns, m, dir, hsel, entries, j, hdir, hr, hpass⟩
    exact ⟨cfg, i, hmem, hruns, m, dir, hsel, entries, j, hdir, hr, hsent, hpass⟩

end LuadchAnnouncer.Core.AnnounceScan
