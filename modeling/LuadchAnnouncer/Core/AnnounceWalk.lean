import Mathlib.Tactic.Linarith
import LuadchAnnouncer.Verified.Walks
import LuadchAnnouncer.Core.AnnounceExtensions
import LuadchAnnouncer.Core.AnnounceSafe

/-!
# What `count_files_by_ext` counts

The walk behind the extension caps goes down directories that may be links to one
another, so what it counts is walks and not files.  On a `Volume`, a file system that
keeps its names as systems do, the count for an extension is the number of walks of the
directory graph that the depth gate lets through, and on a tree within the limit it is
the number of files.

A name that ends in a dot has nothing behind its last dot, and is not counted under
the empty extension either.

## Main results

* `countFilesByExt_spec` — the count is the number of walks to a file with the
  extension.
* `isWalk_iff` — the walks of the code are the walks of the directory graph.
* `walksTo_mono`, `finite_walksTo` — a higher limit lets through no fewer, and they are
  finitely many.
* `countFilesByExt_exact` — all of this about the counter and the limits.
-/

namespace LuadchAnnouncer.Core.AnnounceWalk

open LuadchAnnouncer.Verified.Bytes
open LuadchAnnouncer.Verified.LuaValue
open LuadchAnnouncer.Verified.Walks
open LuadchAnnouncer.Verified.Raising
open LuadchAnnouncer.Core.Announce
open LuadchAnnouncer.Core.AnnounceFilter
open LuadchAnnouncer.Core.AnnounceSafe (Comparable firstExcess_returns_iff)
open LuadchAnnouncer.Core.AnnounceExtensions (dot suffix captures_suffix suffix_eq_some_iff)

/-! ## The directory graph -/

def slash : UInt8 := 47

/-- A file system as systems keep them: the names in a directory are distinct and have no
slash in them, and a directory with too long a path cannot be listed. -/
structure Volume where
  fs : Fs
  pathMax : Nat
  nodup : ∀ p files, fs.dir p = some files → files.Nodup
  noSlash : ∀ p files, fs.dir p = some files → ∀ name ∈ files, slash ∉ name
  short : ∀ p files, fs.dir p = some files → p.length ≤ pathMax

/-- What an entry is, other than the directory itself and the one above it. -/
def kind (fs : Fs) (p name : Str) : Option Mode :=
  if notDots name then (fs.attributes (join p name)).map Attributes.mode else none

/-- Paths, and the entries that are listed there.  A directory that cannot be listed has
none. -/
def graph (fs : Fs) (recursive : Bool) : LeafGraph Str Str where
  edges p := (fs.dir p).getD []
  next p name :=
    if recursive && kind fs p name == some .directory then some (join p name) else none
  leaf p name := kind fs p name == some .file

/-- The walk ends where these walks of the graph do. -/
theorem filesBelow_eq (fs : Fs) (recursive : Bool) (n : Nat) (p : Str) :
    filesBelow fs recursive n p = ((graph fs recursive).walks n p).map Prod.snd := by
  induction n generalizing p with
  | zero => rfl
  | succ n ih =>
      rw [LeafGraph.walks_succ, List.map_flatMap]
      unfold filesBelow
      show _ = ((fs.dir p).getD []).flatMap _
      cases fs.dir p with
      | none => rfl
      | some files =>
          apply List.flatMap_congr
          intro file _
          have hleaf : (graph fs recursive).leaf p file = (kind fs p file == some .file) := rfl
          have hnext : (graph fs recursive).next p file =
              if recursive && kind fs p file == some .directory then some (join p file)
              else none := rfl
          rw [hleaf, hnext]
          unfold kind
          cases notDots file with
          | false => cases recursive <;> rfl
          | true =>
              rw [if_pos rfl, if_pos rfl]
              cases (fs.attributes (join p file)).map Attributes.mode with
              | none => cases recursive <;> rfl
              | some mode =>
                  cases mode with
                  | file => cases recursive <;> rfl
                  | other => cases recursive <;> rfl
                  | directory =>
                      cases recursive with
                      | false => rfl
                      | true =>
                          show filesBelow fs true n (join p file) = List.map Prod.snd
                            (((graph fs true).walks n (join p file)).map
                              fun w => (file :: w.1, w.2))
                          rw [ih, List.map_map]
                          rfl

/-- An optional field as a value. -/
def optional {α : Type} (inject : α → LuaVal) : Option α → LuaVal
  | none => .nil
  | some a => inject a

/-- `depth > max_depth` does not hold at this depth.  The limit may be any number, and
where there is none it is eight. -/
def Within (maxDepth : Option LuaNum) (depth : Nat) : Prop :=
  (maxDepth.getD (.int 8)).lt (.int depth) = false

theorem within_int_iff (i : Int) (k : Nat) : Within (some (.int i)) k ↔ (k : Int) ≤ i := by
  show (!decide ((k : Int) ≤ i)) = false ↔ _
  rw [Bool.not_eq_false', decide_eq_true_iff]

theorem within_flt_iff (q : Rat) (k : Nat) : Within (some (.flt q)) k ↔ (k : Int) ≤ q.floor := by
  show (!decide (((k : Int) : Rat) ≤ q)) = false ↔ _
  rw [Bool.not_eq_false', decide_eq_true_iff]
  exact Rat.le_floor_iff.symm

theorem within_of_bound {maxDepth : Option LuaNum} {i : Int}
    (h : ∀ k : Nat, Within maxDepth k ↔ (k : Int) ≤ i) (k : Nat) :
    Within maxDepth k ↔ k < (i + 1).toNat := by
  rw [h k]
  omega

/-- The levels that the gate lets through, down to the depth of the longest path. -/
theorem levels_within (pathMax : Nat) (maxDepth : Option LuaNum) :
    ∃ n, levels pathMax (optional .num maxDepth) = .ok n ∧
      (∀ k, k < n → Within maxDepth k) ∧ ∀ k ≤ pathMax, Within maxDepth k → k < n := by
  have hbound : ∀ n, levels pathMax (optional .num maxDepth) = .ok n →
      (∀ k, Within maxDepth k ↔ k < n) → ∃ n, levels pathMax (optional .num maxDepth) = .ok n ∧
        (∀ k, k < n → Within maxDepth k) ∧ ∀ k ≤ pathMax, Within maxDepth k → k < n :=
    fun n hlevels h => ⟨n, hlevels, fun k => (h k).mpr, fun k _ => (h k).mp⟩
  cases maxDepth with
  | none => exact hbound 9 rfl (within_of_bound (within_int_iff 8))
  | some d =>
      cases d with
      | int i => exact hbound _ rfl (within_of_bound (within_int_iff i))
      | flt q => exact hbound _ rfl (within_of_bound (within_flt_iff q))
      | inf negative =>
          cases negative with
          | true =>
              apply hbound 0 rfl
              intro k
              exact iff_of_false (fun h => Bool.noConfusion h) (Nat.not_lt_zero k)
          | false => exact ⟨pathMax + 1, rfl, fun _ _ => rfl, fun k hle _ => Nat.lt_succ_of_le hle⟩
      | nan => exact ⟨pathMax + 1, rfl, fun _ _ => rfl, fun k hle _ => Nat.lt_succ_of_le hle⟩

/-- Comparing a number with an integer goes on to a greater number, floats and infinities
included. -/
theorem le_trans_int {k : Int} {a b : LuaNum} (h : (LuaNum.int k).le a = true)
    (hle : a.le b = true) : (LuaNum.int k).le b = true := by
  cases a with
  | nan => cases h
  | inf negative =>
      cases negative with
      | true => cases h
      | false =>
          cases b with
          | inf negative => cases negative <;> first | rfl | cases hle
          | nan => cases hle
          | int j => cases hle
          | flt r => cases hle
  | int i =>
      have hk : k ≤ i := of_decide_eq_true h
      cases b with
      | nan => cases hle
      | inf negative => cases negative <;> first | rfl | cases hle
      | int j =>
          have hi : i ≤ j := of_decide_eq_true hle
          exact decide_eq_true (hk.trans hi)
      | flt r =>
          have hi : (i : Rat) ≤ r := of_decide_eq_true hle
          exact decide_eq_true ((Int.cast_le.mpr hk).trans hi)
  | flt q =>
      have hk : (k : Rat) ≤ q := of_decide_eq_true h
      cases b with
      | nan => cases hle
      | inf negative => cases negative <;> first | rfl | cases hle
      | int j =>
          have hi : q ≤ (j : Rat) := of_decide_eq_true hle
          exact decide_eq_true (Int.cast_le.mp (hk.trans hi))
      | flt r =>
          have hi : q ≤ r := of_decide_eq_true hle
          exact decide_eq_true (hk.trans hi)

/-- A higher limit lets more through. -/
theorem Within.mono {d d' : Option LuaNum} {k : Nat}
    (hle : (d.getD (.int 8)).le (d'.getD (.int 8)) = true) (h : Within d k) : Within d' k := by
  have hlt : ∀ a : LuaNum, a ≠ .nan → a.lt (.int k) = !(LuaNum.int k).le a := by
    intro a ha
    cases a with
    | nan => exact absurd rfl ha
    | int i => rfl
    | flt q => rfl
    | inf negative => rfl
  unfold Within at h ⊢
  generalize d.getD (.int 8) = a at hle h
  generalize d'.getD (.int 8) = b at hle ⊢
  have ha : a ≠ .nan := by
    rintro rfl
    cases hle
  have hb : b ≠ .nan := by
    rintro rfl
    cases a <;> cases hle
  rw [hlt a ha, Bool.not_eq_false'] at h
  rw [hlt b hb, Bool.not_eq_false']
  exact le_trans_int h hle

/-! ## What is counted -/

/-- The file has this behind its last dot, in lower case.  Where nothing stands behind the
dot the extension is the empty text, which the code's pattern does not match. -/
def HasExtension (e file : Str) : Prop :=
  ∃ stem x, file = stem ++ dot :: x ∧ dot ∉ x ∧ lower x = e

/-- A file is counted under the extension behind its last dot, in lower case. -/
theorem countedAs_iff_hasExtension {e file : Str} (hne : e ≠ []) :
    countedAs file = some e ↔ HasExtension e file := by
  unfold countedAs HasExtension
  rw [(captures_suffix file).capture_eq, Option.map_eq_some_iff]
  constructor
  · intro h
    obtain ⟨x, hx, hlower⟩ := h
    obtain ⟨-, hdot, stem, hstem⟩ := suffix_eq_some_iff.mp hx
    exact ⟨stem, x, hstem.symm, hdot, hlower⟩
  · intro h
    obtain ⟨stem, x, hfile, hdot, hlower⟩ := h
    refine ⟨x, suffix_eq_some_iff.mpr ⟨?_, hdot, stem, hfile.symm⟩, hlower⟩
    rintro rfl
    exact hne hlower.symm

theorem countedAs_ne_nil (file : Str) : countedAs file ≠ some [] := by
  unfold countedAs
  rw [(captures_suffix file).capture_eq]
  intro h
  obtain ⟨x, hx, hlower⟩ := Option.map_eq_some_iff.mp h
  exact (suffix_eq_some_iff.mp hx).1 (List.map_eq_nil_iff.mp hlower)

namespace Volume

variable (v : Volume)

theorem edges_nodup (recursive : Bool) (p : Str) : ((graph v.fs recursive).edges p).Nodup := by
  show ((v.fs.dir p).getD []).Nodup
  cases hdir : v.fs.dir p with
  | none => exact List.nodup_nil
  | some files => exact v.nodup p files hdir

/-- The walk goes on into a directory, if it is recursive, and into nothing else. -/
theorem next_eq_some_iff {fs : Fs} {recursive : Bool} {p name p' : Str} :
    (graph fs recursive).next p name = some p' ↔
      recursive = true ∧ kind fs p name = some .directory ∧ p' = join p name := by
  show (if recursive && kind fs p name == some .directory then some (join p name) else none) =
    some p' ↔ _
  rw [Option.ite_none_right_eq_some, Bool.and_eq_true, beq_iff_eq, Option.some.injEq, and_assoc]
  exact and_congr_right fun _ => and_congr_right fun _ => eq_comm

theorem length_join (p name : Str) : (join p name).length = p.length + 1 + name.length := by
  unfold join
  rw [List.length_append, List.length_append]
  rfl

/-- What can be listed is within the longest path. -/
theorem walk_length_le {p : Str} {w : List Str × Str} (h : (graph v.fs true).IsWalk p w) :
    w.1.length ≤ v.pathMax := by
  apply LeafGraph.IsWalk.length_le List.length ?_ ?_ h
  · intro p name p' hnext
    rw [(next_eq_some_iff.mp hnext).2.2, length_join]
    omega
  · intro p hp
    cases hdir : v.fs.dir p with
    | none =>
        have hnone : (graph v.fs true).edges p = [] := by
          show (v.fs.dir p).getD [] = []
          rw [hdir]
          rfl
        exact absurd hnone hp
    | some files => exact v.short p files hdir

/-- Without the flag only the files of the directory itself are left. -/
theorem isWalk_iff {fs : Fs} {recursive : Bool} {p : Str} {w : List Str × Str} :
    (graph fs recursive).IsWalk p w ↔
      (graph fs true).IsWalk p w ∧ (recursive = false → w.1 = []) := by
  cases recursive with
  | true => simp
  | false =>
      obtain ⟨names, file⟩ := w
      cases names with
      | nil =>
          rw [LeafGraph.isWalk_nil, LeafGraph.isWalk_nil]
          simp [graph]
      | cons name names =>
          rw [LeafGraph.isWalk_cons]
          apply iff_of_false
          · intro h
            obtain ⟨-, p', hnext, -⟩ := h
            cases (next_eq_some_iff.mp hnext).1
          · intro h
            cases h.2 rfl

/-- The walks from the path through at most so many subdirectories to a regular file with
the extension. -/
def walksTo (p : Str) (recursive : Bool) (maxDepth : Option LuaNum) (e : Str) :
    Set (List Str × Str) :=
  {w | (graph v.fs true).IsWalk p w ∧ Within maxDepth w.1.length ∧
    (recursive = false → w.1 = []) ∧ HasExtension e w.2}

variable (address : LuaVal → Str)

/-- The file system as the surroundings of a scan. -/
def world : World := World.still v.fs address v.pathMax

/-- The count of an extension is the number of walks to a file with it, within the depth;
files without an extension are not counted at all. -/
theorem countFilesByExt_spec (m : Moment) (p : Str) (recursive : Bool)
    (maxDepth : Option LuaNum) :
    ∃ counts,
      countFilesByExt (v.world address) m p recursive (optional .num maxDepth) = .ok counts ∧
      ∀ e, (e ≠ [] → counts e = (v.walksTo p recursive maxDepth e).ncard) ∧
        (e = [] → counts e = 0) := by
  obtain ⟨n, hlevels, hin, hout⟩ := levels_within v.pathMax maxDepth
  refine ⟨walk (v.world address) recursive n m p fun _ => 0, ?_, ?_⟩
  · unfold countFilesByExt
    rw [show (v.world address).pathMax = v.pathMax from rfl, hlevels]
    rfl
  · intro e
    have hcount : walk (v.world address) recursive n m p (fun _ => 0) e =
        (((graph v.fs recursive).walks n p).filter fun w => countedAs w.2 == some e).length := by
      unfold world
      rw [walk_count, filesBelow_eq, Nat.zero_add]
      show ((_ : List Str).countP _) = _
      rw [List.countP_map, List.countP_eq_length_filter]
      rfl
    rw [hcount]
    constructor
    · intro hne
      rw [LeafGraph.length_filter_walks (v.edges_nodup recursive)]
      congr 1
      ext w
      unfold walksTo
      rw [Set.mem_ofPred_eq, Set.mem_ofPred_eq, isWalk_iff, beq_iff_eq,
        countedAs_iff_hasExtension hne]
      constructor
      · intro h
        exact ⟨h.1.1, hin _ h.2.1, h.1.2, h.2.2⟩
      · intro h
        exact ⟨⟨h.1, h.2.2.1⟩, hout _ (v.walk_length_le h.1) h.2.1, h.2.2.2⟩
    · rintro rfl
      rw [List.length_eq_zero_iff, List.filter_eq_nil_iff]
      intro w _
      rw [beq_iff_eq]
      exact countedAs_ne_nil w.2

/-! ## Trees -/

/-- Every directory below can be listed, and the gate lets all of them through. -/
def IsTree (p : Str) (maxDepth : Option LuaNum) : Prop :=
  ∀ names q, (graph v.fs true).Leads p names q →
    Within maxDepth names.length ∧ (v.fs.dir q).isSome = true

/-- The regular files below the path with the extension, by their paths. -/
def filesUnder (p e : Str) : Set Str :=
  {f | ∃ names q name, (graph v.fs true).Leads p names q ∧ name ∈ (graph v.fs true).edges q ∧
    kind v.fs q name = some .file ∧ HasExtension e name ∧ f = join q name}

/-- The path a walk leads to. -/
def pathOf (p : Str) (w : List Str × Str) : Str := join (w.1.foldl join p) w.2

/-- The path of a walk is the directory with the names behind it, each after a slash. -/
theorem pathOf_eq (p : Str) (w : List Str × Str) :
    pathOf p w = p ++ (w.1 ++ [w.2]).flatMap fun name => slash :: name := by
  have hjoin : ∀ p name : Str, join p name = p ++ slash :: name := by
    intro p name
    unfold join
    rw [List.append_assoc]
    rfl
  have hfold : ∀ (names : List Str) (p : Str),
      names.foldl join p = p ++ names.flatMap fun name => slash :: name := by
    intro names
    induction names with
    | nil =>
        intro p
        exact (List.append_nil p).symm
    | cons name names ih =>
        intro p
        rw [List.foldl_cons, ih, hjoin, List.flatMap_cons, List.append_assoc]
  unfold pathOf
  rw [hjoin, hfold, List.append_assoc, List.flatMap_append]
  simp

/-- The first name of such a path is what stands in front of the first slash. -/
theorem takeWhile_slash {name : Str} (h : slash ∉ name) (names : List Str) :
    (name ++ names.flatMap fun name => slash :: name).takeWhile (· != slash) = name := by
  have hall : ∀ c ∈ name, (c != slash) = true := by
    intro c hc
    rw [bne_iff_ne]
    exact fun heq => h (heq ▸ hc)
  rw [List.takeWhile_append_of_pos hall]
  cases names with
  | nil => exact List.append_nil name
  | cons next names =>
      rw [List.flatMap_cons, List.cons_append, List.takeWhile_cons_of_neg (by simp)]
      exact List.append_nil name

/-- Names without a slash can be told from the path they make. -/
theorem flatMap_slash_inj {xs ys : List Str} (hxs : ∀ x ∈ xs, slash ∉ x)
    (hys : ∀ y ∈ ys, slash ∉ y)
    (h : (xs.flatMap fun name => slash :: name) = ys.flatMap fun name => slash :: name) :
    xs = ys := by
  induction xs generalizing ys with
  | nil =>
      cases ys with
      | nil => rfl
      | cons y ys => cases h
  | cons x xs ih =>
      cases ys with
      | nil => cases h
      | cons y ys =>
          rw [List.forall_mem_cons] at hxs hys
          rw [List.flatMap_cons, List.flatMap_cons, List.cons_append, List.cons_append] at h
          have htail := (List.cons.inj h).2
          have hname := congrArg (List.takeWhile (· != slash)) htail
          rw [takeWhile_slash hxs.1, takeWhile_slash hys.1] at hname
          subst hname
          rw [ih hxs.2 hys.2 (List.append_cancel_left htail)]

/-- No name on a walk has a slash in it, because the names come out of listings. -/
theorem slash_notMem_of_isWalk {p : Str} {w : List Str × Str}
    (h : (graph v.fs true).IsWalk p w) : ∀ name ∈ w.1 ++ [w.2], slash ∉ name := by
  have hedge : ∀ {q name : Str}, name ∈ (graph v.fs true).edges q → slash ∉ name := by
    intro q name hname
    change name ∈ (v.fs.dir q).getD [] at hname
    cases hdir : v.fs.dir q with
    | none =>
        rw [hdir] at hname
        exact absurd hname List.not_mem_nil
    | some files =>
        rw [hdir] at hname
        exact v.noSlash q files hdir name hname
  have hleads : ∀ (names : List Str) (p q : Str), (graph v.fs true).Leads p names q →
      ∀ name ∈ names, slash ∉ name := by
    intro names
    induction names with
    | nil => exact fun _ _ _ name hname => absurd hname List.not_mem_nil
    | cons name names ih =>
        intro p q hq
        obtain ⟨hname, p', -, hrest⟩ := hq
        exact List.forall_mem_cons.mpr ⟨hedge hname, ih p' q hrest⟩
  obtain ⟨q, hq, hfile, -⟩ := h
  rw [List.forall_mem_append, List.forall_mem_singleton]
  exact ⟨hleads w.1 p q hq, hedge hfile⟩

/-- Where a walk leads is determined by its names. -/
theorem leads_eq {p q : Str} {names : List Str} (h : (graph v.fs true).Leads p names q) :
    q = names.foldl join p := by
  induction names generalizing p with
  | nil => exact h.symm
  | cons name names ih =>
      obtain ⟨-, p', hnext, hrest⟩ := h
      rw [(next_eq_some_iff.mp hnext).2.2] at hrest
      exact ih hrest

/-- On a tree each file is at the end of one walk. -/
theorem ncard_walksTo_of_isTree {p : Str} {maxDepth : Option LuaNum}
    (h : v.IsTree p maxDepth) (e : Str) :
    (v.walksTo p true maxDepth e).ncard = (v.filesUnder p e).ncard := by
  have himage : v.filesUnder p e = pathOf p '' v.walksTo p true maxDepth e := by
    ext f
    constructor
    · intro hf
      obtain ⟨names, q, name, hleads, hname, hkind, hext, hpath⟩ := hf
      refine ⟨(names, name), ⟨⟨q, hleads, hname, beq_iff_eq.mpr hkind⟩, (h names q hleads).1,
        fun hfalse => Bool.noConfusion hfalse, hext⟩, ?_⟩
      rw [hpath, v.leads_eq hleads]
      rfl
    · intro hf
      obtain ⟨w, ⟨⟨q, hleads, hname, hkind⟩, -, -, hext⟩, hpath⟩ := hf
      refine ⟨w.1, q, w.2, hleads, hname, beq_iff_eq.mp hkind, hext, ?_⟩
      rw [← hpath, v.leads_eq hleads]
      rfl
  rw [himage]
  apply Eq.symm
  apply Set.InjOn.ncard_image
  intro w hw w' hw' hpath
  rw [pathOf_eq, pathOf_eq] at hpath
  have hnames := flatMap_slash_inj (v.slash_notMem_of_isWalk hw.1)
    (v.slash_notMem_of_isWalk hw'.1) (List.append_cancel_left hpath)
  have hboth := List.append_inj' hnames rfl
  exact Prod.ext hboth.1 (List.cons.inj hboth.2).1

/-! ## The caps -/

theorem finite_walksTo (p : Str) (recursive : Bool) (maxDepth : Option LuaNum) (e : Str) :
    (v.walksTo p recursive maxDepth e).Finite := by
  apply (LeafGraph.finite_walks (g := graph v.fs true) (v.pathMax + 1) p).subset
  intro w hw
  exact ⟨hw.1, Nat.lt_succ_of_le (v.walk_length_le hw.1)⟩

theorem walksTo_mono {p : Str} {recursive : Bool} {d d' : Option LuaNum} {e : Str}
    (hle : (d.getD (.int 8)).le (d'.getD (.int 8)) = true) :
    v.walksTo p recursive d e ⊆ v.walksTo p recursive d' e := by
  intro w hw
  exact ⟨hw.1, hw.2.1.mono hle, hw.2.2⟩

/-- Limits as a table of numbers. -/
def limitsTable (limits : List (LuaVal × LuaNum)) : LuaVal :=
  .table (limits.map fun limit => (limit.1, .num limit.2))

/-- Limits that are numbers can be compared. -/
theorem comparable_limits (count : LuaVal → Nat) (limits : List (LuaVal × LuaNum)) :
    Comparable count (limits.map fun limit => (limit.1, .num limit.2)) := by
  induction limits with
  | nil => trivial
  | cons limit rest ih => exact ⟨⟨limit.2, rfl⟩, fun _ => ih⟩

/-- A cap is reported if and only if one is exceeded. -/
theorem firstExcess_isSome_iff {counts : Counts} {limits : List (LuaVal × LuaNum)}
    {o : Option Excess}
    (h : firstExcess counts (limits.map fun limit => (limit.1, .num limit.2)) = .ok o) :
    o.isSome = true ↔ ∃ key cap, (key, cap) ∈ limits ∧
      cap.lt (.int ((countOf counts key).getD 0)) = true := by
  rw [Option.isSome_iff_ne_none, ne_eq, firstExcess_eq_none_iff h]
  push Not
  constructor
  · rintro ⟨limit, hmem, cap, hcap, hlt⟩
    obtain ⟨entry, hentry, rfl⟩ := List.mem_map.mp hmem
    obtain rfl := LuaVal.num.inj hcap
    exact ⟨entry.1, entry.2, hentry, hlt⟩
  · rintro ⟨key, cap, hmem, hlt⟩
    exact ⟨(key, .num cap), List.mem_map.mpr ⟨(key, cap), hmem, rfl⟩, cap, rfl, hlt⟩

end Volume

/-- **The walk, exactly.**  It comes to an end on every directory graph, and for every
extension that is not empty it counts the walks within the limit that end on a file with
it: the files themselves on a tree within the limit, no fewer with a higher limit, and too
many if and only if a key of the limits has more than its cap. -/
theorem countFilesByExt_exact (v : Volume) (address : LuaVal → Str) (m : Moment) (p : Str)
    (recursive : Bool) (maxDepth : Option LuaNum) :
    ∃ counts,
      countFilesByExt (v.world address) m p recursive (optional .num maxDepth) = .ok counts ∧
      (∀ e, e ≠ [] → counts e = (v.walksTo p recursive maxDepth e).ncard) ∧ counts [] = 0 ∧
      (recursive = true → v.IsTree p maxDepth →
        ∀ e, e ≠ [] → counts e = (v.filesUnder p e).ncard) ∧
      (∀ maxDepth' counts',
        (maxDepth.getD (.int 8)).le (maxDepth'.getD (.int 8)) = true →
        countFilesByExt (v.world address) m p recursive (optional .num maxDepth') = .ok counts' →
          ∀ e, counts e ≤ counts' e) ∧
      ∀ limits, ∃ o,
        findExtensionExcess (v.world address) m p (Volume.limitsTable limits) recursive
          (optional .num maxDepth) = .ok o ∧
        (o.isSome = true ↔ ∃ key cap, (key, cap) ∈ limits ∧
          cap.lt (.int ((countOf counts key).getD 0)) = true) := by
  obtain ⟨counts, hcounts, hspec⟩ := v.countFilesByExt_spec address m p recursive maxDepth
  refine ⟨counts, hcounts, fun e => (hspec e).1, (hspec []).2 rfl, ?_, ?_, ?_⟩
  · intro hrecursive htree e hne
    subst hrecursive
    rw [(hspec e).1 hne, v.ncard_walksTo_of_isTree htree]
  · intro maxDepth' counts' hle hcounts' e
    obtain ⟨counts'', hcounts'', hspec'⟩ :=
      v.countFilesByExt_spec address m p recursive maxDepth'
    obtain rfl : counts' = counts'' := Except.ok.inj (hcounts'.symm.trans hcounts'')
    by_cases hne : e = []
    · rw [(hspec e).2 hne]
      exact Nat.zero_le _
    · rw [(hspec e).1 hne, (hspec' e).1 hne]
      exact Set.ncard_le_ncard (v.walksTo_mono hle) (v.finite_walksTo p recursive maxDepth' e)
  · intro limits
    obtain ⟨o, ho⟩ := firstExcess_returns_iff.mpr
      (Volume.comparable_limits (counted counts) limits)
    refine ⟨o, ?_, Volume.firstExcess_isSome_iff ho⟩
    unfold findExtensionExcess Volume.limitsTable
    simp only
    rw [hcounts]
    exact ho

/-- A directory with one file in it. -/
def oneFile (name : Str) (h : slash ∉ name) : Volume where
  fs := {
    attributes := fun path =>
      if path = lit "/in" then some { mode := .directory, modification := 0 }
      else some { mode := .file, modification := 0 }
    dir := fun path => if path = lit "/in" then some [name] else none
    lines := fun _ => none
    time := 0
    today := lit "0601" }
  pathMax := 4096
  nodup := by
    intro p files hdir
    simp only [Option.ite_none_right_eq_some, Option.some.injEq] at hdir
    rw [← hdir.2]
    exact List.nodup_singleton name
  noSlash := by
    intro p files hdir
    simp only [Option.ite_none_right_eq_some, Option.some.injEq] at hdir
    rw [← hdir.2]
    exact List.forall_mem_singleton.mpr h
  short := by
    intro p files hdir
    simp only [Option.ite_none_right_eq_some, Option.some.injEq] at hdir
    rw [hdir.1]
    decide

/-- `Release.` has the empty text behind its last dot. -/
theorem countFilesByExt_trailing_dot :
    ¬ ∀ (v : Volume) (address : LuaVal → Str) (m : Moment) (p : Str) (recursive : Bool)
        (maxDepth : Option LuaNum) (counts : Counts),
      countFilesByExt (v.world address) m p recursive (optional .num maxDepth) = .ok counts →
        ∀ e, counts e = (v.walksTo p recursive maxDepth e).ncard := by
  intro hall
  have hzero := hall (oneFile (lit "Release.") (by decide)) (fun _ => []) [] (lit "/in") true none
    _ rfl []
  have hmem : ([], lit "Release.") ∈
      (oneFile (lit "Release.") (by decide)).walksTo (lit "/in") true none [] := by
    refine ⟨LeafGraph.isWalk_nil.mpr ⟨?_, rfl⟩, rfl, fun _ => rfl, lit "Release", [], rfl, ?_, rfl⟩
    · exact List.mem_cons_self
    · exact List.not_mem_nil
  have hpos := (Set.ncard_pos (Volume.finite_walksTo _ _ _ _ _)).mpr ⟨_, hmem⟩
  rw [← hzero] at hpos
  exact absurd hpos (by decide)

end LuadchAnnouncer.Core.AnnounceWalk
