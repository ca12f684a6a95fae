import LuadchAnnouncer.Core.AnnounceSfv

/-!
# Two ways to take the extension of a file name

The checks for `.nfo` and `.sfv` files take whatever stands behind the last dot or
separator, as it is written, and `count_files_by_ext` what stands behind the last
dot, in lower case.  So a file called `nfo` is one to the first and has no extension
to the second, and `X.NFO` the other way round.

`detectors_iff` says for which directories they come to the same.

## Main results

* `suffix_eq_some_iff`, `countedAs_iff` — what either way of taking an extension takes.
* `agree_iff` — the directories with no name the two tell apart.
* `detectors_iff` — the detectors and the counter agree on these, and on no others.
-/

namespace LuadchAnnouncer.Core.AnnounceExtensions

open LuadchAnnouncer.Verified.Bytes
open LuadchAnnouncer.Verified.LuaValue
open LuadchAnnouncer.Verified.LuaPattern (char noneOf capture Captures matchAnchored matchHere
  captures_toEnd)
open LuadchAnnouncer.Core.Announce
open LuadchAnnouncer.Core.AnnounceFilter
open LuadchAnnouncer.Core.AnnounceSfv (Directory plain)

/-! ## Behind the last dot -/

def dot : UInt8 := 46

/-- `[^%.]` -/
def noDot : UInt8 → Bool := noneOf ['.']

theorem noDot_eq (c : UInt8) : noDot c = (c != dot) := by
  simp [noDot, noneOf, dot]

/-- The class `[^%.]` over a whole text. -/
theorem all_noDot_iff {s : Str} : s.all noDot = true ↔ dot ∉ s := by
  rw [List.all_eq_true]
  constructor
  · intro hall hmem
    have hdot := hall dot hmem
    rw [noDot_eq] at hdot
    simp at hdot
  · intro hnot c hc
    rw [noDot_eq, bne_iff_ne]
    exact fun heq => hnot (heq ▸ hc)

/-- The text behind the last dot, if there is any. -/
def suffix : Str → Option Str
  | [] => none
  | c :: s => if c = dot ∧ s ≠ [] ∧ dot ∉ s then some s else suffix s

theorem suffix_cons (c : UInt8) (s : Str) :
    suffix (c :: s) = if c = dot ∧ s ≠ [] ∧ dot ∉ s then some s else suffix s := rfl

/-- `%.([^%.]+)$` at the start of a text. -/
theorem captures_suffix_cons (c : UInt8) (s : Str) :
    Captures (matchAnchored suffixPattern (c :: s))
      (if c = dot ∧ s ≠ [] ∧ dot ∉ s then some s else none) := by
  have hdot : char '.' c = (c == dot) := rfl
  unfold matchAnchored suffixPattern
  rw [matchHere, hdot]
  by_cases hc : c = dot
  case neg =>
    have hnot : ¬ (c = dot ∧ s ≠ [] ∧ dot ∉ s) := fun h => hc h.1
    rw [if_neg hnot, if_neg (by simpa using hc)]
    exact rfl
  case pos =>
    simp only [hc, beq_self_eq_true, if_true, true_and]
    rw [matchHere]
    cases s with
    | nil => exact rfl
    | cons d s =>
        rw [matchHere]
        show Captures (if noDot d = true then _ else _) _
        have hall : dot ∉ d :: s ↔ noDot d = true ∧ s.all noDot = true := by
          rw [← all_noDot_iff, List.all_cons, Bool.and_eq_true]
        by_cases hd : noDot d = true
        case neg =>
          rw [if_neg hd, if_neg fun h => hd (hall.mp h.2).1]
          exact rfl
        case pos =>
          rw [if_pos hd]
          have hrest := captures_toEnd noDot (d :: s) s
          by_cases hs : s.all noDot = true
          case pos =>
            rw [if_pos hs] at hrest
            rw [if_pos ⟨List.cons_ne_nil d s, hall.mpr ⟨hd, hs⟩⟩]
            exact hrest
          case neg =>
            rw [if_neg hs] at hrest
            rw [if_neg fun h => hs (hall.mp h.2).2]
            exact hrest

/-- The pattern captures what stands behind the last dot. -/
theorem captures_suffix (s : Str) :
    Captures (LuadchAnnouncer.Verified.LuaPattern.match suffixPattern s) (suffix s) := by
  induction s with
  | nil => exact rfl
  | cons c s ih =>
      have hor := (captures_suffix_cons c s).or ih
      rw [suffix_cons]
      rw [LuadchAnnouncer.Verified.LuaPattern.match]
      by_cases h : c = dot ∧ s ≠ [] ∧ dot ∉ s
      · rw [if_pos h] at hor ⊢
        exact hor
      · rw [if_neg h] at hor ⊢
        exact hor

/-- The suffix of a name is a non-empty text without dots with a dot in front of it, at the
end of the name. -/
theorem suffix_eq_some_iff {s x : Str} :
    suffix s = some x ↔ x ≠ [] ∧ dot ∉ x ∧ dot :: x <:+ s := by
  induction s with
  | nil =>
      apply iff_of_false
      · intro h
        cases h
      · intro h
        exact absurd (List.suffix_nil.mp h.2.2) (List.cons_ne_nil dot x)
  | cons c s ih =>
      rw [suffix_cons]
      by_cases h : c = dot ∧ s ≠ [] ∧ dot ∉ s
      case pos =>
        rw [if_pos h, Option.some.injEq]
        constructor
        · rintro rfl
          exact ⟨h.2.1, h.2.2, h.1 ▸ List.suffix_rfl⟩
        · intro hx
          rcases List.suffix_cons_iff.mp hx.2.2 with heq | hrest
          · exact (List.cons.inj heq).2.symm
          · exact absurd (hrest.subset List.mem_cons_self) h.2.2
      case neg =>
        rw [if_neg h, ih]
        constructor
        · intro hx
          exact ⟨hx.1, hx.2.1, hx.2.2.trans (List.suffix_cons c s)⟩
        · intro hx
          refine ⟨hx.1, hx.2.1, ?_⟩
          rcases List.suffix_cons_iff.mp hx.2.2 with heq | hrest
          · obtain ⟨hc, hs⟩ := List.cons.inj heq
            exact absurd ⟨hc.symm, hs ▸ hx.1, hs ▸ hx.2.1⟩ h
          · exact hrest

/-- No letter becomes a dot in lower case. -/
theorem lowerByte_eq_dot {c : UInt8} : lowerByte c = dot ↔ c = dot := by
  unfold lowerByte
  split
  case isFalse => exact Iff.rfl
  case isTrue h =>
    have hlow : 65 ≤ c.toNat := UInt8.le_iff_toNat_le.mp h.1
    have hhigh : c.toNat ≤ 90 := UInt8.le_iff_toNat_le.mp h.2
    apply iff_of_false
    · intro heq
      have hnat := congrArg UInt8.toNat heq
      rw [UInt8.toNat_add] at hnat
      have hdot : dot.toNat = 46 := rfl
      have hshift : (32 : UInt8).toNat = 32 := rfl
      omega
    · intro heq
      rw [heq] at hlow
      exact absurd hlow (by decide)

/-- So lower case keeps the dots where they are. -/
theorem dot_mem_lower {s : Str} : dot ∈ lower s ↔ dot ∈ s := by
  unfold lower
  rw [List.mem_map]
  constructor
  · intro h
    obtain ⟨c, hc, heq⟩ := h
    exact lowerByte_eq_dot.mp heq ▸ hc
  · intro h
    exact ⟨dot, h, rfl⟩

/-- The extension a file is counted under. -/
theorem countedAs_eq_some_iff {file e : Str} :
    countedAs file = some e ↔ e ≠ [] ∧ dot ∉ e ∧ dot :: e <:+ lower file := by
  unfold countedAs
  rw [(captures_suffix file).capture_eq, Option.map_eq_some_iff]
  constructor
  · intro h
    obtain ⟨x, hx, rfl⟩ := h
    obtain ⟨hne, hdot, hsuffix⟩ := suffix_eq_some_iff.mp hx
    refine ⟨?_, fun h => hdot (dot_mem_lower.mp h), List.IsSuffix.map lowerByte hsuffix⟩
    exact fun h => hne (List.map_eq_nil_iff.mp h)
  · intro h
    obtain ⟨hne, hdot, hsuffix⟩ := h
    obtain ⟨l, hl, heq⟩ := List.suffix_map_iff.mp hsuffix
    cases l with
    | nil => cases heq
    | cons c x =>
        obtain ⟨hc, hx⟩ := List.cons.inj heq
        have hlower : lower x = e := hx.symm
        refine ⟨x, suffix_eq_some_iff.mpr ⟨?_, ?_, ?_⟩, hlower⟩
        · intro hnil
          rw [hnil] at hlower
          exact hne hlower.symm
        · exact fun h => hdot (hlower ▸ dot_mem_lower.mpr h)
        · rw [← lowerByte_eq_dot.mp hc.symm]
          exact hl

/-! ## The files of a directory -/

/-- `.nfo`, as it is written -/
def isDotted (ext file : Str) : Bool := decide (dot :: ext <:+ file)

/-- `.NFO`, or `.Nfo`: with a capital letter in it -/
def isCapital (ext file : Str) : Bool :=
  decide (dot :: ext <:+ lower file ∧ ¬ dot :: ext <:+ file)

/-- `nfo`, on its own or behind a separator -/
def isBare (ext file : Str) : Bool :=
  decide (file = ext ∨ 92 :: ext <:+ file ∨ 47 :: ext <:+ file)

/-- An extension in small letters, and with nothing in it where a pattern would stop. -/
structure Extension where
  text : Str
  ne_nil : text ≠ []
  plain : text.all plain = true
  lower_eq : lower text = text

def nfo : Extension := ⟨lit "nfo", by decide, by decide, by decide⟩

def sfv : Extension := ⟨lit "sfv", by decide, by decide, by decide⟩

namespace Extension

variable (e : Extension)

theorem dot_notMem : dot ∉ e.text := by
  intro h
  have hplain := List.all_eq_true.mp e.plain dot h
  exact absurd hplain (by decide)

/-- What the two checks look at. -/
theorem extension_eq_some_iff (file : Str) :
    extension file = some e.text ↔ isDotted e.text file = true ∨ isBare e.text file = true := by
  rw [AnnounceSfv.extension_eq_some_iff e.plain e.ne_nil]
  unfold isDotted isBare
  rw [decide_eq_true_iff, decide_eq_true_iff]
  rfl

theorem suffix_lower {file : Str} (h : dot :: e.text <:+ file) :
    dot :: e.text <:+ lower file := by
  have hmap : lower (dot :: e.text) <:+ lower file := List.IsSuffix.map lowerByte h
  rw [show lower (dot :: e.text) = dot :: lower e.text from rfl, e.lower_eq] at hmap
  exact hmap

/-- What the counter looks at. -/
theorem countedAs_iff (file : Str) :
    countedAs file = some e.text ↔ isDotted e.text file = true ∨ isCapital e.text file = true := by
  rw [countedAs_eq_some_iff]
  unfold isDotted isCapital
  rw [decide_eq_true_iff, decide_eq_true_iff]
  constructor
  · intro h
    by_cases hdotted : dot :: e.text <:+ file
    · exact Or.inl hdotted
    · exact Or.inr ⟨h.2.2, hdotted⟩
  · intro h
    refine ⟨e.ne_nil, e.dot_notMem, ?_⟩
    rcases h with hdotted | hcapital
    · exact e.suffix_lower hdotted
    · exact hcapital.1

/-- A bare name is not counted. -/
theorem not_suffix_of_isBare {file : Str} (h : isBare e.text file = true) :
    ¬ dot :: e.text <:+ lower file := by
  have hbehind : ∀ c : UInt8, c ≠ dot → lowerByte c = c → c :: e.text <:+ file →
      ¬ dot :: e.text <:+ lower file := by
    intro c hc hlower hsuffix hdot
    have hmap : lower (c :: e.text) <:+ lower file := List.IsSuffix.map lowerByte hsuffix
    rw [show lower (c :: e.text) = lowerByte c :: lower e.text from rfl, e.lower_eq, hlower] at hmap
    have heq := List.suffix_of_suffix_length_le hmap hdot (by simp)
    exact hc (List.cons.inj (heq.eq_of_length (by simp))).1
  unfold isBare at h
  rw [decide_eq_true_iff] at h
  rcases h with heq | hsuffix | hsuffix
  · intro hdot
    rw [heq, e.lower_eq] at hdot
    have hle := hdot.length_le
    rw [List.length_cons] at hle
    omega
  · exact hbehind 92 (by decide) rfl hsuffix
  · exact hbehind 47 (by decide) rfl hsuffix

theorem not_isDotted_of_isBare {file : Str} (h : isBare e.text file = true) :
    ¬ isDotted e.text file = true := by
  intro hdotted
  exact e.not_suffix_of_isBare h (e.suffix_lower (decide_eq_true_iff.mp hdotted))

theorem not_isCapital_of_isBare {file : Str} (h : isBare e.text file = true) :
    ¬ isCapital e.text file = true := by
  intro hcapital
  exact e.not_suffix_of_isBare h (decide_eq_true_iff.mp hcapital).1

theorem not_isDotted_of_isCapital {file : Str} (h : isCapital e.text file = true) :
    ¬ isDotted e.text file = true := by
  intro hdotted
  exact (decide_eq_true_iff.mp h).2 (decide_eq_true_iff.mp hdotted)

end Extension

/-! ## The directory -/

section

variable (d : Directory)

/-- The entry is a regular file. -/
def isFile (file : Str) : Bool := notDots file && d.isRegular file

/-- The files that are counted under the extension. -/
def counted (ext : Str) : List Str :=
  (d.files.filter (isFile d)).filter fun file => countedAs file == some ext

/-- There is such a file: a regular one among those the directory lists. -/
def Holds (p : Str → Bool) : Prop := ∃ file ∈ d.files, isFile d file = true ∧ p file = true

/-- A file with the extension as it is written, or one kind of odd name for another;
and no odd names for an `.sfv` file. -/
def Plain : Prop :=
  (Holds d (isDotted nfo.text) ∨
    (Holds d (isBare nfo.text) ↔ Holds d (isCapital nfo.text))) ∧
  ¬ Holds d (isBare sfv.text) ∧ ¬ Holds d (isCapital sfv.text)

theorem isFileWith_eq (ext : String) (file : Str) :
    isFileWith d.fs d.path ext file = (isFile d file && extension file == some (lit ext)) := by
  unfold isFileWith isFile Directory.isRegular
  rw [Bool.and_assoc]

variable (address : LuaVal → Str) (pathMax : Nat) (m : Moment)

/-- In a directory of files and directories, the detector looks for one file that passes its
pattern. -/
theorem directoryHasNfo_eq :
    directoryHasNfo (World.still d.fs address pathMax) m d.path =
      .ok (d.files.any (isFileWith d.fs d.path "nfo")) := by
  have hany : d.files.zipIdx.any (fun entry => isFileWith d.fs d.path "nfo" entry.1) =
      d.files.any (isFileWith d.fs d.path "nfo") := by
    conv_rhs => rw [← List.zipIdx_map_fst 0 d.files, List.any_map]
    rfl
  unfold directoryHasNfo
  rw [World.still_fs, d.dir_eq]
  exact congrArg Except.ok hany

/-- Without recursion the count is over the files of the directory itself. -/
theorem filesBelow_flat (n : Nat) :
    filesBelow d.fs false (n + 1) d.path = d.files.filter (isFile d) := by
  have hfilter : ∀ files : List Str, (files.flatMap fun file =>
      if isFile d file = true then [file] else []) = files.filter (isFile d) := by
    intro files
    induction files with
    | nil => rfl
    | cons file files ih =>
        rw [List.flatMap_cons, ih, List.filter_cons]
        split
        · rfl
        · rfl
  rw [← hfilter, filesBelow, d.dir_eq]
  apply List.flatMap_congr
  intro file _
  unfold isFile Directory.isRegular
  cases notDots file with
  | false => rfl
  | true =>
      cases (d.fs.attributes (join d.path file)).map Attributes.mode with
      | none => rfl
      | some mode =>
          cases mode with
          | file => rfl
          | directory => rfl
          | other => rfl

/-- Every extension is counted as often as there are files with it. -/
theorem countFilesByExt_flat :
    ∃ counts, countFilesByExt (World.still d.fs address pathMax) m d.path false .nil = .ok counts ∧
      ∀ ext, counts ext = (counted d ext).length := by
  refine ⟨walk (World.still d.fs address pathMax) false 9 m d.path fun _ => 0, rfl, ?_⟩
  intro ext
  rw [walk_count, filesBelow_flat, Nat.zero_add]
  exact List.countP_eq_length_filter

/-- The `.nfo` pattern takes a file with the extension, and the file whose whole name is
`nfo`. -/
theorem any_nfo_iff : d.files.any (isFileWith d.fs d.path "nfo") = true ↔
    Holds d (isDotted nfo.text) ∨ Holds d (isBare nfo.text) := by
  unfold Holds
  rw [List.any_eq_true, ← exists_or]
  apply exists_congr
  intro file
  rw [isFileWith_eq, Bool.and_eq_true, beq_iff_eq, ← and_or_left, ← and_or_left]
  exact and_congr_right fun _ => and_congr_right fun _ => nfo.extension_eq_some_iff file

theorem mem_counted_iff {ext file : Str} :
    file ∈ counted d ext ↔ (file ∈ d.files ∧ isFile d file = true) ∧ countedAs file = some ext := by
  unfold counted
  rw [List.mem_filter, List.mem_filter, beq_iff_eq]

/-- The count takes a file with the extension, and one with the extension in capitals. -/
theorem counted_pos_iff (e : Extension) : 1 ≤ (counted d e.text).length ↔
    Holds d (isDotted e.text) ∨ Holds d (isCapital e.text) := by
  unfold Holds
  show 0 < _ ↔ _
  rw [List.length_pos_iff_exists_mem, ← exists_or]
  apply exists_congr
  intro file
  rw [mem_counted_iff, e.countedAs_iff, and_assoc, ← and_or_left, ← and_or_left]

/-- The two detectors as propositions: where they agree on the files with a dot in front,
what is left is the bare name against the capitals. -/
theorem agree_iff {dotted bare capital rest : Prop} :
    ((dotted ∨ bare ↔ dotted ∨ capital) ∧ rest ∧ ¬ ((dotted ∨ capital) ∧ ¬ (dotted ∨ bare))) ↔
      (dotted ∨ (bare ↔ capital)) ∧ rest := by
  by_cases hdotted : dotted
  case pos => simp [hdotted]
  case neg =>
    simp only [hdotted, false_or]
    constructor
    · intro h
      exact ⟨h.1, h.2.1⟩
    · intro h
      exact ⟨h.1, h.2, fun hboth => hboth.2 (h.1.mpr hboth.1)⟩

/-- The two ways agree on the `.sfv` files. -/
theorem sfv_iff : (∀ file ∈ d.files,
    (isFileWith d.fs d.path "sfv" file = true ↔ file ∈ counted d sfv.text)) ↔
      ¬ Holds d (isBare sfv.text) ∧ ¬ Holds d (isCapital sfv.text) := by
  have hone : ∀ file ∈ d.files, ((isFileWith d.fs d.path "sfv" file = true ↔
      file ∈ counted d sfv.text) ↔ (isFile d file = true →
        ¬ isBare sfv.text file = true ∧ ¬ isCapital sfv.text file = true)) := by
    intro file hfile
    have htaken : isFileWith d.fs d.path "sfv" file = true ↔ isFile d file = true ∧
        (isDotted sfv.text file = true ∨ isBare sfv.text file = true) := by
      rw [isFileWith_eq, Bool.and_eq_true, beq_iff_eq]
      exact and_congr_right fun _ => sfv.extension_eq_some_iff file
    have hcounted : file ∈ counted d sfv.text ↔ isFile d file = true ∧
        (isDotted sfv.text file = true ∨ isCapital sfv.text file = true) := by
      rw [mem_counted_iff, sfv.countedAs_iff, and_iff_right hfile]
    have hbare : isBare sfv.text file = true → _ := sfv.not_isDotted_of_isBare
    have hboth : isBare sfv.text file = true → _ := sfv.not_isCapital_of_isBare
    have hcapital : isCapital sfv.text file = true → _ := sfv.not_isDotted_of_isCapital
    rw [htaken, hcounted, and_congr_right_iff]
    grind
  unfold Holds
  push Not
  rw [← forall₂_and]
  apply forall₂_congr
  intro file hfile
  rw [hone file hfile, ← forall_and]

end

/-- **The detectors and the counter, exactly.**  They agree on whether there is an
`.nfo` file and on which files are `.sfv` files, and so no release that has one for the
cap is blocked for having none, if and only if the directory is plain. -/
theorem detectors_iff (d : Directory) (address : LuaVal → Str) (pathMax : Nat) (m m' : Moment) :
    ∃ counts,
      countFilesByExt (World.still d.fs address pathMax) m d.path false .nil = .ok counts ∧
      (∀ ext, counts ext = (counted d ext).length) ∧
      (((directoryHasNfo (World.still d.fs address pathMax) m' d.path = .ok true ↔
          1 ≤ counts (lit "nfo")) ∧
        (∀ file ∈ d.files,
          (isFileWith d.fs d.path "sfv" file = true ↔ file ∈ counted d (lit "sfv"))) ∧
        ¬ (1 ≤ counts (lit "nfo") ∧
          directoryHasNfo (World.still d.fs address pathMax) m' d.path = .ok false)) ↔
        Plain d) := by
  obtain ⟨counts, hcounts, hlength⟩ := countFilesByExt_flat d address pathMax m
  refine ⟨counts, hcounts, hlength, ?_⟩
  have hhas := any_nfo_iff d
  have hcounted := counted_pos_iff d nfo
  have hsfv := sfv_iff d
  rw [directoryHasNfo_eq, Except.ok.injEq, Except.ok.injEq, ← Bool.not_eq_true, hhas,
    hlength, show lit "nfo" = nfo.text from rfl, show lit "sfv" = sfv.text from rfl, hcounted, hsfv]
  unfold Plain
  exact agree_iff

/-- A release with `Release.NFO` in it is counted as one with an `.nfo` file, and blocked
for having none. -/
def capitalNfo : Directory where
  fs := {
    attributes := fun _ => some { mode := .file, modification := 0 }
    dir := fun _ => some [lit ".", lit "..", lit "Release.NFO"]
    lines := fun _ => none
    time := 0
    today := lit "0601" }
  path := lit "/in/Release"
  files := [lit ".", lit "..", lit "Release.NFO"]
  dir_eq := rfl

/-- A directory with a file called `nfo` and nothing else. -/
theorem detectors_disagree :
    ¬ ∀ (d : Directory) (address : LuaVal → Str) (pathMax : Nat) (m m' : Moment) (counts : Counts),
      countFilesByExt (World.still d.fs address pathMax) m d.path false .nil = .ok counts →
        (directoryHasNfo (World.still d.fs address pathMax) m' d.path = .ok true ↔
          1 ≤ counts (lit "nfo")) := by
  intro hall
  have h := (hall capitalNfo (fun _ => []) 4096 [] [] _ rfl).mpr (by decide)
  cases h

end LuadchAnnouncer.Core.AnnounceExtensions
