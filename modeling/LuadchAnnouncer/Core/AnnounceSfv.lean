import LuadchAnnouncer.Core.AnnounceFilter

/-!
# What an SFV file lists

`directory_has_valid_sfv` splits a line of the `.sfv` file with a pattern that
stops at a comma and keeps every space but the last.  So it reads the name that a
line lists off most lines and another one off some, and it takes a file for an
`.sfv` file that is only called `sfv`.

`validSfv_iff` says for which directories the answer is the right one all the
same.

## Main results

* `sfvFilename_eq`, `pick_entry_iff` — what the pattern picks of a line, in closed form.
* `picked_iff` — the lines from which the listed name is picked.
* `extension_sfv_iff` — the files that are read as `.sfv` files.
* `validSfv_iff` — the check as a whole.
-/

namespace LuadchAnnouncer.Core.AnnounceSfv

open LuadchAnnouncer.Verified.Bytes
open LuadchAnnouncer.Verified.LuaValue
open LuadchAnnouncer.Verified.LuaPattern (Item any noneOf char capture Captures matchAnchored
  matchHere stretches captures_toEnd findSome?_greedy_nil findSome?_greedy_cons findSome?_lazy_nil
  findSome?_lazy_cons)
open LuadchAnnouncer.Core.Announce
open LuadchAnnouncer.Core.AnnounceFilter

/-! ## The lines of the file -/

def comma : UInt8 := 44

def space : UInt8 := 32

def semicolon : UInt8 := 59

def hexDigit (c : UInt8) : Bool := (LuaNum.hexValue c).isSome

/-- `<filename> <crc>` -/
structure Entry where
  name : Str
  spaces : Nat
  crc : Str
  cr : Bool
  name_ne_nil : name ≠ []
  name_head : name.head? ≠ some semicolon
  name_last : name.getLast? ≠ some space
  spaces_pos : 0 < spaces
  crc_ne_nil : crc ≠ []
  crc_hex : ∀ c ∈ crc, hexDigit c = true

def Entry.text (e : Entry) : Str :=
  e.name ++ (List.replicate e.spaces space ++ (e.crc ++ if e.cr then [13] else []))

inductive Line where
  /-- what stands behind the semicolon -/
  | comment (text : Str)
  | blank (text : Str) (white : ∀ c ∈ text, LuaNum.isSpace c = true)
  | entry (e : Entry)

namespace Line

def text : Line → Str
  | .comment text => semicolon :: text
  | .blank text _ => text
  | .entry e => e.text

/-- The file name the line lists. -/
def lists : Line → Option Str
  | .entry e => some e.name
  | _ => none

/-- The lines off which the pattern reads what they list: the name has no comma and
there is one space behind it, and a blank line has no space inside. -/
def WellRead : Line → Prop
  | .comment _ => True
  | .blank text _ => space ∉ text.tail.dropLast
  | .entry e => comma ∉ e.name ∧ e.spaces = 1

end Line

/-! ## What the pattern reads off a line -/

/-- A space, and something behind it that is no comma. -/
def opens : Str → Bool
  | c :: d :: _ => c == space && d != comma
  | _ => false

/-- The longest stretch without a comma in front of such a space. -/
def front : Str → Option Str
  | [] => none
  | c :: s =>
      if c = comma then none
      else match front s with
        | some u => some (c :: u)
        | none => if opens (c :: s) then some [] else none

/-- The first such stretch that is not empty. -/
def pick : Str → Option Str
  | [] => none
  | c :: s => (if c = comma then none else (front s).map fun u => c :: u).or (pick s)

/-- The name that is looked up for a line. -/
def picked (line : Str) : Option Str :=
  if 0 < line.length ∧ line.head? ≠ some semicolon then pick line else none

theorem noneOf_comma (c : UInt8) : noneOf [','] c = (c != comma) := by
  simp [noneOf, comma]

/-- `([^,]+)` -/
def word : List Item := [.openCapture, .plus (noneOf [',']), .closeCapture]

/-- Behind the name the pattern takes anything: backing up over it, it closes the capture at
the first try. -/
theorem captures_closing (opened name : Str) (s : Str) :
    Captures ((stretches (noneOf [',']) s).reverse.findSome? fun t =>
      matchHere [.closeCapture] t opened [name]) (some name) := by
  induction s with
  | nil =>
      rw [findSome?_greedy_nil]
      exact ⟨_, rfl⟩
  | cons c s ih =>
      rw [findSome?_greedy_cons]
      split
      · obtain ⟨rest, hrest⟩ := ih
        rw [hrest]
        exact ⟨rest, rfl⟩
      · exact ⟨_, rfl⟩

/-- What stands behind the name. -/
theorem captures_checksum (t opened name : Str) :
    Captures (matchHere (.one (char ' ') :: word) t opened [name])
      (if opens t then some name else none) := by
  cases t with
  | nil => rfl
  | cons c t =>
      have hchar : char ' ' c = (c == space) := rfl
      unfold word
      rw [matchHere, hchar]
      cases t with
      | nil =>
          show Captures (if (c == space) = true then none else none) none
          split
          · rfl
          · rfl
      | cons d t =>
          have hopens : opens (c :: d :: t) = (c == space && d != comma) := rfl
          rw [matchHere, matchHere, noneOf_comma, hopens]
          cases hspace : c == space with
          | false => exact rfl
          | true =>
              rw [Bool.true_and, if_pos rfl]
              cases hcomma : d != comma with
              | false => exact rfl
              | true => exact captures_closing (d :: t) name t

/-- The pattern behind the first byte of the name, when `w` has been taken. -/
theorem captures_front (w s : Str) :
    Captures ((stretches (noneOf [',']) s).reverse.findSome? fun t =>
      matchHere (.closeCapture :: .one (char ' ') :: word) t (w ++ s) [])
      ((front s).map fun u => w ++ u) := by
  have hhere : ∀ (w s : Str),
      Captures (matchHere (.closeCapture :: .one (char ' ') :: word) s (w ++ s) [])
        (if opens s then some w else none) := by
    intro w s
    rw [matchHere, List.length_append, Nat.add_sub_cancel, List.take_left, List.nil_append]
    exact captures_checksum s (w ++ s) w
  induction s generalizing w with
  | nil =>
      rw [findSome?_greedy_nil]
      exact hhere w []
  | cons c s ih =>
      rw [findSome?_greedy_cons, noneOf_comma]
      unfold front
      by_cases hcomma : c = comma
      case pos =>
        have hopens : opens (c :: s) = false := by
          rw [hcomma]
          cases s with
          | nil => rfl
          | cons d s => rfl
        have hnone := hhere w (c :: s)
        rw [hopens] at hnone
        rw [if_pos hcomma, if_neg (by simp [hcomma])]
        exact hnone
      case neg =>
        rw [if_neg hcomma, if_pos (by simpa using hcomma)]
        have hrest := ih (w ++ [c])
        rw [List.append_assoc, List.singleton_append] at hrest
        have hor := hrest.or (hhere w (c :: s))
        cases hfront : front s with
        | none =>
            rw [hfront] at hor
            cases hopens : opens (c :: s) with
            | false =>
                rw [hopens] at hor
                exact hor
            | true =>
                rw [hopens] at hor
                simpa using hor
        | some u =>
            rw [hfront] at hor
            simpa using hor

/-- The pattern of the `.sfv` lines captures what `pick` says, whatever the line. -/
theorem captures_pick (line : Str) :
    Captures (LuadchAnnouncer.Verified.LuaPattern.match sfvPattern line) (pick line) := by
  induction line with
  | nil => exact rfl
  | cons c s ih =>
      have hhere : Captures (matchAnchored sfvPattern (c :: s))
          (if c = comma then none else (front s).map fun u => c :: u) := by
        show Captures (matchHere (.openCapture :: .plus (noneOf [',']) :: .closeCapture ::
          .one (char ' ') :: word) (c :: s) (c :: s) []) _
        rw [matchHere, matchHere, noneOf_comma]
        by_cases hcomma : c = comma
        case pos =>
          rw [if_pos hcomma, if_neg (by simp [hcomma])]
          exact rfl
        case neg =>
          rw [if_neg hcomma, if_pos (by simpa using hcomma)]
          exact captures_front [c] s
      exact hhere.or ih

theorem sfvFilename_eq (line : Str) : sfvFilename line = picked line := by
  unfold sfvFilename picked
  rw [(captures_pick line).capture_eq]
  rfl

/-- A name that is picked has no comma in it. -/
theorem comma_notMem_front {s u : Str} (h : front s = some u) : comma ∉ u := by
  induction s generalizing u with
  | nil => cases h
  | cons c s ih =>
      unfold front at h
      split at h
      case isTrue => cases h
      case isFalse hcomma =>
        cases hfront : front s with
        | some v =>
            rw [hfront] at h
            obtain rfl : c :: v = u := Option.some.inj h
            rw [List.mem_cons, not_or]
            exact ⟨Ne.symm hcomma, ih hfront⟩
        | none =>
            rw [hfront] at h
            simp only at h
            split at h
            case isTrue =>
              obtain rfl : [] = u := Option.some.inj h
              exact List.not_mem_nil
            case isFalse => cases h

/-- A name with a comma is never read. -/
theorem comma_notMem_pick {s u : Str} (h : pick s = some u) : comma ∉ u := by
  induction s with
  | nil => cases h
  | cons c s ih =>
      unfold pick at h
      rcases Option.or_eq_some_iff.mp h with hhere | ⟨-, hrest⟩
      · split at hhere
        case isTrue => cases hhere
        case isFalse hcomma =>
          obtain ⟨v, hv, rfl⟩ := Option.map_eq_some_iff.mp hhere
          rw [List.mem_cons, not_or]
          exact ⟨Ne.symm hcomma, comma_notMem_front hv⟩
      · exact ih hrest

/-- Without a space there is nothing to stop in front of. -/
theorem front_eq_none {s : Str} (h : space ∉ s) : front s = none := by
  induction s with
  | nil => rfl
  | cons c s ih =>
      rw [List.mem_cons, not_or] at h
      have hopens : opens (c :: s) = false := by
        cases s with
        | nil => rfl
        | cons d s =>
            show (c == space && d != comma) = false
            rw [beq_false_of_ne (Ne.symm h.1), Bool.false_and]
      unfold front
      rw [ih h.2, hopens]
      split
      · rfl
      · rfl

/-- The last space of a line is the one that is not read. -/
theorem front_append {x v : Str} (hx : comma ∉ x) (hne : v ≠ []) (hv : space ∉ v)
    (hcomma : comma ∉ v) : front (x ++ space :: v) = some x := by
  induction x with
  | nil =>
      have hopens : opens (space :: v) = true := by
        cases v with
        | nil => exact absurd rfl hne
        | cons d v =>
            rw [List.mem_cons, not_or] at hcomma
            show (space == space && d != comma) = true
            rw [bne_iff_ne.mpr (Ne.symm hcomma.1)]
            rfl
      rw [List.nil_append]
      unfold front
      rw [front_eq_none hv, hopens]
      rfl
  | cons c x ih =>
      rw [List.mem_cons, not_or] at hx
      rw [List.cons_append]
      unfold front
      rw [if_neg (Ne.symm hx.1), ih hx.2]

/-- Of a name, one space, and a checksum without either, the name is picked. -/
theorem pick_append {x v : Str} (hne : x ≠ []) (hx : comma ∉ x) (hne' : v ≠ []) (hv : space ∉ v)
    (hcomma : comma ∉ v) : pick (x ++ space :: v) = some x := by
  cases x with
  | nil => exact absurd rfl hne
  | cons c x =>
      rw [List.mem_cons, not_or] at hx
      rw [List.cons_append]
      unfold pick
      rw [if_neg (Ne.symm hx.1), front_append hx.2 hne' hv hcomma]
      rfl

/-- Without commas, the front is missing where no space separates two parts. -/
theorem front_eq_none_iff {s : Str} (h : comma ∉ s) : front s = none ↔ space ∉ s.dropLast := by
  induction s with
  | nil => exact iff_of_true rfl List.not_mem_nil
  | cons c s ih =>
      rw [List.mem_cons, not_or] at h
      unfold front
      rw [if_neg (Ne.symm h.1)]
      cases s with
      | nil => exact iff_of_true rfl List.not_mem_nil
      | cons d s =>
          have hd : d ≠ comma := fun hd => h.2 (hd ▸ List.mem_cons_self)
          have hopens : opens (c :: d :: s) = (c == space) := by
            show (c == space && d != comma) = (c == space)
            rw [bne_iff_ne.mpr hd, Bool.and_true]
          rw [List.dropLast_cons_cons, List.mem_cons, not_or, ← ih h.2, hopens]
          cases hfront : front (d :: s) with
          | some u => simp
          | none =>
              simp only [and_true]
              by_cases hc : c = space
              · simp [hc]
              · simp [hc, Ne.symm hc]

/-- Nothing is picked from a text that has no space between its first byte and its last. -/
theorem pick_eq_none_iff {s : Str} (h : comma ∉ s) :
    pick s = none ↔ space ∉ s.tail.dropLast := by
  induction s with
  | nil => exact iff_of_true rfl List.not_mem_nil
  | cons c s ih =>
      rw [List.mem_cons, not_or] at h
      unfold pick
      rw [if_neg (Ne.symm h.1), Option.or_eq_none_iff, Option.map_eq_none_iff,
        front_eq_none_iff h.2, ih h.2, List.tail_cons]
      constructor
      · exact fun hboth => hboth.1
      · intro hspace
        refine ⟨hspace, fun hmem => hspace ?_⟩
        cases s with
        | nil => exact hmem
        | cons d s =>
            cases s with
            | nil => exact absurd hmem List.not_mem_nil
            | cons e s => exact List.mem_cons_of_mem _ hmem

/-! ## Which lines are well read -/

/-- A checksum has no space in it, with or without the carriage return behind it. -/
theorem space_notMem_checksum (e : Entry) : space ∉ e.crc ++ if e.cr then [13] else [] := by
  rw [List.mem_append, not_or]
  constructor
  · intro hmem
    exact absurd (e.crc_hex space hmem) (by decide)
  · split
    · decide
    · decide

/-- Nor has it a comma. -/
theorem comma_notMem_checksum (e : Entry) : comma ∉ e.crc ++ if e.cr then [13] else [] := by
  rw [List.mem_append, not_or]
  constructor
  · intro hmem
    exact absurd (e.crc_hex comma hmem) (by decide)
  · split
    · decide
    · decide

/-- All spaces but the last are read as a part of the name. -/
theorem pick_entry {e : Entry} (h : comma ∉ e.name) :
    pick e.text = some (e.name ++ List.replicate (e.spaces - 1) space) := by
  have hspaces : List.replicate e.spaces space =
      List.replicate (e.spaces - 1) space ++ [space] := by
    rw [← List.replicate_succ', Nat.sub_add_cancel e.spaces_pos]
  unfold Entry.text
  rw [hspaces, List.append_assoc, ← List.append_assoc e.name, List.singleton_append]
  apply pick_append
  · exact List.append_ne_nil_of_left_ne_nil e.name_ne_nil _
  · rw [List.mem_append, not_or]
    refine ⟨h, fun hmem => ?_⟩
    exact absurd (List.eq_of_mem_replicate hmem) (by decide)
  · exact List.append_ne_nil_of_left_ne_nil e.crc_ne_nil _
  · exact space_notMem_checksum e
  · exact comma_notMem_checksum e

/-- An entry is no comment, so the line is given to the pattern. -/
theorem picked_entry (e : Entry) : picked e.text = pick e.text := by
  have hhead : e.text.head? = e.name.head? := by
    unfold Entry.text
    exact List.head?_append_of_ne_nil _ e.name_ne_nil
  have hlength : 0 < e.text.length := by
    unfold Entry.text
    rw [List.length_append]
    exact Nat.add_pos_left (List.length_pos_of_ne_nil e.name_ne_nil) _
  unfold picked
  rw [if_pos ⟨hlength, hhead ▸ e.name_head⟩]

/-- The name of an entry is picked exactly if it has no comma and one space behind it. -/
theorem pick_entry_iff (e : Entry) :
    pick e.text = some e.name ↔ comma ∉ e.name ∧ e.spaces = 1 := by
  constructor
  · intro h
    have hcomma := comma_notMem_pick h
    refine ⟨hcomma, ?_⟩
    rw [pick_entry hcomma] at h
    have hlength := congrArg List.length (Option.some.inj h)
    rw [List.length_append, List.length_replicate] at hlength
    have hpos := e.spaces_pos
    omega
  · rintro ⟨hcomma, hone⟩
    rw [pick_entry hcomma, hone]
    exact congrArg some (List.append_nil _)

/-- White space is no comment either. -/
theorem picked_blank {text : Str} (white : ∀ c ∈ text, LuaNum.isSpace c = true) :
    picked text = pick text := by
  unfold picked
  cases text with
  | nil => rfl
  | cons c s =>
      have hhead : (c :: s).head? ≠ some semicolon := by
        intro h
        have hwhite := white semicolon (Option.some.inj h ▸ List.mem_cons_self)
        exact absurd hwhite (by decide)
      rw [if_pos ⟨Nat.succ_pos _, hhead⟩]

/-- The pattern reads off a line what it lists, if and only if it is one of those. -/
theorem picked_iff (line : Line) : picked line.text = line.lists ↔ line.WellRead := by
  cases line with
  | comment text => exact iff_of_true rfl trivial
  | blank text white =>
      have hcomma : comma ∉ text := fun hmem => absurd (white comma hmem) (by decide)
      show picked text = none ↔ space ∉ text.tail.dropLast
      rw [picked_blank white, pick_eq_none_iff hcomma]
  | entry e =>
      show picked e.text = some e.name ↔ comma ∉ e.name ∧ e.spaces = 1
      rw [picked_entry, pick_entry_iff]

/-! ## Which files are taken -/

/-- `[^%.\\/]` -/
def plain : UInt8 → Bool := noneOf ['.', '\\', '/']

/-- `[^\\/]` -/
def within : UInt8 → Bool := noneOf ['\\', '/']

theorem plain_eq (c : UInt8) : plain c = (c != 46 && (c != 92 && c != 47)) := by
  simp [plain, noneOf]

theorem within_eq (c : UInt8) : within c = (c != 92 && c != 47) := by
  simp [within, noneOf]

theorem within_of_plain {c : UInt8} (h : plain c = true) : within c = true := by
  rw [plain_eq, Bool.and_eq_true] at h
  rw [within_eq]
  exact h.2

theorem plain_eq_false_iff {c : UInt8} : plain c = false ↔ c = 46 ∨ c = 92 ∨ c = 47 := by
  rw [plain_eq, Bool.and_eq_false_iff, Bool.and_eq_false_iff, bne_eq_false_iff_eq,
    bne_eq_false_iff_eq, bne_eq_false_iff_eq]

/-- The longest end of a name that is all plain. -/
def ending : Str → Str
  | [] => []
  | c :: s => if (c :: s).all plain then c :: s else ending s

theorem ending_of_all {s : Str} (h : s.all plain = true) : ending s = s := by
  cases s with
  | nil => rfl
  | cons c s =>
      unfold ending
      rw [if_pos h]

/-- `%.?([^%.\\/]*)$` -/
def lastPart : List Item :=
  [.opt (char '.'), .openCapture, .star plain, .closeCapture, .atEnd]

theorem captures_lastPart_nil (opened : Str) :
    Captures (matchHere lastPart [] opened []) (some []) := ⟨[], rfl⟩

/-- The last part of a file name, from one place on: it is plain to the end, or a dot and
plain from there. -/
theorem captures_lastPart_cons (c : UInt8) (s opened : Str) :
    Captures (matchHere lastPart (c :: s) opened [])
      (if (c :: s).all plain then some (c :: s)
        else if c = 46 ∧ s.all plain = true then some s else none) := by
  have hdot : char '.' c = (c == 46) := rfl
  have hrest : ∀ (t opened : Str),
      Captures (matchHere [.openCapture, .star plain, .closeCapture, .atEnd] t opened [])
        (if t.all plain then some t else none) := by
    intro t opened
    rw [matchHere, matchHere]
    exact captures_toEnd plain t t
  unfold lastPart
  rw [matchHere]
  rw [hdot]
  by_cases hc : c = 46
  case pos =>
    have hplain : (c :: s).all plain = false := by
      rw [hc, List.all_cons, show plain 46 = false from rfl, Bool.false_and]
    have hor := (hrest s opened).or (hrest (c :: s) opened)
    rw [hplain] at hor ⊢
    rw [if_pos (beq_iff_eq.mpr hc)]
    cases hall : s.all plain with
    | true =>
        rw [hall] at hor
        simpa [hc] using hor
    | false =>
        rw [hall] at hor
        simpa using hor
  case neg =>
    rw [if_neg (by simpa using hc)]
    have hhere := hrest (c :: s) opened
    simpa [hc] using hhere

/-- `[^\\/]-%.?([^%.\\/]*)$` -/
theorem captures_within (s opened : Str) :
    Captures ((stretches within s).findSome? fun t => matchHere lastPart t opened [])
      (if s.all within then some (ending s) else none) := by
  induction s with
  | nil =>
      rw [findSome?_lazy_nil]
      exact captures_lastPart_nil opened
  | cons c s ih =>
      have hhere := captures_lastPart_cons c s opened
      rw [findSome?_lazy_cons]
      unfold ending
      by_cases hplain : (c :: s).all plain = true
      case pos =>
        have hwithin : (c :: s).all within = true := by
          rw [List.all_eq_true] at hplain ⊢
          exact fun d hd => within_of_plain (hplain d hd)
        have hc : within c = true := (Bool.and_eq_true_iff.mp hwithin).1
        rw [if_pos hplain] at hhere
        rw [if_pos hc, if_pos hwithin, if_pos hplain]
        obtain ⟨rest, hrest⟩ := hhere
        rw [hrest]
        exact ⟨rest, rfl⟩
      case neg =>
        rw [if_neg hplain] at hhere ⊢
        by_cases hdot : c = 46 ∧ s.all plain = true
        case pos =>
          have hwithin : (c :: s).all within = true := by
            rw [hdot.1, List.all_cons, show within 46 = true from rfl, Bool.true_and,
              List.all_eq_true]
            exact fun d hd => within_of_plain (List.all_eq_true.mp hdot.2 d hd)
          have hc : within c = true := (Bool.and_eq_true_iff.mp hwithin).1
          rw [if_pos hdot] at hhere
          rw [if_pos hc, if_pos hwithin, ending_of_all hdot.2]
          obtain ⟨rest, hrest⟩ := hhere
          rw [hrest]
          exact ⟨rest, rfl⟩
        case neg =>
          rw [if_neg hdot] at hhere
          rw [show matchHere lastPart (c :: s) opened [] = none from hhere, List.all_cons]
          cases within c with
          | false => exact rfl
          | true =>
              rw [if_pos rfl, Option.none_or, Bool.true_and]
              exact ih

/-- `.-[^\\/]-%.?([^%.\\/]*)$` -/
theorem captures_extension (s opened : Str) :
    Captures ((stretches any s).findSome? fun t => matchHere (.lazy within :: lastPart) t opened [])
      (some (ending s)) := by
  have hhere : ∀ t, Captures (matchHere (.lazy within :: lastPart) t opened [])
      (if t.all within then some (ending t) else none) := by
    intro t
    rw [matchHere]
    exact captures_within t opened
  induction s with
  | nil =>
      rw [findSome?_lazy_nil]
      exact hhere []
  | cons c s ih =>
      have hor := (hhere (c :: s)).or ih
      rw [findSome?_lazy_cons, show any c = true from rfl, if_pos rfl]
      by_cases hwithin : (c :: s).all within = true
      case pos =>
        rw [if_pos hwithin] at hor
        exact hor
      case neg =>
        have hplain : ¬ (c :: s).all plain = true := by
          intro h
          rw [List.all_eq_true] at h
          exact hwithin (List.all_eq_true.mpr fun d hd => within_of_plain (h d hd))
        rw [if_neg hwithin, Option.none_or] at hor
        unfold ending
        rw [if_neg hplain]
        exact hor

/-- The pattern of the extensions always captures: the ending behind the last dot, or the
whole name. -/
theorem extension_eq (file : Str) : extension file = some (ending file) := by
  have hanchored : ∀ s, Captures (matchAnchored extensionPattern s) (some (ending s)) := by
    intro s
    show Captures (matchHere (.lazy any :: .lazy within :: lastPart) s s []) _
    rw [matchHere]
    exact captures_extension s s
  have hmatch : Captures (LuadchAnnouncer.Verified.LuaPattern.match extensionPattern file)
      (some (ending file)) := by
    cases file with
    | nil => exact hanchored []
    | cons c s =>
        obtain ⟨rest, hrest⟩ := hanchored (c :: s)
        rw [LuadchAnnouncer.Verified.LuaPattern.match, hrest]
        exact ⟨rest, rfl⟩
  exact hmatch.capture_eq

/-- A name has this ending when it is all of it, or there is a stop in front. -/
theorem ending_eq_iff {e s : Str} (h : e.all plain = true) (hne : e ≠ []) :
    ending s = e ↔ s = e ∨ ∃ c, plain c = false ∧ c :: e <:+ s := by
  induction s with
  | nil =>
      apply iff_of_false
      · exact fun heq => hne heq.symm
      · rintro (heq | ⟨c, -, hsuffix⟩)
        · exact hne heq.symm
        · exact absurd (List.suffix_nil.mp hsuffix) (List.cons_ne_nil _ _)
  | cons d s ih =>
      unfold ending
      by_cases hall : (d :: s).all plain = true
      case pos =>
        rw [if_pos hall]
        constructor
        · exact Or.inl
        · rintro (heq | ⟨c, hc, hsuffix⟩)
          · exact heq
          · have hplain := List.all_eq_true.mp hall c (hsuffix.subset List.mem_cons_self)
            rw [hc] at hplain
            cases hplain
      case neg =>
        rw [if_neg hall, ih]
        constructor
        · rintro (rfl | ⟨c, hc, hsuffix⟩)
          · refine Or.inr ⟨d, ?_, List.suffix_rfl⟩
            rw [List.all_cons, h, Bool.and_true] at hall
            exact Bool.not_eq_true _ ▸ hall
          · exact Or.inr ⟨c, hc, hsuffix.trans (List.suffix_cons d s)⟩
        · rintro (heq | ⟨c, hc, hsuffix⟩)
          · exact absurd (heq ▸ h) hall
          · rcases List.suffix_cons_iff.mp hsuffix with heq | hrest
            · exact Or.inl (List.cons.inj heq).2.symm
            · exact Or.inr ⟨c, hc, hrest⟩

/-- A name has an extension behind a dot, or it is one, on its own or behind a separator. -/
theorem extension_eq_some_iff {e file : Str} (h : e.all plain = true) (hne : e ≠ []) :
    extension file = some e ↔
      46 :: e <:+ file ∨ file = e ∨ 92 :: e <:+ file ∨ 47 :: e <:+ file := by
  rw [extension_eq, Option.some.injEq, ending_eq_iff h hne]
  constructor
  · intro hending
    rcases hending with heq | ⟨c, hc, hsuffix⟩
    · exact Or.inr (Or.inl heq)
    · rcases plain_eq_false_iff.mp hc with rfl | rfl | rfl
      · exact Or.inl hsuffix
      · exact Or.inr (Or.inr (Or.inl hsuffix))
      · exact Or.inr (Or.inr (Or.inr hsuffix))
  · intro hforms
    rcases hforms with hsuffix | heq | hsuffix | hsuffix
    · exact Or.inr ⟨46, rfl, hsuffix⟩
    · exact Or.inl heq
    · exact Or.inr ⟨92, rfl, hsuffix⟩
    · exact Or.inr ⟨47, rfl, hsuffix⟩

/-- `.sfv` -/
def hasExtension (file : Str) : Bool := decide (lit ".sfv" <:+ file)

/-- Only called like one: `sfv`, on its own or behind a separator. -/
def isBare (file : Str) : Bool :=
  decide (file = lit "sfv" ∨ lit "\\sfv" <:+ file ∨ lit "/sfv" <:+ file)

theorem extension_sfv_iff (file : Str) :
    extension file = some (lit "sfv") ↔ hasExtension file = true ∨ isBare file = true := by
  rw [extension_eq_some_iff (by decide) (by decide)]
  unfold hasExtension isBare
  rw [decide_eq_true_iff, decide_eq_true_iff]
  rfl

/-! ## The directory -/

/-- A directory that can be listed.  The listing is kept beside the file system, so that
its order is the one the check goes by. -/
structure Directory where
  fs : Fs
  path : Str
  files : List Str
  dir_eq : fs.dir path = some files

namespace Directory

variable (d : Directory)

def isThere (name : Str) : Bool := (d.fs.attributes (join d.path name)).isSome

def isRegular (file : Str) : Bool :=
  (d.fs.attributes (join d.path file)).map Attributes.mode == some .file

/-- The regular files with the extension `sfv`. -/
def sfvFiles : List Str := d.files.filter fun file => d.isRegular file && hasExtension file

/-- The file that is read. -/
def taken : Option Str :=
  d.files.find? fun file => d.isRegular file && (hasExtension file || isBare file)

/-- The names that are read off these lines are all there.  This is what the code looks
at. -/
def Picks (ls : List Str) : Prop := ∀ l ∈ ls, ∀ name, picked l = some name → d.isThere name = true

/-- The names that these lines list are all there.  This is what it should look at. -/
def Lists (ls : List Line) : Prop :=
  ∀ l ∈ ls, ∀ name, l.lists = some name → d.isThere name = true

/-- The lines that are not well read make no difference: one that is lists a name that
is not there, or the others come to the same either way. -/
def Agrees (ls : List Line) : Prop :=
  (∃ l ∈ ls, l.WellRead ∧ ∃ name, l.lists = some name ∧ d.isThere name = false) ∨
  ((∀ l ∈ ls, ¬ l.WellRead → ∀ name, picked l.text = some name → d.isThere name = true) ↔
    ∀ l ∈ ls, ¬ l.WellRead → ∀ name, l.lists = some name → d.isThere name = true)

/-- With an `.sfv` file of these lines: it is the file that is read and its lines agree,
or a bare one is read in its place and comes to the same. -/
def ReadsRight (ls : List Line) : Prop :=
  match d.taken with
  | none => False
  | some file =>
      if isBare file then
        ∃ read, d.fs.lines (join d.path file) = some read ∧ (d.Picks read ↔ d.Lists ls)
      else d.Agrees ls

/-- Without one: no bare file is read, or something it lists is not there. -/
def RefusesBare : Prop :=
  ∀ file, d.taken = some file →
    ∃ read, d.fs.lines (join d.path file) = some read ∧ ¬ d.Picks read

/-! ## The answer -/

/-- The test for `.sfv` takes regular files with the extension, and the one whose whole name
is `sfv`. -/
theorem isFileWith_sfv (file : Str) : isFileWith d.fs d.path "sfv" file =
    (d.isRegular file && (hasExtension file || isBare file)) := by
  have hext : (extension file == some (lit "sfv")) = (hasExtension file || isBare file) := by
    rw [Bool.eq_iff_iff, beq_iff_eq, Bool.or_eq_true]
    exact extension_sfv_iff file
  have hdots : notDots file = false → (hasExtension file || isBare file) = false := by
    intro h
    unfold notDots at h
    rw [Bool.and_eq_false_iff, bne_eq_false_iff_eq, bne_eq_false_iff_eq] at h
    rcases h with rfl | rfl
    · decide
    · decide
  unfold isFileWith
  rw [hext]
  cases hnot : notDots file with
  | true => rfl
  | false =>
      rw [hdots hnot, Bool.false_and, Bool.and_false]

/-- Every line of the file is listed: what is picked from it is in the directory. -/
theorem all_isListed_iff (ls : List Str) :
    ls.all (isListed d.fs d.path) = true ↔ d.Picks ls := by
  rw [List.all_eq_true]
  apply forall₂_congr
  intro l _
  rw [isListed_iff, sfvFilename_eq]
  rfl

/-- The loop over the lines, on a file system that stands still. -/
theorem sfvListed_still (address : LuaVal → Str) (pathMax : Nat) (m : Moment) (f : Str) :
    sfvListed (World.still d.fs address pathMax) m d.path f =
      (d.fs.lines f).elim (.error .call) fun ls => .ok (ls.all (isListed d.fs d.path)) := by
  unfold sfvListed
  rw [World.still_fs]
  cases d.fs.lines f with
  | none => rfl
  | some ls =>
      have hall : ls.zipIdx.all (fun entry => isListed d.fs d.path entry.1) =
          ls.all (isListed d.fs d.path) := by
        conv_rhs => rw [← List.zipIdx_map_fst 0 ls, List.all_map]
        rfl
      exact congrArg Except.ok hall

theorem find?_eq_taken : d.files.find? (isFileWith d.fs d.path "sfv") = d.taken := by
  unfold taken
  congr 1
  funext file
  exact d.isFileWith_sfv file

/-- The loop over the directory, there: the verdict is on the file that is taken. -/
theorem directoryHasValidSfv_eq (address : LuaVal → Str) (pathMax : Nat) (m : Moment) :
    directoryHasValidSfv (World.still d.fs address pathMax) m d.path =
      d.taken.elim (.ok false) fun file => (d.fs.lines (join d.path file)).elim (.error .call)
        fun ls => .ok (ls.all (isListed d.fs d.path)) := by
  have hfind : (d.files.zipIdx.find? fun entry => isFileWith d.fs d.path "sfv" entry.1).map
      Prod.fst = d.taken := by
    rw [← d.find?_eq_taken]
    conv_rhs => rw [← List.zipIdx_map_fst 0 d.files, List.find?_map]
    rfl
  rw [directoryHasValidSfv_listed (w := World.still d.fs address pathMax) d.dir_eq]
  show (d.files.zipIdx.find? fun entry => isFileWith d.fs d.path "sfv" entry.1).elim
    (Except.ok false) _ = _
  rw [← hfind]
  cases d.files.zipIdx.find? fun entry => isFileWith d.fs d.path "sfv" entry.1 with
  | none => rfl
  | some entry => exact d.sfvListed_still address pathMax (m ++ [entry.2]) (join d.path entry.1)

/-- What is taken is an `.sfv` file, unless it is the file called `sfv`. -/
theorem mem_sfvFiles {taken : Str} (htaken : d.taken = some taken)
    (hbare : ¬ isBare taken = true) : taken ∈ d.sfvFiles := by
  have htest := List.find?_some htaken
  unfold sfvFiles
  rw [List.mem_filter]
  simp only [Bool.and_eq_true, Bool.or_eq_true] at htest ⊢
  exact ⟨List.mem_of_find?_eq_some htaken, htest.1, htest.2.resolve_right hbare⟩

/-- The file that is read is the one with the extension, unless it is a bare one. -/
theorem eq_of_taken {file taken : Str} (hsfv : d.sfvFiles = [file])
    (htaken : d.taken = some taken) (hbare : ¬ isBare taken = true) : taken = file := by
  have hmem := d.mem_sfvFiles htaken hbare
  rw [hsfv] at hmem
  exact List.mem_singleton.mp hmem

/-- In a directory with one `.sfv` file, one is taken. -/
theorem taken_ne_none {file : Str} (hsfv : d.sfvFiles = [file]) : d.taken ≠ none := by
  intro hnone
  have hmem : file ∈ d.sfvFiles := by
    rw [hsfv]
    exact List.mem_cons_self
  unfold sfvFiles at hmem
  rw [List.mem_filter, Bool.and_eq_true] at hmem
  have hnot := List.find?_eq_none.mp hnone file hmem.1
  rw [hmem.2.1, hmem.2.2] at hnot
  exact hnot rfl

/-- What the lines say that are well read is what is read off them. -/
theorem agrees_iff (ls : List Line) :
    (d.Picks (ls.map Line.text) ↔ d.Lists ls) ↔ d.Agrees ls := by
  have hwell : ∀ l : Line, l.WellRead →
      ((∀ name, picked l.text = some name → d.isThere name = true) ↔
        ∀ name, l.lists = some name → d.isThere name = true) := by
    intro l hl
    rw [(picked_iff l).mpr hl]
  have hpicks : d.Picks (ls.map Line.text) ↔
      ∀ l ∈ ls, ∀ name, picked l.text = some name → d.isThere name = true := by
    unfold Picks
    rw [List.forall_mem_map]
  rw [hpicks]
  unfold Agrees Lists
  by_cases hmissing : ∃ l ∈ ls, l.WellRead ∧ ∃ name, l.lists = some name ∧ d.isThere name = false
  case pos =>
    obtain ⟨l, hl, hread, name, hname, hthere⟩ := hmissing
    have hnot : ¬ ∀ name, l.lists = some name → d.isThere name = true := by
      intro hall
      rw [hall name hname] at hthere
      cases hthere
    apply iff_of_true
    · apply iff_of_false
      · exact fun hall => hnot ((hwell l hread).mp (hall l hl))
      · exact fun hall => hnot (hall l hl)
    · exact Or.inl ⟨l, hl, hread, name, hname, hthere⟩
  case neg =>
    have hthere : ∀ l ∈ ls, l.WellRead → ∀ name, l.lists = some name → d.isThere name = true := by
      intro l hl hread name hname
      by_contra hnot
      exact hmissing ⟨l, hl, hread, name, hname, Bool.eq_false_iff.mpr hnot⟩
    have hrest : ∀ P : Line → Prop, (∀ l ∈ ls, l.WellRead → P l) →
        ((∀ l ∈ ls, P l) ↔ ∀ l ∈ ls, ¬ l.WellRead → P l) := by
      intro P hP
      constructor
      · exact fun hall l hl _ => hall l hl
      · intro hall l hl
        by_cases hread : l.WellRead
        · exact hP l hl hread
        · exact hall l hl hread
    rw [hrest _ hthere, hrest _ fun l hl hread => (hwell l hread).mpr (hthere l hl hread)]
    exact (or_iff_right hmissing).symm

end Directory

/-- **The SFV check, exactly.**  With one `.sfv` file in the directory the answer is
whether what its lines list is there, and without one it is `false`, if and only if
no other file is read in its place, and no other names. -/
theorem validSfv_iff (d : Directory) (address : LuaVal → Str) (pathMax : Nat) (m : Moment) :
    (∀ file ls, d.sfvFiles = [file] →
      d.fs.lines (join d.path file) = some (ls.map Line.text) →
      ((∃ b, directoryHasValidSfv (World.still d.fs address pathMax) m d.path = .ok b ∧
          (b = true ↔ d.Lists ls)) ↔ d.ReadsRight ls)) ∧
    (d.sfvFiles = [] →
      (directoryHasValidSfv (World.still d.fs address pathMax) m d.path = .ok false ↔
        d.RefusesBare)) := by
  have heq := d.directoryHasValidSfv_eq address pathMax m
  constructor
  · intro file ls hsfv hlines
    unfold Directory.ReadsRight
    cases htaken : d.taken with
    | none => exact absurd htaken (d.taken_ne_none hsfv)
    | some taken =>
        rw [heq, htaken]
        simp only [Option.elim_some]
        by_cases hbare : isBare taken = true
        case pos =>
          rw [if_pos hbare]
          cases hread : d.fs.lines (join d.path taken) with
          | none => simp
          | some read => simp [← d.all_isListed_iff]
        case neg =>
          rw [if_neg hbare, d.eq_of_taken hsfv htaken hbare, hlines, Option.elim_some,
            ← d.agrees_iff ls, ← d.all_isListed_iff]
          simp
  · intro hsfv
    unfold Directory.RefusesBare
    rw [heq]
    cases htaken : d.taken with
    | none => simp
    | some taken =>
        simp only [Option.elim_some, Option.some.injEq, forall_eq']
        cases hread : d.fs.lines (join d.path taken) with
        | none => simp
        | some read => simp [← d.all_isListed_iff]

/-- A directory of these regular files, in which `x.sfv` has these lines. -/
def sample (files ls : List Str) : Directory where
  fs :=
    { attributes := fun f =>
        if files.any (fun file => join (lit "r") file == f) then some ⟨.file, 0⟩ else none
      dir := fun _ => some files
      lines := fun _ => some ls
      time := 0
      today := lit "0101" }
  path := lit "r"
  files := files
  dir_eq := rfl

/-- `a 1F`, as Windows ends it. -/
def plainEntry : Entry :=
  ⟨lit "a", 1, lit "1F", true, by decide, by decide, by decide, by decide, by decide,
    List.all_eq_true.mp (by decide)⟩

def commaEntry : Entry :=
  ⟨lit "a,b", 1, lit "1F", false, by decide, by decide, by decide, by decide, by decide,
    List.all_eq_true.mp (by decide)⟩

def plainLines : List Line := [.comment (lit " made by hand"), .entry plainEntry]

/-- A directory with one `.sfv` file of plain lines. -/
theorem validSfv_plain :
    ∃ b, directoryHasValidSfv
        (World.still (sample [lit "x.sfv", lit "a"] (plainLines.map Line.text)).fs (fun _ => []) 0)
        [] (lit "r") = .ok b ∧
      (b = true ↔ (sample [lit "x.sfv", lit "a"] (plainLines.map Line.text)).Lists plainLines) := by
  have hsfv : (sample [lit "x.sfv", lit "a"] (plainLines.map Line.text)).sfvFiles =
      [lit "x.sfv"] := by decide
  have htaken : (sample [lit "x.sfv", lit "a"] (plainLines.map Line.text)).taken =
      some (lit "x.sfv") := by decide
  have hbare : isBare (lit "x.sfv") = false := by decide
  have hwell : ∀ l ∈ plainLines, l.WellRead := by
    intro l hl
    rcases List.mem_cons.mp hl with rfl | hl
    · exact trivial
    · rw [List.mem_singleton.mp hl]
      show comma ∉ lit "a" ∧ 1 = 1
      exact ⟨by decide, rfl⟩
  refine ((validSfv_iff _ (fun _ => []) 0 []).1 (lit "x.sfv") plainLines hsfv rfl).mpr ?_
  unfold Directory.ReadsRight
  rw [htaken]
  simp only
  rw [hbare]
  refine Or.inr ?_
  constructor
  · exact fun _ l hl hnot => absurd (hwell l hl) hnot
  · exact fun _ l hl hnot => absurd (hwell l hl) hnot

/-- The listed file `a,b` is there, and `b` is not. -/
theorem not_validSfv_comma :
    ¬ ∀ (d : Directory) (address : LuaVal → Str) (pathMax : Nat) (m : Moment) (file : Str)
      (ls : List Line), d.sfvFiles = [file] →
        d.fs.lines (join d.path file) = some (ls.map Line.text) →
          ∃ b, directoryHasValidSfv (World.still d.fs address pathMax) m d.path = .ok b ∧
            (b = true ↔ d.Lists ls) := by
  intro hall
  have hsfv : (sample [lit "x.sfv", lit "a,b"] [commaEntry.text]).sfvFiles =
      [lit "x.sfv"] := by decide
  have htaken : (sample [lit "x.sfv", lit "a,b"] [commaEntry.text]).taken =
      some (lit "x.sfv") := by decide
  have hnot : [commaEntry.text].all
      (isListed (sample [lit "x.sfv", lit "a,b"] [commaEntry.text]).fs (lit "r")) = false := by
    decide
  obtain ⟨b, hb, hiff⟩ := hall (sample [lit "x.sfv", lit "a,b"] [commaEntry.text]) (fun _ => []) 0
    [] (lit "x.sfv") [.entry commaEntry] hsfv rfl
  rw [Directory.directoryHasValidSfv_eq, htaken] at hb
  have hfalse : false = b := by
    rw [← hnot]
    exact Except.ok.inj hb
  have hlists : (sample [lit "x.sfv", lit "a,b"] [commaEntry.text]).Lists [.entry commaEntry] := by
    intro l hl name hname
    rw [List.mem_singleton.mp hl] at hname
    obtain rfl : lit "a,b" = name := Option.some.inj hname
    decide
  rw [hiff.mpr hlists] at hfalse
  cases hfalse

end LuadchAnnouncer.Core.AnnounceSfv
