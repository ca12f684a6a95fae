import LuadchAnnouncer.Verified.Bytes

/-!
# Lua patterns

A pattern is a list of items, and `matchHere` is the backtracking matcher of
the Lua string library: a greedy item tries its longest stretch first, a lazy
one its shortest, and the first way to match the rest of the pattern wins.
Patterns are written down item by item, in the order of the pattern text, so
that each can be checked against the string literal it stands for.
-/

namespace LuadchAnnouncer.Verified.LuaPattern

open LuadchAnnouncer.Verified.Bytes

/-- A set of bytes, as a character class denotes one. -/
abbrev Class := UInt8 → Bool

/-- `%d` -/
def digit : Class := fun c => 48 ≤ c && c ≤ 57

/-- `.` -/
def any : Class := fun _ => true

/-- A literal character. -/
def char (d : Char) : Class := fun c => c == UInt8.ofNat d.toNat

/-- `[^...]` over the listed characters. -/
def noneOf (ds : List Char) : Class :=
  fun c => ds.all fun d => c != UInt8.ofNat d.toNat

/-- One item of a pattern. -/
inductive Item where
  /-- a class on its own -/
  | one (p : Class)
  /-- `?` -/
  | opt (p : Class)
  /-- `*` -/
  | star (p : Class)
  /-- `+` -/
  | plus (p : Class)
  /-- `-` -/
  | lazy (p : Class)
  /-- `(` -/
  | openCapture
  /-- `)` -/
  | closeCapture
  /-- `$` at the end of the pattern -/
  | atEnd

/-- The suffixes of `s` that are left after `0, 1, …` bytes of `p`, shortest
stretch first. -/
def stretches (p : Class) : Str → List Str
  | [] => [[]]
  | c :: s => if p c then (c :: s) :: stretches p s else [c :: s]

/-- A literal text is a list of items. -/
def literal (text : List Char) : List Item := text.map fun d => .one (char d)

/-- Match the items at the start of `s`.  `opened` is the subject at the last
open parenthesis; captures are returned in the order they were closed. -/
def matchHere : List Item → Str → Str → List Str → Option (List Str)
  | [], _, _, captures => some captures
  | .atEnd :: rest, s, opened, captures =>
      if s = [] then matchHere rest s opened captures else none
  | .openCapture :: rest, s, _, captures => matchHere rest s s captures
  | .closeCapture :: rest, s, opened, captures =>
      matchHere rest s opened (captures ++ [opened.take (opened.length - s.length)])
  | .one p :: rest, s, opened, captures =>
      match s with
      | [] => none
      | c :: s' => if p c then matchHere rest s' opened captures else none
  | .opt p :: rest, s, opened, captures =>
      match s with
      | [] => matchHere rest s opened captures
      | c :: s' =>
          if p c then
            (matchHere rest s' opened captures).or (matchHere rest s opened captures)
          else matchHere rest s opened captures
  | .star p :: rest, s, opened, captures =>
      (stretches p s).reverse.findSome? fun s' => matchHere rest s' opened captures
  | .plus p :: rest, s, opened, captures =>
      match s with
      | [] => none
      | c :: s' =>
          if p c then
            (stretches p s').reverse.findSome? fun t => matchHere rest t opened captures
          else none
  | .lazy p :: rest, s, opened, captures =>
      (stretches p s).findSome? fun s' => matchHere rest s' opened captures

/-- `s:match( "^..." )`: the captures of the pattern at the start of `s`. -/
def matchAnchored (pattern : List Item) (s : Str) : Option (List Str) :=
  matchHere pattern s s []

/-- `s:match( "..." )`: the captures at the first position that matches. -/
def «match» (pattern : List Item) : Str → Option (List Str)
  | [] => matchAnchored pattern []
  | c :: s => (matchAnchored pattern (c :: s)).or («match» pattern s)

/-! ## Trying the stretches -/

@[simp] theorem findSome?_greedy_nil {α : Type} (p : Class) (f : Str → Option α) :
    (stretches p []).reverse.findSome? f = f [] := by
  simp [stretches]

/-- A greedy item gives back what it took last. -/
theorem findSome?_greedy_cons {α : Type} (p : Class) (f : Str → Option α) (c : UInt8) (s : Str) :
    (stretches p (c :: s)).reverse.findSome? f =
      if p c then ((stretches p s).reverse.findSome? f).or (f (c :: s)) else f (c :: s) := by
  rw [stretches]
  split
  · rw [List.reverse_cons, List.findSome?_append, List.findSome?_singleton]
  · rw [List.reverse_singleton, List.findSome?_singleton]

@[simp] theorem findSome?_lazy_nil {α : Type} (p : Class) (f : Str → Option α) :
    (stretches p []).findSome? f = f [] := by
  simp [stretches]

/-- A lazy item goes on when what follows it does not match. -/
theorem findSome?_lazy_cons {α : Type} (p : Class) (f : Str → Option α) (c : UInt8) (s : Str) :
    (stretches p (c :: s)).findSome? f =
      if p c then (f (c :: s)).or ((stretches p s).findSome? f) else f (c :: s) := by
  rw [stretches]
  split
  · rw [List.findSome?_cons]
    cases f (c :: s) with
    | none => rfl
    | some v => rfl
  · rw [List.findSome?_singleton]

/-- The only capture of a pattern with one. -/
def capture (result : Option (List Str)) : Option Str := result.bind List.head?

/-- The pattern matches if and only if there is a first capture, and this is it. -/
def Captures (result : Option (List Str)) : Option Str → Prop
  | none => result = none
  | some u => ∃ rest, result = some (u :: rest)

/-- The only capture of a match. -/
theorem Captures.capture_eq {result : Option (List Str)} {first : Option Str}
    (h : Captures result first) : capture result = first := by
  cases first with
  | none =>
      rw [show result = none from h]
      rfl
  | some u =>
      obtain ⟨rest, rfl⟩ := h
      rfl

/-- Where there are two ways to match, the second counts if the first finds nothing. -/
theorem Captures.or {result result' : Option (List Str)} {first first' : Option Str}
    (h : Captures result first) (h' : Captures result' first') :
    Captures (result.or result') (first.or first') := by
  cases first with
  | none =>
      rw [show result = none from h]
      exact h'
  | some u =>
      obtain ⟨rest, rfl⟩ := h
      exact ⟨rest, rfl⟩

/-- `([..]*)$` takes all of the subject, or nothing. -/
theorem captures_toEnd (p : Class) (opened s : Str) :
    Captures ((stretches p s).reverse.findSome? fun t =>
      matchHere [.closeCapture, .atEnd] t opened [])
      (if s.all p then some opened else none) := by
  induction s with
  | nil =>
      rw [findSome?_greedy_nil]
      refine ⟨[], ?_⟩
      rw [matchHere, matchHere, if_pos rfl, matchHere]
      simp
  | cons c s ih =>
      have hhere : matchHere [.closeCapture, .atEnd] (c :: s) opened [] = none := by
        rw [matchHere, matchHere, if_neg (List.cons_ne_nil c s)]
      rw [findSome?_greedy_cons, hhere, List.all_cons]
      cases p c with
      | false => exact rfl
      | true =>
          rw [if_pos rfl, Option.or_none, Bool.true_and]
          exact ih

/-! ## Runs and literal texts -/

/-- A greedy item keeps its longest stretch where the rest matches behind it. -/
theorem findSome?_longest {α : Type} (p : Class) (f : Str → Option α) {v : α} (s : Str)
    (h : f (s.dropWhile p) = some v) : (stretches p s).reverse.findSome? f = some v := by
  induction s with
  | nil =>
      rw [findSome?_greedy_nil]
      exact h
  | cons c s ih =>
      rw [findSome?_greedy_cons]
      cases hc : p c with
      | true =>
          rw [List.dropWhile_cons_of_pos hc] at h
          rw [if_pos rfl, ih h, Option.some_or]
      | false =>
          rw [List.dropWhile_cons_of_neg (by rw [hc]; exact Bool.false_ne_true)] at h
          rw [if_neg Bool.false_ne_true, h]

/-- And it gives nothing back where the rest matches nothing that starts in the class. -/
theorem findSome?_settled {α : Type} (p : Class) (f : Str → Option α)
    (h : ∀ c t, p c = true → f (c :: t) = none) (s : Str) :
    (stretches p s).reverse.findSome? f = f (s.dropWhile p) := by
  induction s with
  | nil => rw [findSome?_greedy_nil, List.dropWhile_nil]
  | cons c s ih =>
      rw [findSome?_greedy_cons]
      cases hc : p c with
      | true => rw [if_pos rfl, h c s hc, Option.or_none, ih, List.dropWhile_cons_of_pos hc]
      | false =>
          rw [if_neg Bool.false_ne_true,
            List.dropWhile_cons_of_neg (by rw [hc]; exact Bool.false_ne_true)]

/-- `^([..]+)` -/
theorem captures_start (p : Class) (s : Str) :
    Captures (matchAnchored [.openCapture, .plus p, .closeCapture] s)
      (if s.takeWhile p = [] then none else some (s.takeWhile p)) := by
  rw [matchAnchored, matchHere]
  cases s with
  | nil => exact rfl
  | cons c s =>
      rw [matchHere]
      cases hc : p c with
      | false =>
          rw [List.takeWhile_cons_of_neg (by rw [hc]; exact Bool.false_ne_true)]
          exact rfl
      | true =>
          rw [List.takeWhile_cons_of_pos hc, if_neg (List.cons_ne_nil _ _), if_pos rfl]
          refine ⟨[], ?_⟩
          apply findSome?_longest
          have hsplit : c :: s = (c :: s.takeWhile p) ++ s.dropWhile p := by
            rw [List.cons_append, List.takeWhile_append_dropWhile]
          have htake : (c :: s).take ((c :: s).length - (s.dropWhile p).length) =
              c :: s.takeWhile p := by
            rw [hsplit, List.length_append, Nat.add_sub_cancel, List.take_left]
          rw [matchHere, matchHere, htake]
          rfl

/-- The bytes of a literal text. -/
def bytes (text : List Char) : Str := text.map fun d => UInt8.ofNat d.toNat

/-- A literal part of a pattern matches the bytes it is made of, and nothing else. -/
theorem matchHere_literal (text : List Char) (rest : List Item) (s opened : Str)
    (captures : List Str) :
    matchHere (literal text ++ rest) s opened captures =
      if bytes text <+: s then matchHere rest (s.drop text.length) opened captures else none := by
  induction text generalizing s with
  | nil =>
      have hempty : bytes [] <+: s := List.nil_prefix
      rw [if_pos hempty]
      rfl
  | cons d text ih =>
      cases s with
      | nil =>
          have hnot : ¬ bytes (d :: text) <+: [] := by
            intro h
            exact absurd (List.prefix_nil.mp h) (List.cons_ne_nil _ _)
          rw [if_neg hnot]
          rfl
      | cons c s =>
          have hcons : bytes (d :: text) <+: c :: s ↔ char d c = true ∧ bytes text <+: s := by
            rw [bytes, List.map_cons, ← bytes, List.cons_prefix_cons, char, beq_iff_eq, eq_comm]
          show (if char d c = true then matchHere (literal text ++ rest) s opened captures
            else none) = _
          rw [ih, List.length_cons, List.drop_succ_cons]
          by_cases hc : char d c = true
          · simp [hc, hcons]
          · simp [hc, hcons]

/-- What stands behind a text, up to the end, where all of it is of the class. -/
def behind (text : Str) (p : Class) : Str → Option Str
  | [] => none
  | c :: s =>
      let rest := (c :: s).drop text.length
      if text <+: c :: s ∧ rest ≠ [] ∧ rest.all p = true then some rest else behind text p s

/-- `..([..]+)$`, behind a literal text. -/
theorem captures_behind (text : List Char) (htext : text ≠ []) (p : Class) (s : Str) :
    Captures («match» (literal text ++ [.openCapture, .plus p, .closeCapture, .atEnd]) s)
      (behind (bytes text) p s) := by
  have hhere : ∀ t, Captures
      (matchAnchored (literal text ++ [.openCapture, .plus p, .closeCapture, .atEnd]) t)
      (if bytes text <+: t ∧ t.drop text.length ≠ [] ∧ (t.drop text.length).all p = true
        then some (t.drop text.length) else none) := by
    intro t
    rw [matchAnchored, matchHere_literal]
    by_cases hpre : bytes text <+: t
    · rw [if_pos hpre, matchHere]
      cases hrest : t.drop text.length with
      | nil =>
          rw [if_neg fun h => h.2.1 rfl]
          exact rfl
      | cons c rest =>
          rw [matchHere, List.all_cons]
          cases hc : p c with
          | false =>
              have hnone : ¬ (bytes text <+: t ∧ c :: rest ≠ [] ∧
                  (false && rest.all p) = true) := fun h => Bool.false_ne_true h.2.2
              rw [if_neg hnone]
              exact rfl
          | true =>
              have hend := captures_toEnd p (c :: rest) rest
              simpa [hpre] using hend
    · rw [if_neg hpre, if_neg fun h => hpre h.1]
      exact rfl
  have hlen : (bytes text).length = text.length := List.length_map _
  induction s with
  | nil =>
      have hnil := hhere []
      have hnot : ¬ (bytes text <+: [] ∧ ([] : Str).drop text.length ≠ [] ∧
          (([] : Str).drop text.length).all p = true) := by
        rintro ⟨h, -⟩
        apply htext
        rw [← List.length_eq_zero_iff, ← hlen, List.prefix_nil.mp h, List.length_nil]
      rw [if_neg hnot] at hnil
      exact hnil
  | cons c s ih =>
      have hor := (hhere (c :: s)).or ih
      rw [«match», behind, hlen]
      split at hor
      case isTrue hcond =>
        rw [if_pos hcond]
        exact hor
      case isFalse hcond =>
        rw [if_neg hcond]
        exact hor

/-- Where the text does not end in the class there is one such end only. -/
theorem behind_eq_some_iff {init : Str} {d : UInt8} {p : Class} (hd : p d = false) {s u : Str} :
    behind (init ++ [d]) p s = some u ↔ u ≠ [] ∧ u.all p = true ∧ init ++ [d] ++ u <:+ s := by
  induction s with
  | nil =>
      apply iff_of_false
      · exact nofun
      · rintro ⟨-, -, h⟩
        simpa using List.suffix_nil.mp h
  | cons c s ih =>
      rw [behind]
      split
      case isTrue hcond =>
        obtain ⟨hpre, hne, hall⟩ := hcond
        have hsplit : c :: s = init ++ [d] ++ (c :: s).drop (init ++ [d]).length :=
          (List.prefix_iff_eq_append.mp hpre).symm
        generalize (c :: s).drop (init ++ [d]).length = u' at hsplit hne hall
        rw [Option.some_inj, hsplit]
        constructor
        · intro heq
          rw [← heq]
          exact ⟨hne, hall, List.suffix_rfl⟩
        · rintro ⟨-, -, hsuffix⟩
          by_contra hdiff
          have hlen : u.length < u'.length := by
            have hle := hsuffix.length_le
            simp only [List.length_append] at hle
            rcases Nat.lt_or_ge u.length u'.length with hlt | hge
            · exact hlt
            · have hsame : u.length = u'.length := by omega
              have heq := List.IsSuffix.eq_of_length hsuffix (by simp [hsame])
              exact absurd (List.append_cancel_left heq).symm hdiff
          -- so the end of the text stands among what is of the class
          have hshort : d :: u <:+ u' := by
            have hlong : d :: u <:+ init ++ [d] ++ u' := by
              refine List.IsSuffix.trans ?_ hsuffix
              rw [List.append_assoc]
              exact List.suffix_append init (d :: u)
            exact List.suffix_of_suffix_length_le hlong (List.suffix_append _ _) hlen
          have hmem : p d = true := List.all_eq_true.mp hall d (hshort.subset List.mem_cons_self)
          rw [hd] at hmem
          cases hmem
      case isFalse hcond =>
        rw [ih]
        refine and_congr_right fun hne => and_congr_right fun hall => ?_
        rw [List.suffix_cons_iff]
        constructor
        · exact Or.inr
        · rintro (heq | hsuffix)
          · exfalso
            apply hcond
            rw [← heq, List.drop_left]
            exact ⟨List.prefix_append _ _, hne, hall⟩
          · exact hsuffix

end LuadchAnnouncer.Verified.LuaPattern
