import LuadchAnnouncer.Core.Announce
import LuadchAnnouncer.Verified.LuaLiteral

/-!
# The test on the name of a day directory

`isDaydir_eq` says in closed form what the loop of a rule with `daydirscheme` makes of
a name: it passes over what `tonumber` does not read, and of the rest it judges the
first four digits in a row that stand anywhere in it.  Where there are none it compares
what the pattern has not captured.

## Main results

* `match_eq_firstRun` — the pattern of four captures finds the first four digits in a
  row.
* `isDaydir_eq` — the loop body on a name.
* `isDayName_iff` — which names are `MMDD`.
-/

namespace LuadchAnnouncer.Core.AnnounceScheme

open LuadchAnnouncer.Verified.Bytes
open LuadchAnnouncer.Verified.LuaValue
open LuadchAnnouncer.Verified.LuaPattern (digit matchAnchored matchHere)
open LuadchAnnouncer.Verified.LuaLiteral (numeral ofStr_digits)
open LuadchAnnouncer.Core.Announce

/-! ## Four digits -/

/-- Four decimal digits. -/
def isRun (s : Str) : Bool := s.length == 4 && s.all digit

/-- The first four digits in a row. -/
def firstRun : Str → Option Str
  | [] => none
  | c :: s => if isRun ((c :: s).take 4) then some ((c :: s).take 4) else firstRun s

def month (run : Str) : Nat := LuaNum.digitsValue 10 (run.take 2)

def day (run : Str) : Nat := LuaNum.digitsValue 10 (run.drop 2)

/-- `01` to `12`, then `01` to `31`. -/
def isDate (run : Str) : Bool :=
  decide (1 ≤ month run ∧ month run ≤ 12 ∧ 1 ≤ day run ∧ day run ≤ 31)

/-- `MMDD` -/
def isDayName (dir : Str) : Bool := isRun dir && isDate dir

theorem firstRun_cons (c : UInt8) (s : Str) :
    firstRun (c :: s) = if isRun ((c :: s).take 4) then some ((c :: s).take 4) else firstRun s :=
  rfl

/-- What the pattern finds is four digits. -/
theorem isRun_of_firstRun {s run : Str} (h : firstRun s = some run) : isRun run = true := by
  induction s with
  | nil => cases h
  | cons c s ih =>
      rw [firstRun_cons] at h
      by_cases hhere : isRun ((c :: s).take 4) = true
      · rw [if_pos hhere, Option.some.injEq] at h
        rw [← h]
        exact hhere
      · rw [if_neg hhere] at h
        exact ih h

/-- Four digits are found at once. -/
theorem firstRun_of_isRun {s : Str} (h : isRun s = true) : firstRun s = some s := by
  have hlength : s.length = 4 := by
    unfold isRun at h
    rw [Bool.and_eq_true, beq_iff_eq] at h
    exact h.1
  cases s with
  | nil => cases hlength
  | cons c s =>
      have htake : (c :: s).take 4 = c :: s := List.take_of_length_le (by omega)
      rw [firstRun_cons, htake, if_pos h]

/-- A name has four digits in a row just if the search for them comes upon some. -/
theorem firstRun_isSome_iff {s : Str} :
    (firstRun s).isSome = true ↔ ∃ run, run <:+: s ∧ isRun run = true := by
  induction s with
  | nil =>
      apply iff_of_false
      · intro h
        cases h
      · intro h
        obtain ⟨run, hinfix, hrun⟩ := h
        rw [List.infix_nil.mp hinfix] at hrun
        cases hrun
  | cons c s ih =>
      rw [firstRun_cons]
      by_cases hhere : isRun ((c :: s).take 4) = true
      · rw [if_pos hhere]
        exact iff_of_true rfl ⟨_, (List.take_prefix 4 (c :: s)).isInfix, hhere⟩
      · rw [if_neg hhere, ih]
        apply exists_congr
        intro run
        apply and_congr_left
        intro hrun
        rw [List.infix_cons_iff, or_iff_right]
        intro hprefix
        unfold isRun at hrun
        rw [Bool.and_eq_true, beq_iff_eq] at hrun
        have htake := List.prefix_iff_eq_take.mp hprefix
        rw [hrun.1] at htake
        rw [← htake] at hhere
        exact hhere (by unfold isRun; rw [hrun.1, hrun.2]; rfl)

/-- `"(%d%d)(%d%d)"` at the start of a text. -/
theorem matchAnchored_daydir (s : Str) :
    matchAnchored daydirPattern s =
      match s with
      | a :: b :: c :: d :: _ =>
          if digit a && digit b && digit c && digit d then some [[a, b], [c, d]] else none
      | _ => none := by
  unfold matchAnchored daydirPattern
  rcases s with _ | ⟨a, _ | ⟨b, _ | ⟨c, _ | ⟨d, s⟩⟩⟩⟩
  · rfl
  · simp [matchHere]
  · simp [matchHere]
  · simp [matchHere]
  · have htwo : s.length + 1 + 1 + 1 + 1 - (s.length + 1 + 1) = 2 := by omega
    have htwo' : s.length + 1 + 1 - s.length = 2 := by omega
    cases hab : digit a && digit b with
    | false =>
        cases ha : digit a with
        | false => simp [matchHere, ha]
        | true =>
            have hb : digit b = false := by simpa [ha] using hab
            simp [matchHere, ha, hb]
    | true =>
        obtain ⟨ha, hb⟩ := Bool.and_eq_true_iff.mp hab
        cases hc : digit c with
        | false => simp [matchHere, ha, hb, hc]
        | true => simp [matchHere, ha, hb, hc, htwo, htwo']

/-- At one place of the name the pattern takes the next four bytes if they are digits, in
two halves. -/
theorem matchAnchored_run (s : Str) :
    matchAnchored daydirPattern s =
      if isRun (s.take 4) then some [(s.take 4).take 2, (s.take 4).drop 2] else none := by
  rw [matchAnchored_daydir]
  rcases s with _ | ⟨a, _ | ⟨b, _ | ⟨c, _ | ⟨d, s⟩⟩⟩⟩
  · rfl
  · rfl
  · rfl
  · rfl
  · simp [isRun, and_assoc]

/-- `"(%d%d)(%d%d)"` is not anchored. -/
theorem match_eq_firstRun (s : Str) :
    LuadchAnnouncer.Verified.LuaPattern.match daydirPattern s =
      (firstRun s).map fun run => [run.take 2, run.drop 2] := by
  induction s with
  | nil => rfl
  | cons c s ih =>
      rw [LuadchAnnouncer.Verified.LuaPattern.match, matchAnchored_run, ih, firstRun_cons]
      by_cases hhere : isRun ((c :: s).take 4) = true
      · rw [if_pos hhere, if_pos hhere]
        rfl
      · rw [if_neg hhere, if_neg hhere]
        rfl

/-! ## The test on a name -/

/-- A decimal digit is at most nine. -/
theorem hexValue_le {c : UInt8} (h : digit c = true) : (LuaNum.hexValue c).getD 0 ≤ 9 := by
  unfold digit at h
  rw [Bool.and_eq_true, decide_eq_true_eq, decide_eq_true_eq] at h
  have hhigh : c.toNat ≤ 57 := UInt8.le_iff_toNat_le.mp h.2
  unfold LuaNum.hexValue
  rw [if_pos h, Option.getD_some]
  omega

/-- Two digits are the number they stand for. -/
theorem checkNumberBetween_digits {s : Str} (hlength : s.length = 2)
    (h : ∀ c ∈ s, digit c = true) (mini maxi : Nat) :
    checkNumberBetween (some s) mini maxi =
      .ok (decide (mini ≤ LuaNum.digitsValue 10 s ∧ LuaNum.digitsValue 10 s ≤ maxi)) := by
  obtain ⟨c, d, rfl⟩ := List.length_eq_two.mp hlength
  have hvalue : LuaNum.digitsValue 10 [c, d] =
      10 * (LuaNum.hexValue c).getD 0 + (LuaNum.hexValue d).getD 0 := by
    simp [LuaNum.digitsValue]
  have hc := hexValue_le (h c (by simp))
  have hd := hexValue_le (h d (by simp))
  have hnumeral : numeral (LuaNum.digitsValue 10 [c, d]) =
      .int (LuaNum.digitsValue 10 [c, d] : Nat) := by
    unfold numeral
    rw [if_pos (by omega)]
  unfold checkNumberBetween
  rw [Option.bind_some, ofStr_digits (List.cons_ne_nil c [d]) h, hnumeral]
  show Except.ok (decide ((mini : Int) ≤ _) && decide (_ ≤ (maxi : Int))) = _
  rw [← Bool.decide_and]
  exact congrArg Except.ok (decide_eq_decide.mpr (by omega))

/-- The test of the code in its own terms: a name that is no number is no day, and otherwise
the first four digits in a row decide, without which it raises. -/
theorem isDaydir_eq (dir : Str) :
    isDaydir dir =
      if LuaNum.ofStr dir = none then .ok false
      else (firstRun dir).elim (.error .compare) fun run => .ok (isDate run) := by
  unfold isDaydir
  cases LuaNum.ofStr dir with
  | none => rfl
  | some n =>
      rw [if_neg (by simp), match_eq_firstRun]
      cases hrun : firstRun dir with
      | none => rfl
      | some run =>
          have hshape := isRun_of_firstRun hrun
          unfold isRun at hshape
          rw [Bool.and_eq_true, beq_iff_eq, List.all_eq_true] at hshape
          have hmonth := checkNumberBetween_digits (s := run.take 2)
            (by rw [List.length_take]; omega)
            (fun c hc => hshape.2 c (List.mem_of_mem_take hc)) 1 12
          have hday := checkNumberBetween_digits (s := run.drop 2)
            (by rw [List.length_drop]; omega)
            (fun c hc => hshape.2 c (List.mem_of_mem_drop hc)) 1 31
          show (checkNumberBetween (some (run.drop 2)) (1 : Nat) (31 : Nat) >>= fun accept =>
            if accept = true then checkNumberBetween (some (run.take 2)) (1 : Nat) (12 : Nat)
            else pure false) = .ok (isDate run)
          have hdate : isDate run =
              (decide (1 ≤ day run ∧ day run ≤ 31) && decide (1 ≤ month run ∧ month run ≤ 12)) := by
            rw [← Bool.decide_and]
            exact decide_eq_decide.mpr (by omega)
          rw [hday, hmonth, hdate]
          show (if decide (1 ≤ day run ∧ day run ≤ 31) = true then
            Except.ok (decide (1 ≤ month run ∧ month run ≤ 12)) else .ok false) = _
          cases decide (1 ≤ day run ∧ day run ≤ 31) with
          | true => rfl
          | false => rfl

/-- A day is a name that is its own first run of digits and a date. -/
theorem isDayName_iff {dir : Str} :
    isDayName dir = true ↔ firstRun dir = some dir ∧ isDate dir = true := by
  unfold isDayName
  rw [Bool.and_eq_true]
  constructor
  · intro h
    exact ⟨firstRun_of_isRun h.1, h.2⟩
  · intro h
    exact ⟨isRun_of_firstRun h.1, h.2⟩

/-- `MMDD` is a number too. -/
theorem ofStr_of_isRun {dir : Str} (h : isRun dir = true) : LuaNum.ofStr dir ≠ none := by
  unfold isRun at h
  rw [Bool.and_eq_true, beq_iff_eq, List.all_eq_true] at h
  have hne : dir ≠ [] := List.ne_nil_of_length_pos (by omega)
  rw [ofStr_digits hne h.2]
  exact Option.some_ne_none _

end LuadchAnnouncer.Core.AnnounceScheme
