import Mathlib.Data.List.Infix

/-!
# Byte strings

A Lua string is a sequence of arbitrary bytes, so strings are `List UInt8`
here and no encoding is assumed anywhere.  The file holds the operations of
the Lua string and I/O libraries that are independent of patterns: plain
search, ASCII case folding, and cutting a text into lines.

`lines` is what iterating over an open text file yields.  Its one subtlety is
that the last line need not be terminated: `lines_append_line` says that
appending a terminated line to a text adds that line and nothing else, and
needs the text to be `Terminated` for it; `lines_append_open` says what
happens when it is not.
-/

namespace LuadchAnnouncer.Verified.Bytes

/-- A Lua string: any sequence of bytes. -/
abbrev Str := List UInt8

/-- The bytes of an ASCII literal. -/
def lit (s : String) : Str := s.toList.map fun c => UInt8.ofNat c.toNat

/-- Line feed. -/
def lf : UInt8 := 10

/-! ## Searching -/

/-- `s:find( p, 1, true )` as a truth value: `p` occurs somewhere in `s`. -/
def find (s p : Str) : Bool := decide (p <:+: s)

@[simp] theorem find_eq_true {s p : Str} : find s p = true ↔ p <:+: s := by
  simp [find]

/-- `tolower` of the C locale. -/
def lowerByte (c : UInt8) : UInt8 := if 65 ≤ c ∧ c ≤ 90 then c + 32 else c

/-- `s:lower()`. -/
def lower (s : Str) : Str := s.map lowerByte

/-! ## Lines -/

/-- The lines of a text, as a file iterator yields them: terminators are
dropped, and an unterminated rest counts as a line when it is not empty. -/
def lines : Str → List Str
  | [] => []
  | c :: s =>
      if c = lf then [] :: lines s
      else match lines s with
        | [] => [[c]]
        | l :: ls => (c :: l) :: ls

/-- The text is empty or ends in a line feed, so the next write to it starts
a line of its own. -/
def Terminated (s : Str) : Prop := s = [] ∨ s.getLast? = some lf

instance (s : Str) : Decidable (Terminated s) := by
  unfold Terminated
  infer_instance

@[simp] theorem lines_nil : lines [] = [] := rfl

@[simp] theorem lines_lf_cons (s : Str) : lines (lf :: s) = [] :: lines s := by
  simp [lines]

theorem lines_cons_of_ne {c : UInt8} {s : Str} (hc : c ≠ lf) :
    lines (c :: s) =
      match lines s with
      | [] => [[c]]
      | l :: ls => (c :: l) :: ls := by
  simp [lines, hc]

/-- A line feed always closes a line. -/
theorem lines_append_lf_ne_nil (s t : Str) : lines (s ++ lf :: t) ≠ [] := by
  cases s with
  | nil => simp
  | cons c s =>
      by_cases hc : c = lf
      · subst hc
        simp
      · rw [List.cons_append, lines_cons_of_ne hc]
        split <;> simp

/-- The first line of a text that starts with a whole line. -/
theorem lines_line_cons (l t : Str) (hl : lf ∉ l) :
    lines (l ++ lf :: t) = l :: lines t := by
  induction l with
  | nil => simp
  | cons c l ih =>
      have hc : c ≠ lf := fun h => hl (by simp [h])
      have hrest : lf ∉ l := fun h => hl (by simp [h])
      rw [List.cons_append, lines_cons_of_ne hc, ih hrest]

/-- A line without its terminator. -/
theorem lines_open_line (l : Str) (hl : lf ∉ l) (hne : l ≠ []) : lines l = [l] := by
  induction l with
  | nil => exact absurd rfl hne
  | cons c l ih =>
      have hc : c ≠ lf := fun h => hl (by simp [h])
      have hrest : lf ∉ l := fun h => hl (by simp [h])
      rw [lines_cons_of_ne hc]
      cases l with
      | nil => rfl
      | cons d l => rw [ih hrest (by simp)]

/-- Texts are cut independently on the two sides of a line feed. -/
theorem lines_append_lf (s t : Str) :
    lines (s ++ lf :: t) = lines (s ++ [lf]) ++ lines t := by
  induction s with
  | nil => simp
  | cons c s ih =>
      by_cases hc : c = lf
      · subst hc
        simp [ih]
      · rw [List.cons_append, List.cons_append, lines_cons_of_ne hc,
          lines_cons_of_ne hc, ih]
        cases h : lines (s ++ [lf]) with
        | nil => exact absurd h (lines_append_lf_ne_nil s [])
        | cons l ls => simp

/-- Closing an already terminated text's next line: `l` is added, and every
line that was there stays. -/
theorem lines_append_line (s l : Str) (hs : Terminated s) (hl : lf ∉ l) :
    lines (s ++ (l ++ [lf])) = lines s ++ [l] := by
  rcases hs with rfl | hlast
  · simpa using lines_line_cons l [] hl
  · obtain ⟨init, rfl⟩ : ∃ init, s = init ++ [lf] := by
      obtain ⟨init, h⟩ := List.getLast?_eq_some_iff.mp hlast
      exact ⟨init, h⟩
    rw [List.append_assoc, List.singleton_append, lines_append_lf,
      lines_line_cons l [] hl]
    simp

/-- A text splits into whole lines and an unterminated rest. -/
theorem exists_terminated_append (s : Str) :
    ∃ init rest, s = init ++ rest ∧ Terminated init ∧ lf ∉ rest := by
  induction s with
  | nil => exact ⟨[], [], rfl, Or.inl rfl, by simp⟩
  | cons c s ih =>
      obtain ⟨init, rest, rfl, hinit, hrest⟩ := ih
      by_cases hc : c = lf
      · refine ⟨c :: init, rest, rfl, Or.inr ?_, hrest⟩
        rcases hinit with rfl | hlast
        · simp [hc]
        · rw [List.getLast?_cons, hlast]
          rfl
      · rcases hinit with rfl | hlast
        · exact ⟨[], c :: rest, rfl, Or.inl rfl, by simp [Ne.symm hc, hrest]⟩
        · refine ⟨c :: init, rest, rfl, Or.inr ?_, hrest⟩
          rw [List.getLast?_cons, hlast]
          rfl

/-- Behind a last line feed, a text without one is a line more. -/
theorem lines_append_open (s l : Str) (hs : Terminated s) (hl : lf ∉ l)
    (hne : l ≠ []) : lines (s ++ l) = lines s ++ [l] := by
  rcases hs with rfl | hlast
  · simpa using lines_open_line l hl hne
  · obtain ⟨init, rfl⟩ : ∃ init, s = init ++ [lf] := by
      obtain ⟨init, h⟩ := List.getLast?_eq_some_iff.mp hlast
      exact ⟨init, h⟩
    rw [List.append_assoc, List.singleton_append, lines_append_lf,
      lines_open_line l hl hne]

/-- No line contains a line feed. -/
theorem lf_notMem_of_mem_lines (s l : Str) (h : l ∈ lines s) : lf ∉ l := by
  induction s generalizing l with
  | nil => simp at h
  | cons c s ih =>
      by_cases hc : c = lf
      · subst hc
        rw [lines_lf_cons, List.mem_cons] at h
        rcases h with rfl | h
        · simp
        · exact ih l h
      · rw [lines_cons_of_ne hc] at h
        cases hls : lines s with
        | nil =>
            rw [hls] at h
            simp only [List.mem_singleton] at h
            subst h
            simp [Ne.symm hc]
        | cons k ks =>
            rw [hls] at h
            simp only [List.mem_cons] at h
            rcases h with rfl | h
            · have hk := ih k (by simp [hls])
              simp [Ne.symm hc, hk]
            · exact ih l (by simp [hls, h])

theorem terminated_append_lf (s : Str) : Terminated (s ++ [lf]) :=
  Or.inr (by simp)

end LuadchAnnouncer.Verified.Bytes
