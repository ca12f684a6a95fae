import Mathlib.Data.List.Basic

/-!
# Lists in pieces

`chunks w` cuts a list into pieces of `w` elements, of which the last may be
shorter.  A list that is a multiple of `w` long is the same as the list of its
pieces; for other lists the pieces of the two halves of a list are known where
the first half ends at a piece.
-/

namespace LuadchAnnouncer.Verified.Chunks

variable {α β : Type}

def chunks (w : Nat) (xs : List α) : List (List α) :=
  if _cut : 0 < w ∧ xs ≠ [] then xs.take w :: chunks w (xs.drop w) else []
termination_by xs.length
decreasing_by
  have hpos : 0 < xs.length := List.length_pos_iff.mpr _cut.2
  rw [List.length_drop]
  omega

@[simp] theorem chunks_nil (w : Nat) : chunks w ([] : List α) = [] := by
  rw [chunks]
  simp

theorem chunks_of_ne {w : Nat} (hw : 0 < w) {xs : List α} (hne : xs ≠ []) :
    chunks w xs = xs.take w :: chunks w (xs.drop w) := by
  rw [chunks, dif_pos ⟨hw, hne⟩]

/-- A list that fits one piece. -/
theorem chunks_short {w : Nat} {xs : List α} (hne : xs ≠ []) (hle : xs.length ≤ w) :
    chunks w xs = [xs] := by
  have hpos : 0 < xs.length := List.length_pos_iff.mpr hne
  rw [chunks_of_ne (by omega) hne, List.take_of_length_le hle, List.drop_eq_nil_of_le hle,
    chunks_nil]

/-- A first chunk that is whole. -/
theorem chunks_cons {w : Nat} (hw : 0 < w) {c : List α} (hc : c.length = w) (xs : List α) :
    chunks w (c ++ xs) = c :: chunks w xs := by
  have hne : c ++ xs ≠ [] := by
    intro h
    have hnil : c = [] := (List.append_eq_nil_iff.mp h).1
    rw [hnil, List.length_nil] at hc
    omega
  rw [chunks_of_ne hw hne, List.take_left' hc, List.drop_left' hc]

/-- Nothing is lost by cutting a list into chunks. -/
theorem flatten_chunks {w : Nat} (hw : 0 < w) (xs : List α) : (chunks w xs).flatten = xs := by
  induction xs using chunks.induct w with
  | case1 xs hcut ih => rw [chunks_of_ne hw hcut.2, List.flatten_cons, ih, List.take_append_drop]
  | case2 xs hcut =>
      have hnil : xs = [] := by
        by_contra hne
        exact hcut ⟨hw, hne⟩
      rw [hnil, chunks_nil]
      rfl

/-- Pieces that are put together are the pieces of what they make. -/
theorem chunks_flatten {w : Nat} (hw : 0 < w) {cs : List (List α)}
    (hcs : ∀ c ∈ cs, c.length = w) : chunks w cs.flatten = cs := by
  induction cs with
  | nil => simp
  | cons c cs ih =>
      have hc : c.length = w := hcs c (by simp)
      have hrest : ∀ d ∈ cs, d.length = w := by
        intro d hd
        exact hcs d (by simp [hd])
      rw [List.flatten_cons, chunks_cons hw hc, ih hrest]

/-- Where the first half ends at a piece, the halves are cut on their own. -/
theorem chunks_append {w : Nat} (hw : 0 < w) {xs : List α} (hxs : w ∣ xs.length)
    (ys : List α) : chunks w (xs ++ ys) = chunks w xs ++ chunks w ys := by
  obtain ⟨n, hn⟩ := hxs
  induction n generalizing xs with
  | zero =>
      have hnil : xs = [] := List.length_eq_zero_iff.mp (by omega)
      rw [hnil, chunks_nil]
      rfl
  | succ n ih =>
      have hlen : xs.length = w + w * n := by
        rw [hn, Nat.mul_succ, Nat.add_comm]
      have hne : xs ≠ [] := List.length_pos_iff.mp (by omega)
      have htake : (xs.take w).length = w := by
        rw [List.length_take]
        omega
      have hdrop : (xs.drop w).length = w * n := by
        rw [List.length_drop]
        omega
      have hsplit : xs ++ ys = xs.take w ++ (xs.drop w ++ ys) := by
        rw [← List.append_assoc, List.take_append_drop]
      rw [hsplit, chunks_cons hw htake, ih hdrop, chunks_of_ne hw hne, List.cons_append]

/-- A function of the elements may be applied before or after. -/
theorem chunks_map (w : Nat) (f : α → β) (xs : List α) :
    chunks w (xs.map f) = (chunks w xs).map (List.map f) := by
  induction xs using chunks.induct w with
  | case1 xs hcut ih =>
      have hne : xs.map f ≠ [] := by
        rw [ne_eq, List.map_eq_nil_iff]
        exact hcut.2
      rw [chunks_of_ne hcut.1 hne, chunks_of_ne hcut.1 hcut.2, List.map_cons, List.map_take,
        ← ih, List.map_drop]
  | case2 xs hcut =>
      have hcut' : ¬(0 < w ∧ xs.map f ≠ []) := by
        rw [ne_eq, List.map_eq_nil_iff]
        exact hcut
      rw [chunks, dif_neg hcut', chunks, dif_neg hcut]
      rfl

/-- No chunk is longer than asked for. -/
theorem length_le_of_mem_chunks {w : Nat} {xs c : List α} (hc : c ∈ chunks w xs) :
    c.length ≤ w := by
  induction xs using chunks.induct w with
  | case1 xs hcut ih =>
      rw [chunks_of_ne hcut.1 hcut.2, List.mem_cons] at hc
      rcases hc with hhead | htail
      · rw [hhead]
        exact List.length_take_le w xs
      · exact ih htail
  | case2 xs hcut =>
      rw [chunks, dif_neg hcut] at hc
      cases hc

/-- And where the length divides, all of them are as long as that. -/
theorem length_of_mem_chunks {w : Nat} (hw : 0 < w) {xs : List α} (hxs : w ∣ xs.length) :
    ∀ c ∈ chunks w xs, c.length = w := by
  obtain ⟨n, hn⟩ := hxs
  induction n generalizing xs with
  | zero =>
      have hnil : xs = [] := List.length_eq_zero_iff.mp (by omega)
      simp [hnil]
  | succ n ih =>
      have hlen : xs.length = w + w * n := by
        rw [hn, Nat.mul_succ, Nat.add_comm]
      have hne : xs ≠ [] := List.length_pos_iff.mp (by omega)
      have hdrop : (xs.drop w).length = w * n := by
        rw [List.length_drop]
        omega
      intro c hc
      rw [chunks_of_ne hw hne, List.mem_cons] at hc
      rcases hc with hhead | htail
      · rw [hhead, List.length_take]
        omega
      · exact ih hdrop c htail

/-- So their number is the quotient. -/
theorem length_chunks {w : Nat} (hw : 0 < w) {xs : List α} (hxs : w ∣ xs.length) :
    w * (chunks w xs).length = xs.length := by
  have hsum : (chunks w xs).flatten.length = ((chunks w xs).map fun _ => w).sum := by
    rw [List.length_flatten]
    apply congrArg
    apply List.map_congr_left
    exact length_of_mem_chunks hw hxs
  rw [flatten_chunks hw] at hsum
  rw [hsum, List.map_const', List.sum_replicate_nat, Nat.mul_comm]

/-- A list up to the end of its last whole piece, and the rest. -/
theorem exists_whole (w : Nat) (xs : List α) :
    ∃ front rest, xs = front ++ rest ∧ w ∣ front.length ∧ rest.length = xs.length % w := by
  refine ⟨xs.take (xs.length - xs.length % w), xs.drop (xs.length - xs.length % w),
    (List.take_append_drop _ xs).symm, ?_, ?_⟩
  · have hmod : xs.length % w ≤ xs.length := Nat.mod_le _ _
    rw [List.length_take, Nat.min_eq_left (by omega)]
    exact Nat.dvd_sub_mod xs.length
  · have hmod : xs.length % w ≤ xs.length := Nat.mod_le _ _
    rw [List.length_drop]
    omega

end LuadchAnnouncer.Verified.Chunks
