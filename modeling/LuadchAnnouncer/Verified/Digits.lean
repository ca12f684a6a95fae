import Mathlib.Tactic.Ring
import LuadchAnnouncer.Verified.Chunks

/-!
# Numbers in digits, and digits in groups

`digits b w v` writes `v` with `w` digits to the base `b`, the most significant
first, and `number b` reads such a list.  A text encoding of bytes cuts the
digits of the bytes into groups of another width, and fills up the last group
with zeros: `regroup` does that, and `ungroup` goes back, leaving out the digits
that do not make a whole byte any more.

`ungroup_regroup` says that nothing is lost as long as the groups are not wider
than the bytes.

## Main results

* `number_digits`, `digits_number` — numbers below a power of the base, and lists of
  digits.
* `digits_fill` — a list that is filled up with zeros.
* `ungroup_regroup` — digits in groups, there and back.
-/

namespace LuadchAnnouncer.Verified.Digits

open LuadchAnnouncer.Verified.Chunks

def digits (b : Nat) : Nat → Nat → List Nat
  | 0, _ => []
  | w + 1, v => v / b ^ w % b :: digits b w v

def number (b : Nat) : List Nat → Nat
  | [] => 0
  | d :: ds => d * b ^ ds.length + number b ds

/-- The elements of the list are digits to the base `b`. -/
def Small (b : Nat) (ds : List Nat) : Prop := ∀ d ∈ ds, d < b

variable {b : Nat}

theorem small_nil (b : Nat) : Small b [] := by
  intro d hd
  cases hd

/-- One more digit in front. -/
theorem Small.cons {d : Nat} {ds : List Nat} (hd : d < b) (hds : Small b ds) :
    Small b (d :: ds) := by
  intro e he
  rcases List.mem_cons.mp he with hhead | htail
  · rw [hhead]
    exact hd
  · exact hds e htail

theorem Small.append {ds es : List Nat} (hds : Small b ds) (hes : Small b es) :
    Small b (ds ++ es) := by
  intro d hd
  rcases List.mem_append.mp hd with hleft | hright
  · exact hds d hleft
  · exact hes d hright

theorem Small.of_subset {ds es : List Nat} (hes : Small b es) (hsub : ds ⊆ es) : Small b ds :=
  fun d hd => hes d (hsub hd)

theorem Small.take {ds : List Nat} (hds : Small b ds) (n : Nat) : Small b (ds.take n) :=
  hds.of_subset (List.take_subset n ds)

theorem Small.drop {ds : List Nat} (hds : Small b ds) (n : Nat) : Small b (ds.drop n) :=
  hds.of_subset (List.drop_subset n ds)

theorem small_replicate_zero (hb : 0 < b) (n : Nat) : Small b (List.replicate n 0) := by
  intro d hd
  rw [List.eq_of_mem_replicate hd]
  exact hb

theorem small_flatMap {α : Type} {xs : List α} {f : α → List Nat} (hf : ∀ x ∈ xs, Small b (f x)) :
    Small b (xs.flatMap f) := by
  intro d hd
  obtain ⟨x, hx, hdx⟩ := List.mem_flatMap.mp hd
  exact hf x hx d hdx

/-! ## Reading and writing numbers -/

@[simp] theorem length_digits (b w v : Nat) : (digits b w v).length = w := by
  induction w with
  | zero => rfl
  | succ w ih => rw [digits, List.length_cons, ih]

/-- The digits of a number are digits. -/
theorem small_digits (hb : 0 < b) (w v : Nat) : Small b (digits b w v) := by
  induction w with
  | zero => exact small_nil b
  | succ w ih => exact Small.cons (Nat.mod_lt _ hb) ih

/-- The number of two lists of digits behind each other: the first is shifted by the length
of the second. -/
theorem number_append (ds es : List Nat) :
    number b (ds ++ es) = number b ds * b ^ es.length + number b es := by
  induction ds with
  | nil => simp [number]
  | cons d ds ih =>
      rw [List.cons_append, number, number, ih, List.length_append, Nat.pow_add]
      ring

theorem number_singleton (d : Nat) : number b [d] = d := by
  simp [number]

/-- One more digit at the end. -/
theorem number_concat (ds : List Nat) (d : Nat) :
    number b (ds ++ [d]) = number b ds * b + d := by
  rw [number_append, number_singleton, List.length_singleton, Nat.pow_one]

theorem number_replicate_zero (n : Nat) : number b (List.replicate n 0) = 0 := by
  induction n with
  | zero => rfl
  | succ n ih => rw [List.replicate_succ, number, ih, Nat.zero_mul]

/-- A number of so many digits is less than that power of the base. -/
theorem number_lt {ds : List Nat} (hds : Small b ds) : number b ds < b ^ ds.length := by
  induction ds with
  | nil => simp [number]
  | cons d ds ih =>
      have hd : d < b := hds d (by simp)
      have hrest : number b ds < b ^ ds.length := ih (hds.of_subset (by simp))
      have hstep : (d + 1) * b ^ ds.length ≤ b * b ^ ds.length := Nat.mul_le_mul_right _ hd
      rw [number, List.length_cons, Nat.pow_succ']
      rw [Nat.succ_mul] at hstep
      omega

/-- And make the number again, as far as there are enough of them. -/
theorem number_digits (b w v : Nat) : number b (digits b w v) = v % b ^ w := by
  induction w with
  | zero =>
      rw [digits, number, Nat.pow_zero, Nat.mod_one]
  | succ w ih =>
      rw [digits, number, length_digits, ih, Nat.pow_succ, Nat.mod_mul, Nat.mul_comm, Nat.add_comm]

/-- Only the part of the number below `b ^ w` is written. -/
theorem digits_add_mul (hb : 0 < b) (w u v : Nat) :
    digits b w (u * b ^ w + v) = digits b w v := by
  induction w generalizing u with
  | zero => rfl
  | succ w ih =>
      have hsplit : u * b ^ (w + 1) + v = u * b * b ^ w + v := by
        rw [Nat.pow_succ]
        ring
      have hhead : (u * b * b ^ w + v) / b ^ w % b = v / b ^ w % b := by
        rw [Nat.add_comm, Nat.add_mul_div_right _ _ (Nat.pow_pos hb), Nat.add_mul_mod_self_right]
      rw [digits, digits, hsplit, hhead, ih]

/-- The digits of a number are those it was made of.  With `number_digits` this is the
bijection. -/
theorem digits_number {ds : List Nat} (hds : Small b ds) :
    digits b ds.length (number b ds) = ds := by
  induction ds with
  | nil => rfl
  | cons d ds ih =>
      have hd : d < b := hds d (by simp)
      have hb : 0 < b := by omega
      have hrest : Small b ds := hds.of_subset (by simp)
      have hhead : (d * b ^ ds.length + number b ds) / b ^ ds.length % b = d := by
        rw [Nat.add_comm, Nat.add_mul_div_right _ _ (Nat.pow_pos hb),
          Nat.div_eq_of_lt (number_lt hrest), Nat.zero_add, Nat.mod_eq_of_lt hd]
      rw [List.length_cons, digits, number, hhead, digits_add_mul hb, ih hrest]

/-- The number of a list, written with the digits of the list. -/
theorem digits_of_number {ds : List Nat} (hds : Small b ds) {w : Nat} (hw : ds.length = w) :
    digits b w (number b ds) = ds := by
  rw [← hw]
  exact digits_number hds

theorem number_of_digits {w v : Nat} (hv : v < b ^ w) : number b (digits b w v) = v := by
  rw [number_digits, Nat.mod_eq_of_lt hv]

/-- The digits of a number, in two parts. -/
theorem digits_add (b m n v : Nat) :
    digits b (m + n) v = digits b m (v / b ^ n) ++ digits b n v := by
  induction m with
  | zero =>
      rw [Nat.zero_add]
      rfl
  | succ m ih =>
      rw [Nat.succ_add, digits, ih, digits, List.cons_append, Nat.div_div_eq_div_mul,
        ← Nat.pow_add, Nat.add_comm n m]

/-- The last digit is the remainder. -/
theorem digits_succ_last (b w v : Nat) :
    digits b (w + 1) v = digits b w (v / b) ++ [v % b] := by
  have hlast : digits b 1 v = [v % b] := by
    simp [digits]
  rw [digits_add, Nat.pow_one, hlast]

theorem digits_zero (b w : Nat) : digits b w 0 = List.replicate w 0 := by
  induction w with
  | zero => rfl
  | succ w ih => rw [digits, ih, Nat.zero_div, Nat.zero_mod, List.replicate_succ]

/-! ## Groups -/

/-- A group, filled up with zeros. -/
def fill (w : Nat) (ds : List Nat) : List Nat := ds ++ List.replicate (w - ds.length) 0

/-- The digits in groups of `w`, each of them read as a number. -/
def regroup (b w : Nat) (ds : List Nat) : List Nat :=
  (chunks w ds).map fun c => number b (fill w c)

/-- The digits of groups of `w`, read in whole pieces of `v`. -/
def ungroup (b w v : Nat) (gs : List Nat) : List Nat :=
  let ds := gs.flatMap (digits b w)
  (chunks v (ds.take (ds.length - ds.length % v))).map (number b)

/-- How many zeros there are behind `n` digits in groups of `w`. -/
def missing (w n : Nat) : Nat := (w - n % w) % w

theorem missing_lt {w : Nat} (hw : 0 < w) (n : Nat) : missing w n < w := Nat.mod_lt _ hw

/-- Whole groups do not change what is missing from the last one. -/
theorem missing_add {w m : Nat} (h : w ∣ m) (n : Nat) : missing w (m + n) = missing w n := by
  obtain ⟨k, rfl⟩ := h
  rw [missing, missing, Nat.mul_add_mod]

/-- The last group, if it is not a whole one. -/
theorem missing_of_lt {w n : Nat} (hpos : 0 < n) (hlt : n < w) : missing w n = w - n := by
  rw [missing, Nat.mod_eq_of_lt hlt, Nat.mod_eq_of_lt (by omega)]

@[simp] theorem length_fill {w : Nat} {ds : List Nat} (h : ds.length ≤ w) :
    (fill w ds).length = w := by
  rw [fill, List.length_append, List.length_replicate]
  omega

theorem fill_eq {w : Nat} {ds : List Nat} (h : ds.length = w) : fill w ds = ds := by
  rw [fill, h, Nat.sub_self, List.replicate_zero, List.append_nil]

theorem small_fill (hb : 0 < b) {w : Nat} {ds : List Nat} (hds : Small b ds) :
    Small b (fill w ds) :=
  hds.append (small_replicate_zero hb _)

/-- A list that is filled up with zeros, as the number it is and back. -/
theorem digits_fill (hb : 0 < b) {w : Nat} {ds : List Nat} (hds : Small b ds)
    (hle : ds.length ≤ w) : digits b w (number b (fill w ds)) = fill w ds :=
  digits_of_number (small_fill hb hds) (length_fill hle)

theorem regroup_nil (b w : Nat) : regroup b w [] = [] := by
  simp [regroup]

/-- A short group is filled up, and is one digit. -/
theorem regroup_short {w : Nat} {ds : List Nat} (hne : ds ≠ []) (hle : ds.length ≤ w) :
    regroup b w ds = [number b (fill w ds)] := by
  rw [regroup, chunks_short hne hle]
  rfl

/-- A whole group in front is a digit of its own. -/
theorem regroup_cons {w : Nat} (hw : 0 < w) {c : List Nat} (hc : c.length = w) (ds : List Nat) :
    regroup b w (c ++ ds) = number b c :: regroup b w ds := by
  rw [regroup, chunks_cons hw hc, List.map_cons, fill_eq hc]
  rfl

/-- Behind whole groups, the rest is regrouped by itself. -/
theorem regroup_append {w : Nat} (hw : 0 < w) {ds : List Nat} (hds : w ∣ ds.length)
    (es : List Nat) : regroup b w (ds ++ es) = regroup b w ds ++ regroup b w es := by
  rw [regroup, chunks_append hw hds, List.map_append]
  rfl

/-- Digits to a base, taken in groups, are digits to a power of the base. -/
theorem small_regroup (hb : 0 < b) {w : Nat} (hw : 0 < w) {ds : List Nat} (hds : Small b ds) :
    Small (b ^ w) (regroup b w ds) := by
  induction ds using chunks.induct w with
  | case1 ds hcut ih =>
      rw [regroup, chunks_of_ne hw hcut.2, List.map_cons]
      apply Small.cons
      · have hle : (ds.take w).length ≤ w := List.length_take_le w ds
        have hlt := number_lt (small_fill (w := w) hb (hds.take w))
        rwa [length_fill hle] at hlt
      · exact ih (hds.drop w)
  | case2 ds hcut =>
      rw [regroup, chunks, dif_neg hcut]
      exact small_nil _

/-- **Regrouping keeps every digit**, and puts zeros behind them. -/
theorem flatMap_regroup (hb : 0 < b) {w : Nat} (hw : 0 < w) {ds : List Nat} (hds : Small b ds) :
    (regroup b w ds).flatMap (digits b w) = ds ++ List.replicate (missing w ds.length) 0 := by
  obtain ⟨front, rest, rfl, hfront, hrest⟩ := exists_whole w ds
  have hfrontSmall : Small b front := hds.of_subset (by simp)
  have hrestSmall : Small b rest := hds.of_subset (by simp)
  have hwhole : (regroup b w front).flatMap (digits b w) = front := by
    have heach : ∀ c ∈ chunks w front, digits b w (number b (fill w c)) = c := by
      intro c hc
      have hlen : c.length = w := length_of_mem_chunks hw hfront c hc
      have hsub : c ⊆ front := by
        intro d hd
        rw [← flatten_chunks hw front]
        exact List.mem_flatten.mpr ⟨c, hc, hd⟩
      rw [digits_fill hb (hfrontSmall.of_subset hsub) (by omega), fill_eq hlen]
    rw [regroup, List.flatMap_map, List.flatMap_congr heach, List.flatMap_id',
      flatten_chunks hw]
  have hlast : (regroup b w rest).flatMap (digits b w) =
      rest ++ List.replicate (missing w rest.length) 0 := by
    have hlt : rest.length < w := by
      rw [hrest]
      exact Nat.mod_lt _ hw
    by_cases hnil : rest = []
    · rw [hnil, regroup_nil, missing, List.length_nil, Nat.zero_mod, Nat.sub_zero, Nat.mod_self]
      rfl
    · have hpos : 0 < rest.length := List.length_pos_iff.mpr hnil
      rw [regroup_short hnil (by omega), List.flatMap_singleton,
        digits_fill hb hrestSmall (by omega), missing_of_lt hpos hlt]
      rfl
  rw [regroup_append hw hfront, List.flatMap_append, hwhole, hlast, List.length_append,
    missing_add hfront, List.append_assoc]

/-- And back, each of them is as many digits as the group had. -/
theorem length_flatMap_digits (w : Nat) (gs : List Nat) :
    (gs.flatMap (digits b w)).length = w * gs.length := by
  induction gs with
  | nil => rfl
  | cons g gs ih =>
      rw [List.flatMap_cons, List.length_append, ih, length_digits, List.length_cons, Nat.mul_succ,
        Nat.add_comm]

/-- Digits that come in whole pieces are read piece by piece. -/
theorem map_number_chunks {v : Nat} (hv : 0 < v) {ns : List Nat} (hns : Small (b ^ v) ns) :
    (chunks v (ns.flatMap (digits b v))).map (number b) = ns := by
  have hpieces : ∀ c ∈ ns.map (digits b v), c.length = v := by
    intro c hc
    obtain ⟨n, -, rfl⟩ := List.mem_map.mp hc
    exact length_digits b v n
  have heach : ∀ n ∈ ns, (number b ∘ digits b v) n = id n :=
    fun n hn => number_of_digits (hns n hn)
  rw [List.flatMap_def, chunks_flatten hv hpieces, List.map_map, List.map_congr_left heach,
    List.map_id]

/-- **Decoding undoes encoding**: groups that are not wider than the pieces they
were made of. -/
theorem ungroup_regroup (hb : 0 < b) {v w : Nat} (hw : 0 < w) (hwv : w ≤ v) {ns : List Nat}
    (hns : Small (b ^ v) ns) : ungroup b w v (regroup b w (ns.flatMap (digits b v))) = ns := by
  have hsmall : Small b (ns.flatMap (digits b v)) := small_flatMap fun n _ => small_digits hb v n
  have hmissing := missing_lt hw (ns.flatMap (digits b v)).length
  have hlen : (ns.flatMap (digits b v)).length = v * ns.length := length_flatMap_digits v ns
  unfold ungroup
  simp only [flatMap_regroup hb hw hsmall, List.length_append, List.length_replicate]
  rw [hlen] at hmissing ⊢
  rw [Nat.mul_add_mod, Nat.mod_eq_of_lt (by omega), Nat.add_sub_cancel, ← hlen, List.take_left]
  exact map_number_chunks (by omega) hns

end LuadchAnnouncer.Verified.Digits
