import LuadchAnnouncer.Verified.Chunks

/-!
# Iterated hashing

A hash that takes its input block by block is a function `f` that mixes one block
into a state.  `absorb` feeds it a list as far as there are whole blocks, and
keeps the rest: what is fed in parts is fed as a whole (`absorb_append`).

Two inputs have the same hash only where their runs come together, provided that
inputs in different numbers of blocks end in different ones (`foldl_eq_iff`).

## Main results

* `absorb_append` — absorbing in parts is absorbing the whole.
* `absorb_whole` — a string of whole blocks leaves nothing over.
* `foldl_eq_iff` — two runs of a compression function end alike exactly if they are one
  run or meet.
-/

namespace LuadchAnnouncer.Verified.BlockHash

open LuadchAnnouncer.Verified.Chunks

variable {α σ : Type}

/-- The state and the rest behind the whole blocks of `xs`. -/
def absorb (w : Nat) (f : σ → List α → σ) (s : σ) (xs : List α) : σ × List α :=
  if 0 < w ∧ w ≤ xs.length then absorb w f (f s (xs.take w)) (xs.drop w) else (s, xs)
termination_by xs.length
decreasing_by
  rw [List.length_drop]
  omega

variable {w : Nat} {f : σ → List α → σ}

theorem absorb_short {s : σ} {xs : List α} (h : xs.length < w) : absorb w f s xs = (s, xs) := by
  rw [absorb, if_neg (by omega)]

theorem absorb_nil (hw : 0 < w) (s : σ) : absorb w f s [] = (s, []) :=
  absorb_short (by rw [List.length_nil]; exact hw)

theorem absorb_block (hw : 0 < w) {s : σ} {xs : List α} (h : w ≤ xs.length) :
    absorb w f s xs = absorb w f (f s (xs.take w)) (xs.drop w) := by
  rw [absorb, if_pos ⟨hw, h⟩]

theorem absorb_cons (hw : 0 < w) {s : σ} {b : List α} (hb : b.length = w) (xs : List α) :
    absorb w f s (b ++ xs) = absorb w f (f s b) xs := by
  have hle : w ≤ (b ++ xs).length := by
    rw [List.length_append]
    omega
  rw [absorb_block hw hle, List.take_left' hb, List.drop_left' hb]

/-- **Feeding in parts**: the rest of the first part goes in front of the second. -/
theorem absorb_append (hw : 0 < w) (s : σ) (xs ys : List α) :
    absorb w f s (xs ++ ys) =
      absorb w f (absorb w f s xs).1 ((absorb w f s xs).2 ++ ys) := by
  induction s, xs using absorb.induct w f with
  | case1 s xs hblock ih =>
      have hsplit : xs ++ ys = xs.take w ++ (xs.drop w ++ ys) := by
        rw [← List.append_assoc, List.take_append_drop]
      have htake : (xs.take w).length = w := by
        rw [List.length_take]
        omega
      rw [absorb_block hw hblock.2, hsplit, absorb_cons hw htake, ih]
  | case2 s xs hshort =>
      rw [absorb_short (s := s) (by omega : xs.length < w)]

/-- What is left over is less than a block. -/
theorem length_absorb (hw : 0 < w) (s : σ) (xs : List α) :
    (absorb w f s xs).2.length = xs.length % w := by
  induction s, xs using absorb.induct w f with
  | case1 s xs hblock ih =>
      rw [absorb_block hw hblock.2, ih, List.length_drop]
      exact (Nat.mod_eq_sub_mod hblock.2).symm
  | case2 s xs hshort =>
      rw [absorb_short (by omega), Nat.mod_eq_of_lt (by omega)]

/-- Of a list in whole blocks nothing is left. -/
theorem absorb_whole (hw : 0 < w) (s : σ) {xs : List α} (h : w ∣ xs.length) :
    absorb w f s xs = ((chunks w xs).foldl f s, []) := by
  induction s, xs using absorb.induct w f with
  | case1 s xs hblock ih =>
      have hne : xs ≠ [] := List.length_pos_iff.mp (by omega)
      have hrest : w ∣ (xs.drop w).length := by
        rw [List.length_drop]
        exact Nat.dvd_sub h (Nat.dvd_refl w)
      rw [absorb_block hw hblock.2, ih hrest, chunks_of_ne hw hne, List.foldl_cons]
  | case2 s xs hshort =>
      have hzero : xs.length = 0 := Nat.eq_zero_of_dvd_of_lt h (by omega)
      have hnil : xs = [] := List.length_eq_zero_iff.mp hzero
      rw [hnil, chunks_nil, absorb_nil hw]
      rfl

/-! ## Collisions -/

/-- The runs of `f` over `bs` from `s` and over `bs'` from `s'` come together: up to
some block they differ in the state or in the block, and behind it they are one. -/
def Meets (f : σ → List α → σ) (s : σ) (bs : List (List α)) (s' : σ)
    (bs' : List (List α)) : Prop :=
  ∃ front b front' b' rest, bs = front ++ b :: rest ∧ bs' = front' ++ b' :: rest ∧
    (front.foldl f s, b) ≠ (front'.foldl f s', b') ∧
    f (front.foldl f s) b = f (front'.foldl f s') b'

theorem Meets.cons {s s' : σ} {bs bs' : List (List α)} {b b' : List α}
    (h : Meets f (f s b) bs (f s' b') bs') : Meets f s (b :: bs) s' (b' :: bs') := by
  obtain ⟨front, c, front', c', rest, hbs, hbs', hne, heq⟩ := h
  exact ⟨b :: front, c, b' :: front', c', rest, by rw [hbs]; rfl, by rw [hbs']; rfl, hne, heq⟩

/-- Runs that come together end in the same state. -/
theorem Meets.foldl_eq {s s' : σ} {bs bs' : List (List α)} (h : Meets f s bs s' bs') :
    bs.foldl f s = bs'.foldl f s' := by
  obtain ⟨front, b, front', b', rest, hbs, hbs', -, heq⟩ := h
  rw [hbs, hbs', List.foldl_append, List.foldl_append, List.foldl_cons, List.foldl_cons, heq]

/-- As many blocks with the same result are the same, or the runs come together. -/
theorem eq_or_meets {bs bs' : List (List α)} (hlen : bs.length = bs'.length) {s s' : σ}
    (heq : bs.foldl f s = bs'.foldl f s') : (s, bs) = (s', bs') ∨ Meets f s bs s' bs' := by
  induction bs generalizing bs' s s' with
  | nil =>
      have hnil : bs' = [] := List.length_eq_zero_iff.mp hlen.symm
      rw [hnil] at heq ⊢
      exact Or.inl (by rw [show s = s' from heq])
  | cons b bs ih =>
      cases bs' with
      | nil => cases hlen
      | cons b' bs' =>
          rcases ih (Nat.succ.inj hlen) heq with hsame | hmeets
          · obtain ⟨hstate, htail⟩ := Prod.mk.inj hsame
            by_cases hblock : (s, b) = (s', b')
            · obtain ⟨hs, hb⟩ := Prod.mk.inj hblock
              exact Or.inl (by rw [hs, hb, htail])
            · exact Or.inr ⟨[], b, [], b', bs, rfl, by rw [htail]; rfl, hblock, hstate⟩
          · exact Or.inr hmeets.cons

/-- **Two inputs with the same hash** are the same, or their runs come together:
it is enough that inputs in different numbers of blocks end in different ones. -/
theorem foldl_eq_iff {bs bs' : List (List α)} (hpos : bs ≠ []) (hpos' : bs' ≠ [])
    (hlast : bs.length ≠ bs'.length → bs.getLast hpos ≠ bs'.getLast hpos') (s : σ) :
    bs.foldl f s = bs'.foldl f s ↔ bs = bs' ∨ Meets f s bs s bs' := by
  constructor
  · intro heq
    by_cases hlen : bs.length = bs'.length
    · rcases eq_or_meets hlen heq with hsame | hmeets
      · exact Or.inl (Prod.mk.inj hsame).2
      · exact Or.inr hmeets
    · apply Or.inr
      refine ⟨bs.dropLast, bs.getLast hpos, bs'.dropLast, bs'.getLast hpos', [],
        (List.dropLast_append_getLast hpos).symm, (List.dropLast_append_getLast hpos').symm, ?_, ?_⟩
      · intro hsame
        exact hlast hlen (Prod.mk.inj hsame).2
      · rw [← List.dropLast_append_getLast hpos, ← List.dropLast_append_getLast hpos',
          List.foldl_append, List.foldl_append] at heq
        exact heq
  · rintro (hsame | hmeets)
    · rw [hsame]
    · exact hmeets.foldl_eq

end LuadchAnnouncer.Verified.BlockHash
