import LuadchAnnouncer.Adclib.Tiger

/-!
# The passes of the compression function lose nothing

Every line of `round` and of `key_schedule` is an assignment that can be undone:
the operators are those of words, and the multipliers 5, 7 and 9 are odd.  So in
front of the feedforward the state is a permutation of the one it was, under any
block, and the schedule is a permutation of the blocks.

## Main results

* `bijective_round`, `bijective_pass` — a round and the eight rounds of a pass.
* `bijective_keySchedule` — the schedule.
* `passes_lossless` — both, for every block.
-/

namespace LuadchAnnouncer.Adclib.Tiger

open LuadchAnnouncer.Verified.Assignments

section Operators

variable {n : Nat} {j : Fin n} {g : Vector UInt64 n → UInt64}

/-- An assignment with one of the operators of words can be undone, if what stands on its
right does not depend on the variable. -/
theorem bijective_xor (hg : Apart j g) : Function.Bijective (assign j (· ^^^ ·) g) := by
  have hundo : ∀ a x, (a ^^^ g x) ^^^ g x = a := by
    intro a x
    rw [UInt64.xor_assoc, UInt64.xor_self, UInt64.xor_zero]
  exact bijective_assign (· ^^^ ·) hg hundo hundo

theorem bijective_add (hg : Apart j g) : Function.Bijective (assign j (· + ·) g) :=
  bijective_assign (· - ·) hg (fun a x => UInt64.add_sub_cancel a (g x))
    (fun a x => UInt64.sub_add_cancel a (g x))

theorem bijective_sub (hg : Apart j g) : Function.Bijective (assign j (· - ·) g) :=
  bijective_assign (· + ·) hg (fun a x => UInt64.sub_add_cancel a (g x))
    (fun a x => UInt64.add_sub_cancel a (g x))

/-- Multiplication by a word that has an inverse. -/
theorem bijective_mul (j : Fin n) {mul inv : UInt64} (hinv : mul * inv = 1) :
    Function.Bijective (assign j (· * ·) fun _ => mul) := by
  apply bijective_assign (fun a _ => a * inv) (apart_const j mul)
  · intro a x
    show (a * mul) * inv = a
    rw [UInt64.mul_assoc, hinv, UInt64.mul_one]
  · intro a x
    show (a * inv) * mul = a
    rw [UInt64.mul_assoc, UInt64.mul_comm inv, hinv, UInt64.mul_one]

end Operators

/-- One line of the macro `pass`, for three different variables. -/
theorem bijective_round {a b c : Fin 3} (hac : a ≠ c) (hbc : b ≠ c) (x : UInt64)
    {mul inv : UInt64} (hinv : mul * inv = 1) : Function.Bijective (round a b c x mul) := by
  have hxor := bijective_xor (apart_const c x)
  have hsub := bijective_sub (apart_get hac even)
  have hadd := bijective_add (apart_get hbc odd)
  exact (bijective_mul b hinv).comp (hadd.comp (hsub.comp hxor))

/-- One pass can be undone: each of its rounds can, and the multiplier is odd. -/
theorem bijective_pass (x : Words) {mul inv : UInt64} (hinv : mul * inv = 1) :
    Function.Bijective (pass x mul) := by
  have habc : ∀ w, Function.Bijective (round 0 1 2 w mul) := fun w =>
    bijective_round (by decide) (by decide) w hinv
  have hbca : ∀ w, Function.Bijective (round 1 2 0 w mul) := fun w =>
    bijective_round (by decide) (by decide) w hinv
  have hcab : ∀ w, Function.Bijective (round 2 0 1 w mul) := fun w =>
    bijective_round (by decide) (by decide) w hinv
  have hhead := (hcab x[2]).comp ((hbca x[1]).comp (habc x[0]))
  have hmiddle := (hcab x[5]).comp ((hbca x[4]).comp (habc x[3]))
  exact (hbca x[7]).comp ((habc x[6]).comp (hmiddle.comp hhead))

/-- The exchange of the three words between two passes. -/
theorem bijective_rotate : Function.Bijective rotate := by
  have hback : ∀ s : State, rotate (rotate (rotate s)) = s := by
    intro s
    ext i hi
    match i, hi with
    | 0, _ => rfl
    | 1, _ => rfl
    | 2, _ => rfl
  exact Function.bijective_iff_has_inverse.mpr ⟨fun s => rotate (rotate s), hback, hback⟩

/-- The three passes and the schedule between them, in front of the feedforward. -/
theorem bijective_passes (x : Words) : Function.Bijective (passes x) := by
  have hfive : (5 : UInt64) * 0xCCCCCCCCCCCCCCCD = 1 := by decide
  have hseven : (7 : UInt64) * 0x6DB6DB6DB6DB6DB7 = 1 := by decide
  have hnine : (9 : UInt64) * 0x8E38E38E38E38E39 = 1 := by decide
  have hfirst := bijective_rotate.comp (bijective_pass x hfive)
  have hsecond := bijective_rotate.comp (bijective_pass (keySchedule x) hseven)
  have hthird := bijective_rotate.comp (bijective_pass (keySchedule (keySchedule x)) hnine)
  exact hthird.comp (hsecond.comp hfirst)

/-! ## The schedule -/

section Schedule

variable {j k l : Fin 8}

/-- A line of `key_schedule` with another word on its right. -/
theorem bijective_xor_word (h : j ≠ k) :
    Function.Bijective (assign j (· ^^^ ·) fun x : Words => x[k]) :=
  bijective_xor (apart_get h id)

theorem bijective_add_word (h : j ≠ k) :
    Function.Bijective (assign j (· + ·) fun x : Words => x[k]) :=
  bijective_add (apart_get h id)

/-- One with another word and a constant. -/
theorem bijective_sub_const (h : j ≠ k) (c : UInt64) :
    Function.Bijective (assign j (· - ·) fun x : Words => x[k] ^^^ c) :=
  bijective_sub (apart_get h (· ^^^ c))

/-- One with two others, of which the second is shifted. -/
theorem bijective_sub_left (hk : j ≠ k) (hl : j ≠ l) :
    Function.Bijective (assign j (· - ·) fun x : Words => x[k] ^^^ (~~~x[l]) <<< 19) :=
  bijective_sub (apart_get₂ hk hl fun u v : UInt64 => u ^^^ (~~~v) <<< 19)

theorem bijective_sub_right (hk : j ≠ k) (hl : j ≠ l) :
    Function.Bijective (assign j (· - ·) fun x : Words => x[k] ^^^ (~~~x[l]) >>> 23) :=
  bijective_sub (apart_get₂ hk hl fun u v : UInt64 => u ^^^ (~~~v) >>> 23)

end Schedule

/-- The key schedule can be undone word by word, in the opposite order. -/
theorem bijective_keySchedule : Function.Bijective keySchedule := by
  have ne : ∀ j k : Fin 8, (j : Nat) ≠ k → j ≠ k := fun j k h heq => h (by rw [heq])
  -- the first half, up to `x7 ^= x6`
  have h0 := bijective_sub_const (ne 0 7 (by decide)) 0xA5A5A5A5A5A5A5A5
  have h1 := (bijective_xor_word (ne 1 0 (by decide))).comp h0
  have h2 := (bijective_add_word (ne 2 1 (by decide))).comp h1
  have h3 := (bijective_sub_left (ne 3 2 (by decide)) (ne 3 1 (by decide))).comp h2
  have h4 := (bijective_xor_word (ne 4 3 (by decide))).comp h3
  have h5 := (bijective_add_word (ne 5 4 (by decide))).comp h4
  have h6 := (bijective_sub_right (ne 6 5 (by decide)) (ne 6 4 (by decide))).comp h5
  have h7 := (bijective_xor_word (ne 7 6 (by decide))).comp h6
  -- the second half, which begins with the word the first one ended with
  have h8 := (bijective_add_word (ne 0 7 (by decide))).comp h7
  have h9 := (bijective_sub_left (ne 1 0 (by decide)) (ne 1 7 (by decide))).comp h8
  have h10 := (bijective_xor_word (ne 2 1 (by decide))).comp h9
  have h11 := (bijective_add_word (ne 3 2 (by decide))).comp h10
  have h12 := (bijective_sub_right (ne 4 3 (by decide)) (ne 4 2 (by decide))).comp h11
  have h13 := (bijective_xor_word (ne 5 4 (by decide))).comp h12
  have h14 := (bijective_add_word (ne 6 5 (by decide))).comp h13
  exact (bijective_sub_const (ne 7 6 (by decide)) 0x0123456789ABCDEF).comp h14

/-- **In front of the feedforward nothing is lost**: the schedule is a permutation of the
blocks, and under any block the passes are one of the states. -/
theorem passes_lossless :
    Function.Bijective keySchedule ∧ ∀ x, Function.Bijective (passes x) :=
  ⟨bijective_keySchedule, bijective_passes⟩

end LuadchAnnouncer.Adclib.Tiger
