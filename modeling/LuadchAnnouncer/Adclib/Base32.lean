import Mathlib.Data.List.GetD
import LuadchAnnouncer.Adclib
import LuadchAnnouncer.Basexx.RoundTrip

/-!
# `adclib/base32.cpp`

The base32 of the C++ library works on the bytes in place: it keeps the number of
the bit it is at inside a byte, and shifts.  `toBase32_eq` says that it writes
what `basexx` writes, without the padding, and `fromBase32_eq` what it reads: the
bits of the digits among the characters in front of the first zero byte, as many
as fit, with zeros behind them.

The buffer of `FROMBASE32` is the caller's.  A write that is not inside it has no
meaning, and is `none` here.

## Main results

* `toBase32_eq` — what `TOBASE32` writes.
* `fromBase32Loop_eq`, `fromBase32_eq` — what `FROMBASE32` reads, from any state of its
  loop.
* `base32_agree` — the same as `basexx`, both ways.
* `fromBase32_noisy` — and back, with anything between the digits.
* `fromBase32_inside_iff` — the buffers it stays inside of.
-/

namespace LuadchAnnouncer.Adclib.Base32

open LuadchAnnouncer.Verified.Bytes
open LuadchAnnouncer.Verified.Chunks
open LuadchAnnouncer.Verified.Digits
open LuadchAnnouncer.Basexx (Alphabet bitsOf base32Alphabet)

/-- `BASE32_table` -/
def base32Table : List Int := [
  -1, -1, -1, -1, -1, -1, -1, -1, -1, -1, -1, -1, -1, -1, -1, -1,
  -1, -1, -1, -1, -1, -1, -1, -1, -1, -1, -1, -1, -1, -1, -1, -1,
  -1, -1, -1, -1, -1, -1, -1, -1, -1, -1, -1, -1, -1, -1, -1, -1,
  -1, -1, 26, 27, 28, 29, 30, 31, -1, -1, -1, -1, -1, -1, -1, -1,
  -1, 0, 1, 2, 3, 4, 5, 6, 7, 8, 9, 10, 11, 12, 13, 14,
  15, 16, 17, 18, 19, 20, 21, 22, 23, 24, 25, -1, -1, -1, -1, -1,
  -1, 0, 1, 2, 3, 4, 5, 6, 7, 8, 9, 10, 11, 12, 13, 14,
  15, 16, 17, 18, 19, 20, 21, 22, 23, 24, 25, -1, -1, -1, -1, -1,
  -1, -1, -1, -1, -1, -1, -1, -1, -1, -1, -1, -1, -1, -1, -1, -1,
  -1, -1, -1, -1, -1, -1, -1, -1, -1, -1, -1, -1, -1, -1, -1, -1,
  -1, -1, -1, -1, -1, -1, -1, -1, -1, -1, -1, -1, -1, -1, -1, -1,
  -1, -1, -1, -1, -1, -1, -1, -1, -1, -1, -1, -1, -1, -1, -1, -1,
  -1, -1, -1, -1, -1, -1, -1, -1, -1, -1, -1, -1, -1, -1, -1, -1,
  -1, -1, -1, -1, -1, -1, -1, -1, -1, -1, -1, -1, -1, -1, -1, -1,
  -1, -1, -1, -1, -1, -1, -1, -1, -1, -1, -1, -1, -1, -1, -1, -1,
  -1, -1, -1, -1, -1, -1, -1, -1, -1, -1, -1, -1, -1, -1, -1, -1]

/-- `BASE32_alpha` -/
def base32Alpha : Str := lit "ABCDEFGHIJKLMNOPQRSTUVWXYZ234567"

/-- The loop of `TOBASE32`, from `src[i]` on. -/
def toBase32Loop (key : Nat) : Str → Str
  | [] => []
  | c :: src =>
      if 3 < key then
        let chr := c &&& (0xFF >>> UInt8.ofNat key)
        let key := (key + 5) % 8
        let chr := chr <<< UInt8.ofNat key
        let chr := match src with
          | [] => chr
          | d :: _ => chr ||| d >>> UInt8.ofNat (8 - key)
        base32Alpha.getD chr.toNat 0 :: toBase32Loop key src
      else
        let chr := (c >>> UInt8.ofNat (8 - (key + 5))) &&& 0x1F
        if (key + 5) % 8 = 0 then base32Alpha.getD chr.toNat 0 :: toBase32Loop 0 src
        else base32Alpha.getD chr.toNat 0 :: toBase32Loop ((key + 5) % 8) (c :: src)
termination_by src => (src.length, 8 - key)

/-- `TOBASE32( src, size )` of a whole string. -/
def toBase32 (src : Str) : Str := toBase32Loop 0 src

/-- `buffer[set] |= v` -/
def orAt (buffer : Str) (set : Nat) (v : UInt8) : Option Str :=
  if set < buffer.length then some (buffer.set set (buffer.getD set 0 ||| v)) else none

/-- The loop of `FROMBASE32`, from `src[i]` on. -/
def fromBase32Loop (size : Nat) : Nat → Nat → Str → Str → Option Str
  | _, _, buffer, [] => some buffer
  | key, set, buffer, c :: src =>
      if c = 0 then some buffer
      else if base32Table.getD c.toNat (-1) = -1 then fromBase32Loop size key set buffer src
      else
        let temp := UInt8.ofNat (base32Table.getD c.toNat (-1)).toNat
        if key ≤ 3 then
          let key := (key + 5) % 8
          if key = 0 then do
            let buffer ← orAt buffer set temp
            if set + 1 = size then some buffer else fromBase32Loop size key (set + 1) buffer src
          else do
            let buffer ← orAt buffer set (temp <<< UInt8.ofNat (8 - key))
            fromBase32Loop size key set buffer src
        else
          let key := (key + 5) % 8
          do
            let buffer ← orAt buffer set (temp >>> UInt8.ofNat key)
            if set + 1 = size then some buffer
            else
              let buffer ← orAt buffer (set + 1) (temp <<< UInt8.ofNat (8 - key))
              fromBase32Loop size key (set + 1) buffer src

/-- `FROMBASE32( src, buffer, size )` into a buffer of `size` bytes. -/
def fromBase32 (src : Str) (size : Nat) : Option Str :=
  fromBase32Loop size 0 0 (List.replicate size 0) src

/-! ## Shifting bytes -/

theorem toNat_ofNat_lt {k : Nat} (hk : k < 8) : (UInt8.ofNat k).toNat % 8 = k := by
  rw [UInt8.toNat_ofNat']
  omega

theorem toNat_shiftRight (c : UInt8) {k : Nat} (hk : k < 8) :
    (c >>> UInt8.ofNat k).toNat = c.toNat / 2 ^ k := by
  rw [UInt8.toNat_shiftRight, toNat_ofNat_lt hk, Nat.shiftRight_eq_div_pow]

theorem toNat_shiftLeft (c : UInt8) {k : Nat} (hk : k < 8) (hlt : c.toNat * 2 ^ k < 256) :
    (c <<< UInt8.ofNat k).toNat = c.toNat * 2 ^ k := by
  rw [UInt8.toNat_shiftLeft, toNat_ofNat_lt hk, Nat.shiftLeft_eq, Nat.mod_eq_of_lt hlt]

/-- What is behind the first `k` bits. -/
theorem toNat_mask (c : UInt8) {k : Nat} (hk : k < 8) :
    (c &&& (0xFF >>> UInt8.ofNat k)).toNat = c.toNat % 2 ^ (8 - k) := by
  have hones : (0xFF >>> UInt8.ofNat k : UInt8).toNat = 2 ^ (8 - k) - 1 := by
    have hall : ∀ k < 8, (0xFF >>> UInt8.ofNat k : UInt8).toNat = 2 ^ (8 - k) - 1 := by decide
    exact hall k hk
  rw [UInt8.toNat_and, hones, Nat.and_two_pow_sub_one_eq_mod]

/-- Two bytes that have no bit in common. -/
theorem toNat_or {a d : UInt8} {m k : Nat} (ha : a.toNat = m * 2 ^ k) (hd : d.toNat < 2 ^ k) :
    (a ||| d).toNat = a.toNat + d.toNat := by
  rw [UInt8.toNat_or, ha, Nat.mul_comm, Nat.two_pow_add_eq_or_of_lt hd]

/-! ## Writing -/

/-- The bits of a string from a place inside its first byte on.  The loops of both codecs
carry such a place in `index`. -/
theorem drop_bits {key : Nat} (hkey : key ≤ 8) (c : UInt8) (src : Str) :
    (bitsOf (c :: src)).drop key = digits 2 (8 - key) c.toNat ++ bitsOf src := by
  have hbits : bitsOf (c :: src) = digits 2 8 c.toNat ++ bitsOf src := by
    rw [bitsOf, List.flatMap_cons]
    rfl
  have hsplit : digits 2 8 c.toNat =
      digits 2 key (c.toNat / 2 ^ (8 - key)) ++ digits 2 (8 - key) c.toNat := by
    rw [← digits_add, show key + (8 - key) = 8 by omega]
  rw [hbits, hsplit, List.append_assoc, List.drop_left' (length_digits _ _ _)]

/-- The character inside one byte. -/
theorem toNat_inside (c : UInt8) (key : Nat) (hkey : key ≤ 3) :
    ((c >>> UInt8.ofNat (8 - (key + 5))) &&& 0x1F).toNat =
      number 2 (digits 2 5 (c.toNat / 2 ^ (3 - key))) := by
  have hk : 8 - (key + 5) = 3 - key := by omega
  rw [UInt8.toNat_and, hk, toNat_shiftRight c (by omega), number_digits]
  exact Nat.and_two_pow_sub_one_eq_mod _ 5

/-- The character at the end of a byte, before that of the next one. -/
theorem toNat_across (c : UInt8) {key : Nat} (hlow : 3 < key) (hhigh : key < 8) :
    ((c &&& (0xFF >>> UInt8.ofNat key)) <<< UInt8.ofNat (key - 3)).toNat =
      number 2 (digits 2 (8 - key) c.toNat) * 2 ^ (key - 3) := by
  have hlt : c.toNat % 2 ^ (8 - key) < 2 ^ (8 - key) := Nat.mod_lt _ (Nat.two_pow_pos _)
  have hfits : c.toNat % 2 ^ (8 - key) * 2 ^ (key - 3) < 256 := by
    have hmul : c.toNat % 2 ^ (8 - key) * 2 ^ (key - 3) < 2 ^ (8 - key) * 2 ^ (key - 3) :=
      Nat.mul_lt_mul_of_pos_right hlt (Nat.two_pow_pos _)
    rw [← Nat.pow_add, show 8 - key + (key - 3) = 5 by omega] at hmul
    omega
  rw [toNat_shiftLeft _ (by omega) (by rwa [toNat_mask c hhigh]), toNat_mask c hhigh,
    number_digits]

theorem alpha_eq (n : Nat) : base32Alpha.getD n 0 = base32Alphabet.char n := rfl

/-- **What `TOBASE32` writes** from bit `key` of a byte on. -/
theorem toBase32Loop_eq {key : Nat} (hkey : key < 8) (src : Str) :
    toBase32Loop key src =
      (regroup 2 5 ((bitsOf src).drop key)).map base32Alphabet.char := by
  induction key, src using toBase32Loop.induct with
  | case1 key =>
      rw [toBase32Loop]
      show [] = (regroup 2 5 (([] : List Nat).drop key)).map _
      rw [List.drop_nil, regroup_nil]
      rfl
  | case2 key c src hlow next ih =>
      have hnext : (key + 5) % 8 = key - 3 := by omega
      have hrest : toBase32Loop (key - 3) src =
          (regroup 2 5 ((bitsOf src).drop (key - 3))).map base32Alphabet.char := by
        rw [← hnext]
        exact ih (Nat.mod_lt _ (by omega))
      have hc := toNat_across c hlow hkey
      rw [toBase32Loop, if_pos hlow, drop_bits (by omega)]
      simp only [hnext, hrest, alpha_eq]
      cases src with
      | nil =>
          -- the last character of a text that ends inside a group
          have hne : digits 2 (8 - key) c.toNat ≠ [] := by
            apply List.length_pos_iff.mp
            rw [length_digits]
            omega
          have hlen : (digits 2 (8 - key) c.toNat).length ≤ 5 := by
            rw [length_digits]
            omega
          have hfill : number 2 (fill 5 (digits 2 (8 - key) c.toNat)) =
              number 2 (digits 2 (8 - key) c.toNat) * 2 ^ (key - 3) := by
            rw [fill, number_append, number_replicate_zero, List.length_replicate, length_digits,
              Nat.add_zero, show 5 - (8 - key) = key - 3 by omega]
          have hempty : bitsOf [] = [] := rfl
          rw [hempty, List.append_nil, List.drop_nil, regroup_nil, regroup_short hne hlen, hfill,
            ← hc]
          rfl
      | cons d src =>
          have hd := toNat_shiftRight d (k := 8 - (key - 3)) (by omega)
          have hsmall : (d >>> UInt8.ofNat (8 - (key - 3))).toNat < 2 ^ (key - 3) := by
            rw [hd, Nat.div_lt_iff_lt_mul (Nat.two_pow_pos _), ← Nat.pow_add,
              show key - 3 + (8 - (key - 3)) = 8 by omega]
            exact d.toNat_lt
          have hsplit : digits 2 8 d.toNat = digits 2 (key - 3) (d.toNat / 2 ^ (8 - (key - 3))) ++
              digits 2 (8 - (key - 3)) d.toNat := by
            rw [← digits_add, show key - 3 + (8 - (key - 3)) = 8 by omega]
          have hgroup : (digits 2 (8 - key) c.toNat ++
              digits 2 (key - 3) (d.toNat / 2 ^ (8 - (key - 3)))).length = 5 := by
            rw [List.length_append, length_digits, length_digits]
            omega
          have hchr : ((c &&& (0xFF >>> UInt8.ofNat key)) <<< UInt8.ofNat (key - 3) |||
              d >>> UInt8.ofNat (8 - (key - 3))).toNat =
              number 2 (digits 2 (8 - key) c.toNat ++
                digits 2 (key - 3) (d.toNat / 2 ^ (8 - (key - 3)))) := by
            rw [toNat_or hc hsmall, hc, number_append, length_digits, number_digits 2 (key - 3),
              ← hd, Nat.mod_eq_of_lt hsmall]
          have hbits : bitsOf (d :: src) = digits 2 (key - 3) (d.toNat / 2 ^ (8 - (key - 3))) ++
              (bitsOf (d :: src)).drop (key - 3) := by
            rw [drop_bits (by omega), ← List.append_assoc, ← hsplit]
            rfl
          rw [hbits, ← List.append_assoc, regroup_cons (by omega) hgroup, ← hbits, List.map_cons,
            ← hchr]
  | case3 key c src hlow hend ih =>
      have hthree : key = 3 := by omega
      subst hthree
      have hgroup : (digits 2 5 c.toNat).length = 5 := length_digits _ _ _
      have hchr := toNat_inside c 3 (by omega)
      rw [Nat.sub_self, Nat.pow_zero, Nat.div_one] at hchr
      rw [toBase32Loop, if_neg hlow, drop_bits (by omega)]
      simp only [hend, if_true, ih (by omega), alpha_eq, hchr, List.drop_zero]
      rw [show (8 - 3 : Nat) = 5 from rfl, regroup_cons (by omega) hgroup, List.map_cons]
  | case4 key c src hlow hend ih =>
      have hchr := toNat_inside c key (by omega)
      have hnext : (key + 5) % 8 = key + 5 := by omega
      have hsplit : digits 2 (8 - key) c.toNat = digits 2 5 (c.toNat / 2 ^ (3 - key)) ++
          digits 2 (3 - key) c.toNat := by
        rw [← digits_add, show 5 + (3 - key) = 8 - key by omega]
      have hrest : (bitsOf (c :: src)).drop (key + 5) =
          digits 2 (3 - key) c.toNat ++ bitsOf src := by
        rw [drop_bits (by omega), show 8 - (key + 5) = 3 - key by omega]
      rw [hnext] at ih hend
      rw [toBase32Loop, if_neg hlow, drop_bits (by omega)]
      simp only [hnext, hend, if_false, ih (by omega), alpha_eq, hchr, hrest]
      rw [hsplit, List.append_assoc, regroup_cons (by omega) (length_digits _ _ _), List.map_cons]

/-- **`TOBASE32` is the base32 of `basexx`** without the padding. -/
theorem toBase32_eq (s : Str) :
    toBase32 s = (regroup 2 5 (bitsOf s)).map base32Alphabet.char := by
  rw [toBase32, toBase32Loop_eq (by omega), List.drop_zero]

/-! ## Reading -/

/-- The value of a base32 digit. -/
def value (c : UInt8) : Option Nat :=
  if base32Table.getD c.toNat (-1) = -1 then none else some (base32Table.getD c.toNat (-1)).toNat

/-- The bits of the digits in front of the first zero byte. -/
def bitsIn (src : Str) : List Nat :=
  ((src.takeWhile (· != 0)).filterMap value).flatMap (digits 2 5)

/-- As many bytes of these bits as fit, with zeros behind them. -/
def packed (size : Nat) (bits : List Nat) : Str :=
  ((chunks 8 ((bits ++ List.replicate (8 * size) 0).take (8 * size))).map (number 2)).map
    UInt8.ofNat

/-- A byte that starts with these bits. -/
def byteOf (bits : List Nat) : UInt8 := UInt8.ofNat (number 2 (fill 8 bits))

/-- What does not fit is left out. -/
theorem packed_full {size : Nat} {bits : List Nat} (hlen : 8 * size ≤ bits.length)
    (more : List Nat) : packed size (bits ++ more) = packed size bits := by
  rw [packed, packed, List.append_assoc, List.take_append_of_le_length hlen,
    List.take_append_of_le_length hlen]

/-- A buffer into which no bits have been packed is the buffer of zeros that `memset` has
left. -/
theorem packed_nil (size : Nat) : packed size [] = List.replicate size 0 := by
  induction size with
  | zero => simp [packed]
  | succ size ih =>
      have hzeros : (([] : List Nat) ++ List.replicate (8 * (size + 1)) 0).take (8 * (size + 1)) =
          List.replicate 8 0 ++
            (([] : List Nat) ++ List.replicate (8 * size) 0).take (8 * size) := by
        rw [List.nil_append, List.nil_append, List.take_replicate, List.take_replicate,
          Nat.min_self, Nat.min_self, List.replicate_append_replicate, Nat.mul_succ, Nat.add_comm]
      rw [packed, hzeros, chunks_cons (by omega) (List.length_replicate), List.map_cons,
        List.map_cons, number_replicate_zero, List.replicate_succ, ← ih, packed]
      rfl

/-- The buffer in three parts: whole bytes, the one that is being filled, and
those that are still zero. -/
theorem packed_split {size set : Nat} (hset : set < size) {front rest : List Nat}
    (hfront : front.length = 8 * set) (hrest : rest.length ≤ 8) :
    packed size (front ++ rest) =
      packed set front ++ byteOf rest :: List.replicate (size - set - 1) 0 := by
  have hwhole : (front ++ List.replicate (8 * set) 0).take (8 * set) = front :=
    List.take_left' hfront
  have hzeros : List.replicate (8 * size) (0 : Nat) =
      List.replicate (8 - rest.length) 0 ++ List.replicate (8 * size - (8 - rest.length)) 0 := by
    rw [List.replicate_append_replicate]
    congr 1
    omega
  have hbuffer : (front ++ rest ++ List.replicate (8 * size) 0).take (8 * size) =
      front ++ (fill 8 rest ++
        (([] : List Nat) ++ List.replicate (8 * (size - set - 1)) 0).take
          (8 * (size - set - 1))) := by
    rw [hzeros, List.append_assoc, ← List.append_assoc rest, List.take_append,
      List.take_of_length_le (by omega), hfront]
    congr 1
    show (fill 8 rest ++ _).take _ = _
    rw [List.take_append, length_fill hrest,
      List.take_of_length_le (by rw [length_fill hrest]; omega), List.take_replicate,
      List.nil_append, List.take_replicate]
    congr 2
    omega
  rw [packed, hbuffer, chunks_append (by omega) ⟨set, hfront⟩,
    chunks_cons (by omega) (length_fill hrest), List.map_append, List.map_append, List.map_cons,
    List.map_cons, packed, hwhole, ← packed_nil, packed]
  rfl

/-- The buffer keeps its size, whatever is packed into it. -/
theorem length_packed (size : Nat) (bits : List Nat) : (packed size bits).length = size := by
  have hlen : ((bits ++ List.replicate (8 * size) 0).take (8 * size)).length = 8 * size := by
    rw [List.length_take, List.length_append, List.length_replicate]
    omega
  have hcount := length_chunks (w := 8) (by omega) ⟨size, hlen⟩
  rw [hlen] at hcount
  rw [packed, List.length_map, List.length_map]
  omega

/-- Or-ing further bits into a byte that holds some already: where they have been shifted
behind these, the byte holds both. -/
theorem byteOf_or {bits more : List Nat} (hbits : Small 2 bits) (hmore : Small 2 more)
    (hlen : bits.length + more.length ≤ 8) {v : UInt8}
    (hv : v.toNat = number 2 more * 2 ^ (8 - bits.length - more.length)) :
    byteOf bits ||| v = byteOf (bits ++ more) := by
  have hfill : number 2 (fill 8 bits) = number 2 bits * 2 ^ (8 - bits.length) := by
    rw [fill, number_append, number_replicate_zero, List.length_replicate, Nat.add_zero]
  have hfull : number 2 (fill 8 (bits ++ more)) = number 2 (fill 8 bits) + v.toNat := by
    have hsplit : 8 - bits.length = more.length + (8 - bits.length - more.length) := by omega
    rw [hfill, hv, fill, number_append, number_replicate_zero, List.length_replicate, number_append,
      List.length_append, Nat.add_zero, Nat.sub_add_eq]
    nth_rewrite 2 [hsplit]
    rw [Nat.pow_add]
    ring
  have hbyte : number 2 (fill 8 (bits ++ more)) < 256 := by
    have hlt := number_lt (small_fill (w := 8) (by omega) (hbits.append hmore))
    rwa [length_fill (by rw [List.length_append]; omega)] at hlt
  have hv' : v.toNat < 2 ^ (8 - bits.length) := by
    have hnum := number_lt hmore
    have hmul : number 2 more * 2 ^ (8 - bits.length - more.length) <
        2 ^ more.length * 2 ^ (8 - bits.length - more.length) :=
      Nat.mul_lt_mul_of_pos_right hnum (Nat.two_pow_pos _)
    have hsum : more.length + (8 - bits.length - more.length) = 8 - bits.length := by omega
    rwa [← Nat.pow_add, hsum, ← hv] at hmul
  apply UInt8.toNat_inj.mp
  have hleft : (byteOf bits).toNat = number 2 bits * 2 ^ (8 - bits.length) := by
    rw [byteOf, UInt8.toNat_ofNat', hfill, Nat.mod_eq_of_lt (by omega)]
  rw [toNat_or hleft hv', byteOf, byteOf, UInt8.toNat_ofNat', UInt8.toNat_ofNat', hfull,
    Nat.mod_eq_of_lt (by omega), Nat.mod_eq_of_lt (by omega)]

/-- **One write of `FROMBASE32`**: more bits for the byte that is being filled. -/
theorem orAt_packed {size : Nat} {bits more : List Nat} (hbits : Small 2 bits)
    (hmore : Small 2 more) (hroom : bits.length < 8 * size)
    (hlen : bits.length % 8 + more.length ≤ 8) {v : UInt8}
    (hv : v.toNat = number 2 more * 2 ^ (8 - bits.length % 8 - more.length)) :
    orAt (packed size bits) (bits.length / 8) v = some (packed size (bits ++ more)) := by
  obtain ⟨front, rest, hsplit, hdvd, hrest⟩ := exists_whole 8 bits
  have hset : bits.length / 8 < size := by omega
  have hfront : front.length = 8 * (bits.length / 8) := by
    have htotal := congrArg List.length hsplit
    rw [List.length_append] at htotal
    omega
  have hplace : (packed (bits.length / 8) front).length = bits.length / 8 := length_packed _ _
  have hbyte : byteOf rest ||| v = byteOf (rest ++ more) := by
    apply byteOf_or _ hmore
    · omega
    · rw [hrest]
      exact hv
    · rw [hsplit] at hbits
      exact hbits.of_subset (by simp)
  have hold : packed size bits = packed (bits.length / 8) front ++
      byteOf rest :: List.replicate (size - bits.length / 8 - 1) 0 := by
    rw [← packed_split hset hfront (by omega), ← hsplit]
  have hnew : packed size (bits ++ more) = packed (bits.length / 8) front ++
      byteOf (rest ++ more) :: List.replicate (size - bits.length / 8 - 1) 0 := by
    rw [← packed_split hset hfront (by rw [List.length_append]; omega), ← List.append_assoc,
      ← hsplit]
  have hget : (packed size bits).getD (bits.length / 8) 0 = byteOf rest := by
    rw [hold, List.getD_append_right _ _ _ _ (by omega), hplace, Nat.sub_self]
    rfl
  rw [orAt, if_pos (by rw [length_packed]; exact hset), hget, hbyte, hold, hnew,
    List.set_append_right _ _ (by omega), hplace, Nat.sub_self]
  rfl

/-! ## One character -/

set_option maxRecDepth 16384 in
theorem base32Table_lt : ∀ v ∈ base32Table, v < 32 := by decide

set_option maxRecDepth 4096 in
theorem length_base32Table : base32Table.length = 256 := by decide

/-- What the table of `FROMBASE32` gives for a character fits five bits. -/
theorem value_lt {c : UInt8} {t : Nat} (h : value c = some t) : t < 32 := by
  unfold value at h
  split at h
  case isTrue => cases h
  case isFalse =>
    rw [Option.some.injEq] at h
    have hlen : c.toNat < base32Table.length := by
      rw [length_base32Table]
      exact c.toNat_lt
    have hmem : base32Table.getD c.toNat (-1) ∈ base32Table := by
      rw [List.getD_eq_getElem _ _ hlen]
      exact List.getElem_mem hlen
    have hlt := base32Table_lt _ hmem
    omega

/-- The table has a value at this character. -/
theorem table_of_value {c : UInt8} {t : Nat} (h : value c = some t) :
    base32Table.getD c.toNat (-1) ≠ -1 ∧ (base32Table.getD c.toNat (-1)).toNat = t := by
  unfold value at h
  split at h
  case isTrue => cases h
  case isFalse hne =>
    rw [Option.some.injEq] at h
    exact ⟨hne, h⟩

theorem bitsIn_zero (src : Str) : bitsIn (0 :: src) = [] := rfl

theorem bitsIn_skip {c : UInt8} (hc : c ≠ 0) (h : value c = none) (src : Str) :
    bitsIn (c :: src) = bitsIn src := by
  rw [bitsIn, List.takeWhile_cons_of_pos (by simpa using hc), List.filterMap_cons_none h]
  rfl

theorem bitsIn_digit {c : UInt8} (hc : c ≠ 0) {t : Nat} (h : value c = some t) (src : Str) :
    bitsIn (c :: src) = digits 2 5 t ++ bitsIn src := by
  rw [bitsIn, List.takeWhile_cons_of_pos (by simpa using hc), List.filterMap_cons_some h,
    List.flatMap_cons]
  rfl

section

variable {size : Nat} {bits : List Nat} {t : Nat}

/-- A digit that does not go beyond the byte it starts in. -/
theorem orAt_inside (hbits : Small 2 bits) (hroom : bits.length < 8 * size) (ht : t < 32)
    (hlow : bits.length % 8 ≤ 3) :
    orAt (packed size bits) (bits.length / 8)
      (UInt8.ofNat t <<< UInt8.ofNat (3 - bits.length % 8)) =
      some (packed size (bits ++ digits 2 5 t)) := by
  have htemp : (UInt8.ofNat t).toNat = t := by
    rw [UInt8.toNat_ofNat', Nat.mod_eq_of_lt (by omega)]
  have hfits : t * 2 ^ (3 - bits.length % 8) < 256 := by
    have hmul : t * 2 ^ (3 - bits.length % 8) < 2 ^ 5 * 2 ^ (3 - bits.length % 8) :=
      Nat.mul_lt_mul_of_pos_right ht (Nat.two_pow_pos _)
    have hle : 2 ^ (5 + (3 - bits.length % 8)) ≤ 2 ^ 8 :=
      Nat.pow_le_pow_right (by omega) (by omega)
    rw [Nat.pow_add] at hle
    omega
  apply orAt_packed hbits (small_digits (by omega) 5 t) hroom
  · rw [length_digits]
    omega
  · rw [toNat_shiftLeft _ (by omega) (by rwa [htemp]), htemp, number_of_digits ht, length_digits,
      show 8 - bits.length % 8 - 5 = 3 - bits.length % 8 by omega]

/-- The part of a digit that ends a byte. -/
theorem orAt_high (hbits : Small 2 bits) (hroom : bits.length < 8 * size) (ht : t < 32)
    (hhigh : 3 < bits.length % 8) :
    orAt (packed size bits) (bits.length / 8)
      (UInt8.ofNat t >>> UInt8.ofNat (bits.length % 8 - 3)) =
      some (packed size (bits ++
        digits 2 (8 - bits.length % 8) (t / 2 ^ (bits.length % 8 - 3)))) := by
  have htemp : (UInt8.ofNat t).toNat = t := by
    rw [UInt8.toNat_ofNat', Nat.mod_eq_of_lt (by omega)]
  have hlt : t / 2 ^ (bits.length % 8 - 3) < 2 ^ (8 - bits.length % 8) := by
    rw [Nat.div_lt_iff_lt_mul (Nat.two_pow_pos _), ← Nat.pow_add,
      show 8 - bits.length % 8 + (bits.length % 8 - 3) = 5 by omega]
    exact ht
  apply orAt_packed hbits (small_digits (by omega) _ _) hroom
  · rw [length_digits]
    omega
  · rw [toNat_shiftRight _ (by omega), htemp, number_of_digits hlt, length_digits, Nat.sub_self,
      Nat.pow_zero, Nat.mul_one]

/-- The part of a digit that starts a byte. -/
theorem orAt_low (hbits : Small 2 bits) (hroom : bits.length < 8 * size) (ht : t < 32)
    (hdvd : bits.length % 8 = 0) {k : Nat} (hk : 0 < k) (hle : k ≤ 4) :
    orAt (packed size bits) (bits.length / 8) (UInt8.ofNat t <<< UInt8.ofNat (8 - k)) =
      some (packed size (bits ++ digits 2 k t)) := by
  have htemp : (UInt8.ofNat t).toNat = t := by
    rw [UInt8.toNat_ofNat', Nat.mod_eq_of_lt (by omega)]
  apply orAt_packed hbits (small_digits (by omega) _ _) hroom
  · rw [length_digits]
    omega
  · rw [UInt8.toNat_shiftLeft, toNat_ofNat_lt (by omega), htemp, Nat.shiftLeft_eq, number_digits,
      length_digits, hdvd, Nat.sub_zero]
    have hsplit : (2 : Nat) ^ 8 = 2 ^ k * 2 ^ (8 - k) := by
      rw [← Nat.pow_add, show k + (8 - k) = 8 by omega]
    rw [hsplit, Nat.mul_mod_mul_right]

/-- **One digit**: the loop is at its end, or it goes on with five more bits. -/
theorem fromBase32Loop_digit {c : UInt8} (hc : c ≠ 0) (hvalue : value c = some t)
    (hbits : Small 2 bits) (hroom : bits.length < 8 * size) (src : Str) :
    fromBase32Loop size (bits.length % 8) (bits.length / 8) (packed size bits) (c :: src) =
      if 8 * size ≤ bits.length + 5 then some (packed size (bits ++ digits 2 5 t))
      else fromBase32Loop size ((bits ++ digits 2 5 t).length % 8)
        ((bits ++ digits 2 5 t).length / 8) (packed size (bits ++ digits 2 5 t)) src := by
  obtain ⟨htable, hvalue'⟩ := table_of_value hvalue
  have ht : t < 32 := value_lt hvalue
  have hlength : (bits ++ digits 2 5 t).length = bits.length + 5 := by
    rw [List.length_append, length_digits]
  rw [fromBase32Loop, if_neg hc, if_neg htable, hvalue', hlength]
  by_cases hlow : bits.length % 8 ≤ 3
  · have hor := orAt_inside hbits hroom ht hlow
    by_cases hend : (bits.length % 8 + 5) % 8 = 0
    · have hshift : UInt8.ofNat t <<< UInt8.ofNat (3 - bits.length % 8) = UInt8.ofNat t := by
        rw [show 3 - bits.length % 8 = 0 by omega]
        exact UInt8.shiftLeft_zero
      rw [hshift] at hor
      simp only [hlow, hend, if_true, hor, Option.bind_eq_bind, Option.bind_some]
      rw [show (bits.length + 5) % 8 = 0 by omega,
        show (bits.length + 5) / 8 = bits.length / 8 + 1 by omega]
      split
      case isTrue hfull => rw [if_pos (by omega)]
      case isFalse hmore => rw [if_neg (by omega)]
    · rw [show 3 - bits.length % 8 = 8 - (bits.length % 8 + 5) % 8 by omega] at hor
      simp only [hlow, hend, if_true, if_false, hor, Option.bind_eq_bind, Option.bind_some]
      rw [if_neg (by omega), show (bits.length + 5) % 8 = (bits.length % 8 + 5) % 8 by omega,
        show (bits.length + 5) / 8 = bits.length / 8 by omega]
  · have hnext : (bits.length % 8 + 5) % 8 = bits.length % 8 - 3 := by omega
    have hhigh := orAt_high hbits hroom ht (by omega)
    have hsplit : digits 2 5 t = digits 2 (8 - bits.length % 8) (t / 2 ^ (bits.length % 8 - 3)) ++
        digits 2 (bits.length % 8 - 3) t := by
      rw [← digits_add, show 8 - bits.length % 8 + (bits.length % 8 - 3) = 5 by omega]
    have hbyte : (bits ++ digits 2 (8 - bits.length % 8) (t / 2 ^ (bits.length % 8 - 3))).length =
        8 * (bits.length / 8 + 1) := by
      rw [List.length_append, length_digits]
      omega
    simp only [hlow, hnext, if_false, hhigh, Option.bind_eq_bind, Option.bind_some]
    by_cases hfull : bits.length / 8 + 1 = size
    · rw [if_pos hfull, if_pos (by omega), hsplit, ← List.append_assoc]
      exact congrArg some (packed_full (by omega) _).symm
    · have hsmall : Small 2
          (bits ++ digits 2 (8 - bits.length % 8) (t / 2 ^ (bits.length % 8 - 3))) :=
        hbits.append (small_digits (by omega) _ _)
      have hlower := @orAt_low size _ t hsmall (by omega) ht (by omega)
        (bits.length % 8 - 3) (by omega) (by omega)
      rw [hbyte, Nat.mul_div_cancel_left _ (by omega), List.append_assoc, ← hsplit] at hlower
      rw [if_neg hfull, if_neg (by omega), hlower]
      rw [show (bits.length + 5) % 8 = bits.length % 8 - 3 by omega,
        show (bits.length + 5) / 8 = bits.length / 8 + 1 by omega]
      rfl

/-- **The loop of `FROMBASE32`** keeps to its buffer, and appends the bits of the
digits to those that are there. -/
theorem fromBase32Loop_eq (hbits : Small 2 bits) (hroom : bits.length < 8 * size) (src : Str) :
    fromBase32Loop size (bits.length % 8) (bits.length / 8) (packed size bits) src =
      some (packed size (bits ++ bitsIn src)) := by
  induction src generalizing bits with
  | nil =>
      rw [fromBase32Loop, show bitsIn [] = [] from rfl, List.append_nil]
  | cons c src ih =>
      by_cases hzero : c = 0
      · subst hzero
        rw [fromBase32Loop, if_pos rfl, bitsIn_zero, List.append_nil]
      · cases hvalue : value c with
        | none =>
            have htable : base32Table.getD c.toNat (-1) = -1 := by
              by_contra hne
              rw [value, if_neg hne] at hvalue
              cases hvalue
            rw [fromBase32Loop, if_neg hzero, if_pos htable, bitsIn_skip hzero hvalue]
            exact ih hbits hroom
        | some t =>
            have hlength : (bits ++ digits 2 5 t).length = bits.length + 5 := by
              rw [List.length_append, length_digits]
            rw [fromBase32Loop_digit hzero hvalue hbits hroom, bitsIn_digit hzero hvalue,
              ← List.append_assoc]
            split
            case isTrue hfull => exact congrArg some (packed_full (by omega) _).symm
            case isFalse => exact ih (hbits.append (small_digits (by omega) 5 t)) (by omega)

end

/-- **What `FROMBASE32` reads**: every write is inside a buffer that has any
room, and it ends with the bits of the digits, as many as fit. -/
theorem fromBase32_eq {size : Nat} (hsize : 0 < size) (src : Str) :
    fromBase32 src size = some (packed size (bitsIn src)) := by
  have h := @fromBase32Loop_eq size [] (small_nil 2) (by rw [List.length_nil]; omega) src
  rwa [packed_nil, List.nil_append] at h

/-! ## There and back -/

theorem packed_bitsOf (s : Str) : packed s.length (bitsOf s) = s := by
  have hlen : (bitsOf s).length = 8 * s.length := Basexx.length_bitsOf s
  rw [packed, List.take_left' hlen, Basexx.bitsOf_eq,
    map_number_chunks (by omega) (Basexx.small_bytes s), Basexx.map_ofNat_toNat]

/-- A base32 digit in upper case. -/
def digitOf (c : UInt8) : Option UInt8 := (value c).map base32Alphabet.char

/-- The base32 digits of a text, in upper case: what is no digit is passed over,
and nothing is read behind the first zero byte. -/
def digitsIn (text : Str) : Str := (text.takeWhile (· != 0)).filterMap digitOf

theorem value_char : ∀ g < 32, value (base32Alphabet.char g) = some g := by decide

/-- The characters of the alphabet are read as the groups of five bits they were written
for. -/
theorem filterMap_value_char {gs : List Nat} (hgs : Small (2 ^ 5) gs) :
    (gs.map base32Alphabet.char).filterMap value = gs := by
  induction gs with
  | nil => rfl
  | cons g gs ih =>
      have hg : g < 32 := hgs g (by simp)
      rw [List.map_cons, List.filterMap_cons_some (value_char g hg), ih (hgs.of_subset (by simp))]

/-- The values of the digits are those of their upper case. -/
theorem filterMap_value_digitsIn (text : Str) :
    (digitsIn text).filterMap value = (text.takeWhile (· != 0)).filterMap value := by
  rw [digitsIn, List.filterMap_filterMap]
  congr 1
  funext c
  unfold digitOf
  cases hvalue : value c with
  | none => rfl
  | some t => exact value_char t (value_lt hvalue)

/-- **`FROMBASE32` undoes `TOBASE32`**, in either case, with anything between the
digits and any digits behind them. -/
theorem fromBase32_of_digitsIn {s : Str} (hs : s ≠ []) {text more : Str}
    (htext : digitsIn text = toBase32 s ++ more) : fromBase32 text s.length = some s := by
  have hgs : Small (2 ^ 5) (regroup 2 5 (bitsOf s)) :=
    small_regroup (by omega) (by omega) (Basexx.small_bitsOf s)
  have hbits : bitsIn text = bitsOf s ++
      (List.replicate (missing 5 (bitsOf s).length) 0 ++
        (more.filterMap value).flatMap (digits 2 5)) := by
    rw [bitsIn, ← filterMap_value_digitsIn, htext, toBase32_eq, List.filterMap_append,
      filterMap_value_char hgs, List.flatMap_append,
      flatMap_regroup (by omega) (by omega) (Basexx.small_bitsOf s), List.append_assoc]
  have hlen : (bitsOf s).length = 8 * s.length := Basexx.length_bitsOf s
  rw [fromBase32_eq (List.length_pos_iff.mpr hs), hbits, packed_full (by omega), packed_bitsOf]

/-- What `TOBASE32` writes are digits. -/
theorem digitsIn_toBase32 (s : Str) : digitsIn (toBase32 s) = toBase32 s := by
  have hchars : ∀ g < 32, base32Alphabet.char g ≠ 0 ∧
      digitOf (base32Alphabet.char g) = some (base32Alphabet.char g) := by decide
  have hgs : Small (2 ^ 5) (regroup 2 5 (bitsOf s)) :=
    small_regroup (by omega) (by omega) (Basexx.small_bitsOf s)
  have hzero : 0 ∉ toBase32 s := by
    intro hc
    rw [toBase32_eq] at hc
    obtain ⟨g, hg, hchar⟩ := List.mem_map.mp hc
    exact (hchars g (hgs g hg)).1 hchar
  rw [digitsIn, takeWhile_ne_zero hzero, toBase32_eq]
  have heach : ∀ g ∈ regroup 2 5 (bitsOf s),
      (digitOf ∘ base32Alphabet.char) g = some (base32Alphabet.char g) :=
    fun g hg => (hchars g (hgs g hg)).2
  rw [List.filterMap_map, List.filterMap_congr heach]
  exact List.filterMap_eq_map ▸ rfl

/-- Two strings with one base32 text are one string. -/
theorem toBase32_inj {s t : Str} (h : toBase32 s = toBase32 t) : s = t := by
  have hback : ∀ u : Str, ungroup 2 5 8 ((toBase32 u).filterMap value) = u.map UInt8.toNat := by
    intro u
    have hgs : Small (2 ^ 5) (regroup 2 5 (bitsOf u)) :=
      small_regroup (by omega) (by omega) (Basexx.small_bitsOf u)
    rw [toBase32_eq, filterMap_value_char hgs, Basexx.bitsOf_eq,
      ungroup_regroup (by omega) (by omega) (by omega) (Basexx.small_bytes u)]
  have hbytes : s.map UInt8.toNat = t.map UInt8.toNat := by
    rw [← hback s, ← hback t, h]
  rw [← Basexx.map_ofNat_toNat s, ← Basexx.map_ofNat_toNat t, hbytes]

/-- A text has as many digits of five bits as the bytes have bits, and one more for a rest. -/
theorem length_toBase32 (s : Str) :
    5 * (toBase32 s).length = 8 * s.length + missing 5 (8 * s.length) := by
  have hbits : (bitsOf s).length = 8 * s.length := Basexx.length_bitsOf s
  have hall := congrArg List.length
    (flatMap_regroup (by omega : 0 < 2) (by omega : 0 < 5) (Basexx.small_bitsOf s))
  rw [length_flatMap_digits, List.length_append, List.length_replicate, hbits] at hall
  rw [toBase32_eq, List.length_map, hall]

/-! ## The two base32 of the program -/

/-- The padding of `basexx` is all there is between the two. -/
theorem toBase32_filter (s : Str) :
    (Basexx.toBase32 s).filter (fun c => c != 61) = toBase32 s := by
  have hgs : Small (2 ^ 5) (regroup 2 5 (bitsOf s)) :=
    small_regroup (by omega) (by omega) (Basexx.small_bitsOf s)
  have hkeep : ∀ c ∈ (regroup 2 5 (bitsOf s)).map base32Alphabet.char, (c != 61) = true := by
    intro c hc
    obtain ⟨g, hg, rfl⟩ := List.mem_map.mp hc
    simpa using Alphabet.char_ne_pad (hgs g hg)
  have hdrop : ∀ c ∈ Basexx.base32PadMap.getD (s.length % 5) [], ¬(c != 61) = true := by
    intro c hc
    rw [Basexx.pad_base32 _ c hc]
    decide
  rw [Basexx.toBase32, Basexx.toBasexx_eq (by omega), List.filter_append,
    List.filter_eq_self.mpr hkeep, List.filter_eq_nil_iff.mpr hdrop, List.append_nil, toBase32_eq]

theorem value_char_lower : ∀ g < 32, 65 ≤ base32Alphabet.char g →
    value (base32Alphabet.char g + 32) = some g := by decide

/-- A character `from_base32` takes has its value in the table of the other. -/
theorem value_of_idxOf? {c : UInt8} {g : Nat}
    (h : base32Alphabet.chars.idxOf? (Basexx.upperByte c) = some g) : value c = some g := by
  obtain ⟨hlt, heq, -⟩ := List.idxOf?_eq_some_iff.mp h
  have hg : g < 32 := hlt
  have hchar : base32Alphabet.char g = Basexx.upperByte c := by
    have hsome : base32Alphabet.chars[g]? = some (base32Alphabet.char g) :=
      Alphabet.getElem?_chars hg
    rw [List.getElem?_eq_getElem hlt, Option.some.injEq] at hsome
    rw [← hsome]
    simpa using heq
  unfold Basexx.upperByte at hchar
  by_cases hlower : 97 ≤ c ∧ c ≤ 122
  · rw [if_pos hlower] at hchar
    have hlow : 97 ≤ c.toNat := UInt8.le_iff_toNat_le.mp hlower.1
    have hsub : (c - 32).toNat = c.toNat - 32 := UInt8.toNat_sub_of_le _ _ (by
      apply UInt8.le_iff_toNat_le.mpr
      exact Nat.le_trans (by decide) hlow)
    have hletter : 65 ≤ base32Alphabet.char g := by
      apply UInt8.le_iff_toNat_le.mpr
      rw [hchar, hsub]
      exact Nat.le_sub_of_add_le hlow
    have hback : base32Alphabet.char g + 32 = c := by
      rw [hchar]
      exact UInt8.sub_add_cancel c 32
    rw [← hback]
    exact value_char_lower g hg hletter
  · rw [if_neg hlower] at hchar
    rw [← hchar]
    exact value_char g hg

/-- No letter becomes a `=` in upper case, so the padding of the two codecs is found at the
same places. -/
theorem eq_pad_of_upper {c : UInt8} (h : Basexx.upperByte c = 61) : c = 61 := by
  unfold Basexx.upperByte at h
  split at h
  case isTrue hlower =>
    have hlow : 97 ≤ c.toNat := UInt8.le_iff_toNat_le.mp hlower.1
    have hback : c = 61 + 32 := by
      rw [← h]
      exact (UInt8.sub_add_cancel c 32).symm
    rw [hback] at hlow
    exact absurd hlow (by decide)
  case isFalse => exact h

/-- The bits `from_base32` finds are those `FROMBASE32` finds. -/
theorem basexxBits_ok {text v : Str}
    (h : Basexx.basexxBits base32Alphabet (Basexx.upper text) = .ok v) :
    v = (bitsIn text).map Basexx.digitChar := by
  induction text generalizing v with
  | nil =>
      injection h with hv
      rw [← hv]
      rfl
  | cons c text ih =>
      have hupper : Basexx.upper (c :: text) = Basexx.upperByte c :: Basexx.upper text := rfl
      rw [hupper, Basexx.basexxBits] at h
      split at h
      case isTrue hpad =>
        rw [eq_pad_of_upper hpad, bitsIn_skip (by decide) (by decide)]
        exact ih h
      case isFalse =>
        split at h
        case h_1 => cases h
        case h_2 g hg =>
          have hvalue := value_of_idxOf? hg
          have hzero : c ≠ 0 := by
            intro hc
            have hnone : value 0 = none := by decide
            rw [hc, hnone] at hvalue
            cases hvalue
          cases hrest : Basexx.basexxBits base32Alphabet (Basexx.upper text) with
          | error wrong =>
              rw [hrest] at h
              cases h
          | ok w =>
              rw [hrest] at h
              injection h with hv
              rw [bitsIn_digit hzero hvalue, List.map_append, ← ih hrest, ← hv,
                Basexx.numberToBit_eq (value_lt hvalue)]

/-- A text that `from_base32` decodes is read the same by `FROMBASE32`. -/
theorem fromBase32_of_basexx {text bytes : Str}
    (h : Basexx.fromBase32 text none = .ok bytes) (hne : bytes ≠ []) :
    fromBase32 text bytes.length = some bytes := by
  unfold Basexx.fromBase32 Basexx.fromBasexx at h
  cases hbits : Basexx.basexxBits base32Alphabet (Basexx.upper text) with
  | error wrong =>
      rw [Basexx.ignoreSet, hbits] at h
      cases h
  | ok v =>
      rw [Basexx.ignoreSet, hbits] at h
      injection h with hbytes
      obtain ⟨front, rest, hsplit, hdvd, hrest⟩ := exists_whole 8 (bitsIn text)
      have hsmall : Small 2 front := by
        have hall : Small 2 (bitsIn text) := small_flatMap fun _ _ => small_digits (by omega) 5 _
        rw [hsplit] at hall
        exact hall.of_subset (by simp)
      have hlen : (bitsIn text).length - (bitsIn text).length % 8 = front.length := by
        rw [← hrest, hsplit, List.length_append]
        omega
      have hfront : (bitsIn text).take front.length = front := by
        rw [hsplit, List.take_left]
      rw [basexxBits_ok hbits, List.length_map, hlen, ← List.map_take, hfront,
        Basexx.pureFromBit_eq hsmall hdvd] at hbytes
      have hcount : front.length = 8 * bytes.length := by
        rw [← hbytes, List.length_map, List.length_map, length_chunks (by omega) hdvd]
      rw [fromBase32_eq (List.length_pos_iff.mpr hne), hsplit, packed_full (by omega), packed,
        List.take_left' hcount, hbytes]

/-- **One base32 in two languages.**  `TOBASE32` writes what `to_base32` writes
but for the padding, and a text that `from_base32` decodes is read the same by
`FROMBASE32`. -/
theorem base32_agree :
    (∀ s, toBase32 s = (Basexx.toBase32 s).filter fun c => c != 61) ∧
      ∀ text bytes, Basexx.fromBase32 text none = .ok bytes → bytes ≠ [] →
        fromBase32 text bytes.length = some bytes :=
  ⟨fun s => (toBase32_filter s).symm, fun _ _ h hne => fromBase32_of_basexx h hne⟩

/-- **`FROMBASE32` undoes `TOBASE32`**, in either case, with anything between the
digits and any digits behind them. -/
theorem fromBase32_noisy (s text more : Str) (hs : s ≠ [])
    (htext : digitsIn text = toBase32 s ++ more) : fromBase32 text s.length = some s :=
  fromBase32_of_digitsIn hs htext

/-- Three bytes, in lower case and with a dash, a blank and a `=` among the digits. -/
theorem fromBase32_noisy_hey :
    fromBase32 (lit "nb-sx s=") 3 = some (lit "hey") := by
  have hhey : toBase32 (lit "hey") = lit "NBSXS" := by
    have hbits : bitsOf (lit "hey") = [0, 1, 1, 0, 1] ++ ([0, 0, 0, 0, 1] ++ ([1, 0, 0, 1, 0] ++
        ([1, 0, 1, 1, 1] ++ [1, 0, 0, 1]))) := by decide
    have hcons : ∀ c ds : List Nat, c.length = 5 →
        regroup 2 5 (c ++ ds) = number 2 c :: regroup 2 5 ds :=
      fun c ds hc => regroup_cons (by omega) hc ds
    rw [toBase32_eq, hbits, hcons _ _ rfl, hcons _ _ rfl, hcons _ _ rfl, hcons _ _ rfl,
      regroup_short (by simp) (by simp)]
    rfl
  have htext : digitsIn (lit "nb-sx s=") = toBase32 (lit "hey") ++ [] := by
    rw [hhey]
    decide
  exact fromBase32_noisy (lit "hey") (lit "nb-sx s=") [] (by decide) htext

theorem digitsIn_cons_none {c : UInt8} (hc : c ≠ 0) (h : value c = none) (src : Str) :
    digitsIn (c :: src) = digitsIn src := by
  rw [digitsIn, List.takeWhile_cons_of_pos (by simpa using hc),
    List.filterMap_cons_none (by rw [digitOf, h]; rfl)]
  rfl

/-- Into a buffer without bytes nothing can be decoded but a text without digits. -/
theorem fromBase32_empty {src : Str} :
    (∃ buffer, fromBase32 src 0 = some buffer) ↔ digitsIn src = [] := by
  unfold fromBase32
  induction src with
  | nil => exact iff_of_true ⟨[], rfl⟩ rfl
  | cons c src ih =>
      by_cases hzero : c = 0
      · subst hzero
        exact iff_of_true ⟨[], rfl⟩ rfl
      · cases hvalue : value c with
        | none =>
            have htable : base32Table.getD c.toNat (-1) = -1 := by
              by_contra hne
              rw [value, if_neg hne] at hvalue
              cases hvalue
            rw [fromBase32Loop, if_neg hzero, if_pos htable, digitsIn_cons_none hzero hvalue]
            exact ih
        | some t =>
            have hdigits : digitsIn (c :: src) ≠ [] := by
              rw [digitsIn, List.takeWhile_cons_of_pos (by simpa using hzero),
                List.filterMap_cons_some (by rw [digitOf, hvalue]; rfl)]
              exact List.cons_ne_nil _ _
            have hnone : fromBase32Loop 0 0 0 (List.replicate 0 0) (c :: src) = none := by
              rw [fromBase32Loop, if_neg hzero, if_neg (table_of_value hvalue).1]
              rfl
            rw [hnone]
            exact iff_of_false (by simp) hdigits

/-- **`FROMBASE32` never writes outside its buffer**, unless the buffer is empty
and there is a digit to write. -/
theorem fromBase32_inside_iff (src : Str) (size : Nat) :
    (∃ buffer, fromBase32 src size = some buffer) ↔ 0 < size ∨ digitsIn src = [] := by
  by_cases hsize : 0 < size
  · exact iff_of_true ⟨_, fromBase32_eq hsize src⟩ (Or.inl hsize)
  · have hzero : size = 0 := by omega
    rw [hzero, fromBase32_empty]
    simp

end LuadchAnnouncer.Adclib.Base32
