import LuadchAnnouncer.Basexx.RoundTrip

/-!
# z85

`to_z85` takes four bytes for a number and writes it with five digits to the base
85; `from_z85` does the same the other way round.  Neither has anything to say
about a length that is no multiple.

## Main results

* `toZ85Loop_four`, `fromZ85Loop_five` — the loops, a group at a time.
* `fromZ85_toZ85` — the round trip.
* `decode_encode` — all of the codecs.
-/

namespace LuadchAnnouncer.Basexx

open LuadchAnnouncer.Verified.Bytes
open LuadchAnnouncer.Verified.Chunks
open LuadchAnnouncer.Verified.Digits

/-- The loop that divides a value by the powers of the base gives its digits, most
significant first. -/
theorem takeApart_pow {base : Nat} (hbase : 1 < base) (value n : Nat) :
    takeApart base value (base ^ n) = digits base (n + 1) value := by
  induction n with
  | zero =>
      have hstop : base ^ 0 / base = 0 := Nat.div_eq_of_lt (by rwa [Nat.pow_zero])
      rw [takeApart, if_pos ⟨hbase, by simp⟩, hstop, takeApart, if_neg (by simp)]
      rfl
  | succ n ih =>
      have hpos : 0 < base ^ (n + 1) := Nat.pow_pos (by omega)
      have hstep : base ^ (n + 1) / base = base ^ n := by
        rw [Nat.pow_succ, Nat.mul_div_cancel _ (by omega)]
      rw [takeApart, if_pos ⟨hbase, by omega⟩, hstep, ih]
      rfl

theorem takeApart_bytes (value : Nat) :
    takeApart 256 value (256 * 256 * 256) = digits 256 4 value :=
  takeApart_pow (by omega) value 3

theorem takeApart_z85 (value : Nat) :
    takeApart 85 value (85 * 85 * 85 * 85) = digits 85 5 value :=
  takeApart_pow (by omega) value 4

/-- The character for a digit. -/
def z85Digit (d : Nat) : UInt8 := z85Encoder.getD d 0

set_option maxRecDepth 2048 in
theorem z85Char_eq : ∀ d < 85, z85Char (d + 1) = [z85Digit d] := by decide

set_option maxRecDepth 4096 in
/-- **The two tables fit.** -/
theorem z85Decoder_digit : ∀ d < 85, 31 < (z85Digit d).toNat ∧ (z85Digit d).toNat < 127 ∧
    z85Decoder.getD ((z85Digit d).toNat - 32) 0 = d := by decide

/-- A number as a loop reads it. -/
theorem number_four (b w x y z : Nat) :
    number b [w, x, y, z] = (((0 * b + w) * b + x) * b + y) * b + z := by
  simp only [number, List.length_cons, List.length_nil]
  ring

/-! ## Encoding -/

theorem toZ85Loop_step {i value : Nat} {c : UInt8} {str : Str} (hi : i % 4 ≠ 0) :
    toZ85Loop i value (c :: str) = toZ85Loop (i + 1) (value * 256 + c.toNat) str := by
  rw [toZ85Loop, if_neg hi]

/-- Four bytes are written as five digits to base 85, and the loop goes on with an empty
value. -/
theorem toZ85Loop_four {i : Nat} (hi : i % 4 = 1) (a b c d : UInt8) (str : Str) :
    toZ85Loop i 0 (a :: b :: c :: d :: str) =
      (digits 85 5 (number 256 [a.toNat, b.toNat, c.toNat, d.toNat])).map z85Digit ++
        toZ85Loop (i + 4) 0 str := by
  have hvalue : (((0 * 256 + a.toNat) * 256 + b.toNat) * 256 + c.toNat) * 256 + d.toNat =
      number 256 [a.toNat, b.toNat, c.toNat, d.toNat] := by
    rw [number_four]
  have hchars : (digits 85 5 (number 256 [a.toNat, b.toNat, c.toNat, d.toNat])).flatMap
      (fun d => z85Char (d + 1)) =
      (digits 85 5 (number 256 [a.toNat, b.toNat, c.toNat, d.toNat])).map z85Digit := by
    rw [List.map_eq_flatMap]
    apply List.flatMap_congr
    intro e he
    have hlt : e < 85 := small_digits (by omega) 5 _ e he
    exact z85Char_eq e hlt
  rw [toZ85Loop_step (by omega), toZ85Loop_step (by omega), toZ85Loop_step (by omega), toZ85Loop,
    if_pos (by omega), hvalue, takeApart_z85, hchars]

/-! ## Decoding -/

/-- A digit that does not end a group is added to the value. -/
theorem fromZ85Loop_step {i value d : Nat} {str : Str} (hi : i % 5 ≠ 0) (hd : d < 85) :
    fromZ85Loop i value (z85Digit d :: str) = fromZ85Loop (i + 1) (value * 85 + d) str := by
  obtain ⟨hlow, hhigh, hdecode⟩ := z85Decoder_digit d hd
  have hlen : z85Decoder.length = 96 := by decide
  have hindex : ((z85Digit d).toNat - 31 : Int).toNat - 1 = (z85Digit d).toNat - 32 := by omega
  rw [fromZ85Loop, hlen]
  simp only
  rw [if_neg (by omega), if_neg hi, hindex, hdecode]

/-- A digit that ends a group gives the four bytes of the value. -/
theorem fromZ85Loop_last {i value d : Nat} {str : Str} (hi : i % 5 = 0) (hd : d < 85) :
    fromZ85Loop i value (z85Digit d :: str) = (fromZ85Loop (i + 1) 0 str).map
      ((digits 256 4 (value * 85 + d)).map UInt8.ofNat ++ ·) := by
  obtain ⟨hlow, hhigh, hdecode⟩ := z85Decoder_digit d hd
  have hlen : z85Decoder.length = 96 := by decide
  have hindex : ((z85Digit d).toNat - 31 : Int).toNat - 1 = (z85Digit d).toNat - 32 := by omega
  rw [fromZ85Loop, hlen]
  simp only
  rw [if_neg (by omega), if_pos hi, hindex, hdecode, takeApart_bytes]

/-- Five digits are read as four bytes, and the loop goes on with an empty value. -/
theorem fromZ85Loop_five {i : Nat} (hi : i % 5 = 1) {ds : List Nat} (hds : Small 85 ds)
    (hlen : ds.length = 5) (str : Str) :
    fromZ85Loop i 0 (ds.map z85Digit ++ str) = (fromZ85Loop (i + 5) 0 str).map
      ((digits 256 4 (number 85 ds)).map UInt8.ofNat ++ ·) := by
  obtain ⟨a, b, c, d, e, rfl⟩ : ∃ a b c d e, ds = [a, b, c, d, e] := by
    match ds, hlen with
    | [a, b, c, d, e], _ => exact ⟨a, b, c, d, e, rfl⟩
  have hvalue : ((((0 * 85 + a) * 85 + b) * 85 + c) * 85 + d) * 85 + e =
      number 85 [a, b, c, d, e] := by
    rw [show [a, b, c, d, e] = [a, b, c, d] ++ [e] from rfl, number_concat, number_four]
  simp only [List.map_cons, List.map_nil, List.cons_append, List.nil_append]
  rw [fromZ85Loop_step (by omega) (hds a (by simp)), fromZ85Loop_step (by omega) (hds b (by simp)),
    fromZ85Loop_step (by omega) (hds c (by simp)), fromZ85Loop_step (by omega) (hds d (by simp)),
    fromZ85Loop_last (by omega) (hds e (by simp)), hvalue]

/-- What is written is a whole number of groups of five, so the decoder does not refuse it
by its length. -/
theorem length_toZ85Loop_dvd {i : Nat} (hi : i % 4 = 1) {s : Str} (hs : 4 ∣ s.length) :
    5 ∣ (toZ85Loop i 0 s).length := by
  obtain ⟨n, hn⟩ := hs
  induction n generalizing i s with
  | zero =>
      have hnil : s = [] := List.length_eq_zero_iff.mp (by omega)
      simp [hnil, toZ85Loop]
  | succ n ih =>
      match s, hn with
      | a :: b :: c :: d :: str, hn =>
          have hrest : str.length = 4 * n := by
            simp only [List.length_cons] at hn
            omega
          rw [toZ85Loop_four hi, List.length_append, List.length_map, length_digits]
          have hdvd := ih (i := i + 4) (by omega) hrest
          omega

/-- The round trip, four bytes and five digits at a time.  The two loops count their own
positions. -/
theorem fromZ85Loop_toZ85Loop {i j : Nat} (hi : i % 5 = 1) (hj : j % 4 = 1) {s : Str}
    (hs : 4 ∣ s.length) : fromZ85Loop i 0 (toZ85Loop j 0 s) = .ok s := by
  obtain ⟨n, hn⟩ := hs
  induction n generalizing i j s with
  | zero =>
      have hnil : s = [] := List.length_eq_zero_iff.mp (by omega)
      rw [hnil]
      rfl
  | succ n ih =>
      match s, hn with
      | a :: b :: c :: d :: str, hn =>
          have hrest : str.length = 4 * n := by
            simp only [List.length_cons] at hn
            omega
          have hbytes : Small 256 [a.toNat, b.toNat, c.toNat, d.toNat] :=
            small_bytes [a, b, c, d]
          have hvalue : number 256 [a.toNat, b.toNat, c.toNat, d.toNat] < 85 ^ 5 := by
            have hlt := number_lt hbytes
            simp only [List.length_cons, List.length_nil] at hlt
            omega
          rw [toZ85Loop_four hj, fromZ85Loop_five hi (small_digits (by omega) 5 _)
            (length_digits _ _ _), ih (i := i + 5) (by omega) (by omega) hrest,
            number_of_digits hvalue]
          have hback : digits 256 4 (number 256 [a.toNat, b.toNat, c.toNat, d.toNat]) =
              [a, b, c, d].map UInt8.toNat := digits_of_number hbytes rfl
          rw [hback]
          show Except.ok (([a, b, c, d].map UInt8.toNat).map UInt8.ofNat ++ str) = _
          rw [map_ofNat_toNat]
          rfl

/-- What `to_z85` makes, `from_z85` takes back. -/
theorem fromZ85_toZ85 {s : Str} (hs : s.length % 4 = 0) :
    ∃ t, toZ85 s = .ok t ∧ fromZ85 t none = .ok s := by
  have hdvd : 4 ∣ s.length := Nat.dvd_of_mod_eq_zero hs
  have hfive : (toZ85Loop 1 0 s).length % 5 = 0 :=
    Nat.mod_eq_zero_of_dvd (length_toZ85Loop_dvd rfl hdvd)
  refine ⟨toZ85Loop 1 0 s, ?_, ?_⟩
  · rw [toZ85, if_neg (by omega)]
  · show (if (toZ85Loop 1 0 s).length % 5 ≠ 0 then _ else _) = _
    rw [if_neg (by omega)]
    exact fromZ85Loop_toZ85Loop rfl rfl hdvd

/-- **Every decoder undoes its encoder.** -/
theorem decode_encode (s : Str) :
    fromBit (toBit s) none = .ok s ∧ fromHex (toHex s) none = .ok s ∧
      fromBase32 (toBase32 s) none = .ok s ∧ fromCrockford (toCrockford s) none = .ok s ∧
      fromBase64 (toBase64 s) none = .ok s ∧ fromUrl64 (toUrl64 s) none = .ok s ∧
      (s.length % 4 = 0 → ∃ t, toZ85 s = .ok t ∧ fromZ85 t none = .ok s) :=
  ⟨fromBit_toBit s, fromHex_toHex s, fromBase32_toBase32 s, fromCrockford_toCrockford s,
    fromBase64_toBase64 s, fromUrl64_toUrl64 s, fromZ85_toZ85⟩

end LuadchAnnouncer.Basexx
