import Mathlib.Data.List.Nodup
import LuadchAnnouncer.Basexx

/-!
# What the text encodings keep

Each decoder of `basexx` undoes its encoder, for every string of bytes.  For
base32, base64 and their two relatives this is one argument: `to_basexx` puts the
bits of the string into groups and writes a character for each, `from_basexx`
reads the groups back and drops the bits that make no whole byte.

## Main results

* `toBasexx_eq`, `fromBasexx_eq` — encoder and decoder in closed form, for any alphabet.
* `fromBasexx_toBasexx` — the round trip, for any alphabet.
* `fromHex_toHex`, `fromBit_toBit` — the two that have loops of their own.
-/

namespace LuadchAnnouncer.Basexx

open LuadchAnnouncer.Verified.Bytes
open LuadchAnnouncer.Verified.LuaValue
open LuadchAnnouncer.Verified.Chunks
open LuadchAnnouncer.Verified.Digits

/-- A function that leaves every character as it is. -/
theorem map_fixed {f : UInt8 → UInt8} {s : Str} (h : ∀ c ∈ s, f c = c) : s.map f = s := by
  rw [List.map_congr_left h, List.map_id']

/-! ## Bits and bytes -/

theorem small_of_mem_chunks {b w : Nat} (hw : 0 < w) {ds c : List Nat} (hds : Small b ds)
    (hc : c ∈ chunks w ds) : Small b c := by
  intro d hd
  apply hds
  rw [← flatten_chunks hw ds]
  exact List.mem_flatten.mpr ⟨c, hc, hd⟩

/-- `pure_from_bit` of whole bytes. -/
theorem pureFromBit_eq {ds : List Nat} (hds : Small 2 ds) (hdvd : 8 ∣ ds.length) :
    pureFromBit (ds.map digitChar) = ((chunks 8 ds).map (number 2)).map UInt8.ofNat := by
  rw [pureFromBit, gsubDots, chunks_map, List.flatMap_map, List.map_map, List.map_eq_flatMap]
  apply List.flatMap_congr
  intro c hc
  have hlen : c.length = 8 := length_of_mem_chunks (by omega) hdvd c hc
  have hsmall : Small 2 c := small_of_mem_chunks (by omega) hds hc
  rw [if_pos (by rw [List.length_map, hlen]), digitsValue_bits hsmall]
  rfl

theorem map_ofNat_toNat (s : Str) : (s.map UInt8.toNat).map UInt8.ofNat = s := by
  rw [List.map_map]
  apply List.map_id''
  intro c
  exact UInt8.ofNat_toNat

theorem small_bytes (s : Str) : Small (2 ^ 8) (s.map UInt8.toNat) := by
  intro n hn
  obtain ⟨c, -, rfl⟩ := List.mem_map.mp hn
  exact c.toNat_lt

theorem pureFromBit_bitsOf (s : Str) : pureFromBit ((bitsOf s).map digitChar) = s := by
  have hdvd : 8 ∣ (bitsOf s).length := ⟨s.length, length_bitsOf s⟩
  rw [pureFromBit_eq (small_bitsOf s) hdvd, bitsOf_eq, map_number_chunks (by omega) (small_bytes s),
    map_ofNat_toNat]

/-! ## The characters of an alphabet -/

section

variable {bits : Nat} (alphabet : Alphabet bits)

/-- The character for a group. -/
def Alphabet.char (g : Nat) : UInt8 := alphabet.chars.getD g 0

variable {alphabet}

theorem Alphabet.getElem?_chars {g : Nat} (hg : g < 2 ^ bits) :
    alphabet.chars[g]? = some (alphabet.char g) := by
  have hlt : g < alphabet.chars.length := by
    rw [alphabet.length]
    exact hg
  rw [Alphabet.char, List.getD_eq_getElem?_getD, List.getElem?_eq_getElem hlt, Option.getD_some]

theorem Alphabet.char_mem {g : Nat} (hg : g < 2 ^ bits) : alphabet.char g ∈ alphabet.chars :=
  List.mem_of_getElem? (Alphabet.getElem?_chars hg)

theorem Alphabet.char_ne_pad {g : Nat} (hg : g < 2 ^ bits) : alphabet.char g ≠ 61 := by
  intro h
  apply alphabet.noPad
  rw [← h]
  exact Alphabet.char_mem hg

/-- A character is found where it stands. -/
theorem Alphabet.idxOf?_char {g : Nat} (hg : g < 2 ^ bits) :
    alphabet.chars.idxOf? (alphabet.char g) = some g := by
  have hlt : g < alphabet.chars.length := by
    rw [alphabet.length]
    exact hg
  have hget : alphabet.char g = alphabet.chars[g] := by
    have hsome : alphabet.chars[g]? = some (alphabet.char g) := Alphabet.getElem?_chars hg
    rw [List.getElem?_eq_getElem hlt, Option.some.injEq] at hsome
    exact hsome.symm
  rw [hget, List.idxOf?_eq_some_iff]
  refine ⟨hlt, by simp, ?_⟩
  intro j hj
  have hne : alphabet.chars[j] ≠ alphabet.chars[g] := by
    intro h
    have hsame : j = g := (List.Nodup.getElem_inj_iff alphabet.nodup).mp h
    omega
  simpa using hne

/-- The character `string.sub` takes at the place of a group. -/
theorem Alphabet.take_drop {g : Nat} (hg : g < 2 ^ bits) :
    (alphabet.chars.drop g).take 1 = [alphabet.char g] := by
  have hlt : g < alphabet.chars.length := by
    rw [alphabet.length]
    exact hg
  have hsome : alphabet.chars[g]? = some (alphabet.char g) := Alphabet.getElem?_chars hg
  rw [List.getElem?_eq_getElem hlt, Option.some.injEq] at hsome
  rw [List.drop_eq_getElem_cons hlt, List.take_succ_cons, List.take_zero, hsome]

/-! ## Encoding -/

/-- One chunk of bits becomes the character of its group, filled up with zeros where it is
the last one. -/
theorem basexxChar_eq {c : List Nat} (hc : Small 2 c) (hle : c.length ≤ bits) :
    basexxChar alphabet (c.map digitChar) = [alphabet.char (number 2 (fill bits c))] := by
  have hfill : Small 2 (fill bits c) := small_fill (by omega) hc
  have hlt : number 2 (fill bits c) < 2 ^ bits := by
    have h := number_lt hfill
    rwa [length_fill hle] at h
  have hzeros : List.replicate (bits - c.length) (48 : UInt8) =
      (List.replicate (bits - c.length) 0).map digitChar := by
    rw [List.map_replicate]
    rfl
  have hvalue : (if (c.map digitChar).length < bits then
      c.map digitChar ++ List.replicate (bits - (c.map digitChar).length) 48
      else c.map digitChar) = (fill bits c).map digitChar := by
    rw [List.length_map]
    split
    case isTrue => rw [hzeros, ← List.map_append, fill]
    case isFalse hge => rw [fill_eq (by omega)]
  rw [basexxChar]
  simp only [hvalue]
  rw [digitsValue_bits hfill, Alphabet.take_drop hlt]

/-- **What `to_basexx` writes**: a character for each group of bits. -/
theorem toBasexx_eq (hbits : 0 < bits) (s pad : Str) :
    toBasexx s alphabet pad = (regroup 2 bits (bitsOf s)).map alphabet.char ++ pad := by
  rw [toBasexx, toBit_eq, divideString_eq hbits, chunks_map, List.flatMap_map, regroup,
    List.map_map, List.map_eq_flatMap]
  congr 1
  apply List.flatMap_congr
  intro c hc
  exact basexxChar_eq (small_of_mem_chunks hbits (small_bitsOf s) hc) (length_le_of_mem_chunks hc)

/-! ## Decoding -/

/-- Padding is decoded to no bits at all. -/
theorem basexxBits_pad {pad : Str} (hpad : ∀ c ∈ pad, c = 61) :
    basexxBits alphabet pad = .ok [] := by
  induction pad with
  | nil => rfl
  | cons c pad ih =>
      have hc : c = 61 := hpad c (by simp)
      rw [basexxBits, if_pos hc]
      exact ih fun d hd => hpad d (by simp [hd])

/-- Characters of the alphabet, with any padding behind them, are decoded to the bits of
their groups. -/
theorem basexxBits_groups {gs : List Nat} (hgs : Small (2 ^ bits) gs) {pad : Str}
    (hpad : ∀ c ∈ pad, c = 61) :
    basexxBits alphabet (gs.map alphabet.char ++ pad) =
      .ok ((gs.flatMap (digits 2 bits)).map digitChar) := by
  induction gs with
  | nil => exact basexxBits_pad hpad
  | cons g gs ih =>
      have hg : g < 2 ^ bits := hgs g (by simp)
      rw [List.map_cons, List.cons_append, basexxBits, if_neg (Alphabet.char_ne_pad hg),
        Alphabet.idxOf?_char hg, ih (hgs.of_subset (by simp)), List.flatMap_cons, List.map_append,
        ← numberToBit_eq hg]
      rfl

/-- **What `from_basexx` reads**: the groups, in whole bytes. -/
theorem fromBasexx_eq {gs : List Nat} (hgs : Small (2 ^ bits) gs) {pad : Str}
    (hpad : ∀ c ∈ pad, c = 61) :
    fromBasexx (gs.map alphabet.char ++ pad) alphabet =
      .ok ((ungroup 2 bits 8 gs).map UInt8.ofNat) := by
  have hsmall : Small 2 (gs.flatMap (digits 2 bits)) :=
    small_flatMap fun g _ => small_digits (by omega) bits g
  have hdvd : 8 ∣ ((gs.flatMap (digits 2 bits)).take ((gs.flatMap (digits 2 bits)).length -
      (gs.flatMap (digits 2 bits)).length % 8)).length := by
    rw [List.length_take, Nat.min_eq_left (Nat.sub_le _ _)]
    exact Nat.dvd_sub_mod _
  unfold fromBasexx
  rw [basexxBits_groups hgs hpad]
  show Except.ok (pureFromBit _) = _
  rw [List.length_map, ← List.map_take, pureFromBit_eq (hsmall.take _) hdvd]
  rfl

theorem fromBasexx_toBasexx (hbits : 0 < bits) (hle : bits ≤ 8) (s : Str) {pad : Str}
    (hpad : ∀ c ∈ pad, c = 61) : fromBasexx (toBasexx s alphabet pad) alphabet = .ok s := by
  have hgs : Small (2 ^ bits) (regroup 2 bits (bitsOf s)) :=
    small_regroup (by omega) hbits (small_bitsOf s)
  rw [toBasexx_eq hbits, fromBasexx_eq hgs hpad, bitsOf_eq,
    ungroup_regroup (by omega) hbits hle (small_bytes s), map_ofNat_toNat]

end

/-! ## base2 and base16 -/

/-- `to_bit` writes nothing but `0` and `1`. -/
theorem toBit_chars {s : Str} : ∀ c ∈ toBit s, c = 48 ∨ c = 49 := by
  intro c hc
  rw [toBit_eq] at hc
  obtain ⟨d, hd, rfl⟩ := List.mem_map.mp hc
  have hlt : d < 2 := small_bitsOf s d hd
  have hcases : d = 0 ∨ d = 1 := by omega
  rcases hcases with rfl | rfl
  · exact Or.inl rfl
  · exact Or.inr rfl

/-- The round trip through a text of bits. -/
theorem fromBit_toBit (s : Str) : fromBit (toBit s) none = .ok s := by
  have hread : (lower (toBit s)).map bitMap = toBit s := by
    rw [lower, List.map_map]
    apply map_fixed
    intro c hc
    rcases toBit_chars c hc with rfl | rfl
    · decide
    · decide
  have hfind : (toBit s).find? (fun c => c != 48 && c != 49) = none := by
    rw [List.find?_eq_none]
    intro c hc
    rcases toBit_chars c hc with rfl | rfl
    · decide
    · decide
  unfold fromBit
  simp only [ignoreSet, hread, hfind]
  rw [toBit_eq, pureFromBit_bitsOf]

theorem hexValue_hexChar : ∀ d < 16, LuaNum.hexValue (hexChar d) = some d := by decide

/-- The digits of a text of hexadecimal digits. -/
def hexDigits (s : Str) : List Nat := s.map fun c => (LuaNum.hexValue c).getD 0

/-- A hexadecimal digit is less than sixteen, in upper case and in lower case. -/
theorem hexDigits_lt {s : Str} (hs : ∀ c ∈ s, hexDigit c = true) : Small 16 (hexDigits s) := by
  intro d hd
  obtain ⟨c, hc, rfl⟩ := List.mem_map.mp hd
  have hdigit := hs c hc
  unfold hexDigit at hdigit
  obtain ⟨v, hv⟩ := Option.isSome_iff_exists.mp hdigit
  rw [hv, Option.getD_some]
  unfold LuaNum.hexValue at hv
  split at hv
  case isTrue h =>
    rw [Option.some.injEq] at hv
    have h57 : c.toNat ≤ 57 := UInt8.le_iff_toNat_le.mp h.2
    omega
  case isFalse =>
    split at hv
    case isTrue h =>
      rw [Option.some.injEq] at hv
      have h102 : c.toNat ≤ 102 := UInt8.le_iff_toNat_le.mp h.2
      omega
    case isFalse =>
      split at hv
      case isTrue h =>
        rw [Option.some.injEq] at hv
        have h70 : c.toNat ≤ 70 := UInt8.le_iff_toNat_le.mp h.2
        omega
      case isFalse => cases hv

/-- `tonumber( c, 16 )` of two digits is their value as a number to base sixteen. -/
theorem digitsValue_hex (s : Str) : LuaNum.digitsValue 16 s = number 16 (hexDigits s) := by
  have hfold : ∀ n, s.foldl (fun n c => 16 * n + (LuaNum.hexValue c).getD 0) n =
      n * 16 ^ s.length + number 16 (hexDigits s) := by
    induction s with
    | nil => simp [number, hexDigits]
    | cons c s ih =>
        intro n
        have hcons : hexDigits (c :: s) = (LuaNum.hexValue c).getD 0 :: hexDigits s := rfl
        have hlen : (hexDigits s).length = s.length := List.length_map _
        rw [List.foldl_cons, ih, hcons, number, hlen, List.length_cons, Nat.pow_succ]
        ring
  rw [LuaNum.digitsValue, hfold, Nat.zero_mul, Nat.zero_add]

/-- **What `from_hex` reads** from an even number of digits. -/
theorem fromHex_eq {s : Str} (hs : ∀ c ∈ s, hexDigit c = true) (hdvd : 2 ∣ s.length) :
    fromHex s none = .ok (((chunks 2 (hexDigits s)).map (number 16)).map UInt8.ofNat) := by
  have hfind : s.find? (fun c => !hexDigit c) = none := by
    rw [List.find?_eq_none]
    intro c hc
    simp [hs c hc]
  unfold fromHex
  simp only [ignoreSet, hfind]
  rw [gsubDots, hexDigits, chunks_map, List.map_map, List.map_map, List.map_eq_flatMap]
  congr 1
  apply List.flatMap_congr
  intro cc hcc
  rw [if_pos (length_of_mem_chunks (by omega) hdvd cc hcc), digitsValue_hex]
  rfl

/-- What `to_hex` writes are the two hexadecimal digits of each byte. -/
theorem hexDigits_toHex (s : Str) :
    hexDigits (toHex s) = (s.map UInt8.toNat).flatMap (digits 16 2) := by
  rw [hexDigits, toHex, List.map_flatMap, List.flatMap_map]
  apply List.flatMap_congr
  intro c _
  have hc : c.toNat < 256 := c.toNat_lt
  have hhigh : c.toNat / 16 < 16 := by omega
  have hlow : c.toNat % 16 < 16 := by omega
  simp only [List.map_cons, List.map_nil, hexValue_hexChar _ hhigh, hexValue_hexChar _ hlow,
    Option.getD_some, digits, Nat.pow_one, Nat.pow_zero, Nat.div_one, Nat.mod_eq_of_lt hhigh]

theorem hexDigit_hexChar : ∀ d < 16, hexDigit (hexChar d) = true := by decide

/-- It writes hexadecimal digits only, so `from_hex` refuses nothing of it. -/
theorem toHex_chars {s : Str} : ∀ c ∈ toHex s, hexDigit c = true := by
  intro c hc
  obtain ⟨d, -, hcd⟩ := List.mem_flatMap.mp hc
  have hd : d.toNat < 256 := d.toNat_lt
  simp only [List.mem_cons, List.not_mem_nil, or_false] at hcd
  rcases hcd with rfl | rfl
  · exact hexDigit_hexChar _ (by omega)
  · exact hexDigit_hexChar _ (by omega)

theorem length_toHex (s : Str) : (toHex s).length = 2 * s.length := by
  have hlen := congrArg List.length (hexDigits_toHex s)
  rwa [hexDigits, List.length_map, length_flatMap_digits, List.length_map] at hlen

theorem fromHex_toHex (s : Str) : fromHex (toHex s) none = .ok s := by
  have hbytes : Small (16 ^ 2) (s.map UInt8.toNat) := small_bytes s
  rw [fromHex_eq toHex_chars ⟨s.length, length_toHex s⟩, hexDigits_toHex,
    map_number_chunks (by omega) hbytes, map_ofNat_toNat]

/-! ## base32, base64 and their relatives -/

/-- What an encoder writes is in its alphabet or is padding, so its decoder refuses nothing
of it. -/
theorem toBasexx_chars {bits : Nat} {alphabet : Alphabet bits} (hbits : 0 < bits) {s pad : Str} :
    ∀ c ∈ toBasexx s alphabet pad, c ∈ alphabet.chars ∨ c ∈ pad := by
  intro c hc
  rw [toBasexx_eq hbits, List.mem_append] at hc
  rcases hc with hgroup | hpad
  · obtain ⟨g, hg, rfl⟩ := List.mem_map.mp hgroup
    exact Or.inl (Alphabet.char_mem (small_regroup (by omega) hbits (small_bitsOf s) g hg))
  · exact Or.inr hpad

theorem pad_base32 (n : Nat) : ∀ c ∈ base32PadMap.getD (n % 5) [], c = 61 := by
  have hmod : n % 5 < 5 := Nat.mod_lt _ (by omega)
  have hall : ∀ k < 5, ∀ c ∈ base32PadMap.getD k [], c = 61 := by decide +kernel
  exact hall _ hmod

theorem pad_base64 (n : Nat) : ∀ c ∈ base64PadMap.getD (n % 3) [], c = 61 := by
  have hmod : n % 3 < 3 := Nat.mod_lt _ (by omega)
  have hall : ∀ k < 3, ∀ c ∈ base64PadMap.getD k [], c = 61 := by decide +kernel
  exact hall _ hmod

/-- The characters that upper case leaves as they are. -/
theorem upper_eq {s : Str} (h : ∀ c ∈ s, c < 97) : upper s = s := by
  apply map_fixed
  intro c hc
  have hlt : c.toNat < 97 := UInt8.lt_iff_toNat_lt.mp (h c hc)
  rw [upperByte, if_neg]
  intro hlower
  have hle : 97 ≤ c.toNat := UInt8.le_iff_toNat_le.mp hlower.1
  omega

/-- The round trip of base32, over the general one. -/
theorem fromBase32_toBase32 (s : Str) : fromBase32 (toBase32 s) none = .ok s := by
  have hchars : ∀ c ∈ toBase32 s, c < 97 := by
    intro c hc
    have hall : ∀ d ∈ base32Alphabet.chars, d < 97 := by decide +kernel
    rcases toBasexx_chars (by omega) c hc with hmem | hpad
    · exact hall c hmem
    · rw [pad_base32 _ c hpad]
      decide
  rw [fromBase32, ignoreSet, upper_eq hchars]
  exact fromBasexx_toBasexx (by omega) (by omega) s (pad_base32 _)

/-- The round trip of Crockford's alphabet, which is written without padding. -/
theorem fromCrockford_toCrockford (s : Str) : fromCrockford (toCrockford s) none = .ok s := by
  have hmem : ∀ c ∈ toCrockford s, c ∈ crockfordAlphabet.chars := by
    intro c hc
    rcases toBasexx_chars (by omega) c hc with hmem | hpad
    · exact hmem
    · cases hpad
  have hall : ∀ d ∈ crockfordAlphabet.chars, d < 97 ∧ crockfordMap d = d := by decide +kernel
  have hmap : (toCrockford s).map crockfordMap = toCrockford s := by
    apply map_fixed
    intro c hc
    exact (hall c (hmem c hc)).2
  rw [fromCrockford, ignoreSet, upper_eq fun c hc => (hall c (hmem c hc)).1, hmap]
  exact fromBasexx_toBasexx (by omega) (by omega) s (by simp)

theorem fromBase64_toBase64 (s : Str) : fromBase64 (toBase64 s) none = .ok s :=
  fromBasexx_toBasexx (by omega) (by omega) s (pad_base64 _)

theorem fromUrl64_toUrl64 (s : Str) : fromUrl64 (toUrl64 s) none = .ok s :=
  fromBasexx_toBasexx (by omega) (by omega) s (by simp)

end LuadchAnnouncer.Basexx
