import LuadchAnnouncer.Verified.Digits
import LuadchAnnouncer.Verified.LuaValue

/-!
# `basexx/basexx.lua`

The text encodings of bytes, of which `net.loop` uses two to spell a keyprint.
The library works on texts throughout: the bits of a string are a text of `0`
and `1`, which `divide_string` cuts and `tonumber` reads.

`tonumber( s, base )` is `LuaNum.digitsValue` here, for every text it is called
on has been looked through before; the optional argument `ignore`, which is put
between brackets to make a pattern, is the class that pattern denotes.
-/

namespace LuadchAnnouncer.Basexx

open LuadchAnnouncer.Verified.Bytes
open LuadchAnnouncer.Verified.LuaValue
open LuadchAnnouncer.Verified
open LuadchAnnouncer.Verified.Chunks
open LuadchAnnouncer.Verified.Digits

/-! ## The helpers -/

/-- `str:sub( i, j )` for positions inside the string. -/
def sub (str : Str) (i j : Nat) : Str := (str.take j).drop (i - 1)

/-- The body of the loop of `divide_string`, with `result` and `start`. -/
def divideStep (str : Str) (max : Nat) (s : List Str × Nat) (i : Nat) : List Str × Nat :=
  if i % max = 0 then (s.1 ++ [sub str s.2 i], i + 1)
  else if i = str.length then (s.1 ++ [sub str s.2 i], s.2)
  else s

/-- `divide_string( str, max )` -/
def divideString (str : Str) (max : Nat) : List Str :=
  ((List.range' 1 str.length).foldl (divideStep str max) ([], 1)).1

/-- A number below ten as a character. -/
def digitChar (d : Nat) : UInt8 := UInt8.ofNat (48 + d)

/-- What the loop of `number_to_bit` puts into `bits`. -/
def rests (num : Nat) : List Nat :=
  if num = 0 then [] else num % 2 :: rests (num / 2)

/-- `number_to_bit( num, length )` -/
def numberToBit (num length : Nat) : Str :=
  ((rests num).map digitChar ++ List.replicate (length - (rests num).length) 48).reverse

/-- `ignore_set( str, set )` -/
def ignoreSet (str : Str) (set : Option LuaPattern.Class) : Str :=
  match set with
  | none => str
  | some set => str.filter fun c => !set c

/-- `str:gsub( pattern, f )` for a pattern of `n` dots. -/
def gsubDots (n : Nat) (f : Str → Str) (str : Str) : Str :=
  (chunks n str).flatMap fun cc => if cc.length = n then f cc else cc

/-- `pure_from_bit( str )` -/
def pureFromBit (str : Str) : Str :=
  gsubDots 8 (fun cc => [UInt8.ofNat (LuaNum.digitsValue 2 cc)]) str

/-! ## base2 and base16 -/

/-- `toupper` of the C locale. -/
def upperByte (c : UInt8) : UInt8 := if 97 ≤ c ∧ c ≤ 122 then c - 32 else c

/-- `string.upper( str )` -/
def upper (str : Str) : Str := str.map upperByte

/-- `bitMap[ c ]`, for the characters it is asked for. -/
def bitMap (c : UInt8) : UInt8 := if c = 111 then 48 else if c = 105 ∨ c = 108 then 49 else c

/-- A value, or `nil` and the character that is wrong. -/
abbrev Decoded := Except UInt8 Str

/-- `basexx.from_bit( str, ignore )` -/
def fromBit (str : Str) (ignore : Option LuaPattern.Class) : Decoded :=
  let str := (lower (ignoreSet str ignore)).map bitMap
  match str.find? fun c => c != 48 && c != 49 with
  | some wrong => .error wrong
  | none => .ok (pureFromBit str)

/-- What the inner loop of `to_bit` puts into `bits`. -/
def byteRests : Nat → Nat → List Nat
  | 0, _ => []
  | i + 1, byte => byte % 2 :: byteRests i (byte / 2)

/-- `basexx.to_bit( str )` -/
def toBit (str : Str) : Str :=
  str.flatMap fun c => ((byteRests 8 c.toNat).map digitChar).reverse

/-- `%x` -/
def hexDigit (c : UInt8) : Bool := (LuaNum.hexValue c).isSome

/-- `basexx.from_hex( str, ignore )` -/
def fromHex (str : Str) (ignore : Option LuaPattern.Class) : Decoded :=
  let str := ignoreSet str ignore
  match str.find? fun c => !hexDigit c with
  | some wrong => .error wrong
  | none => .ok (gsubDots 2 (fun cc => [UInt8.ofNat (LuaNum.digitsValue 16 cc)]) str)

/-- A digit of `%X`. -/
def hexChar (d : Nat) : UInt8 := if d < 10 then UInt8.ofNat (48 + d) else UInt8.ofNat (55 + d)

/-- `basexx.to_hex( str )` -/
def toHex (str : Str) : Str :=
  str.flatMap fun c => [hexChar (c.toNat / 16), hexChar (c.toNat % 16)]

/-! ## base32 and base64 -/

/-- The characters for the groups of `bits` bits, as the source has them in a string.
They are distinct, and none is the `=` of the padding. -/
structure Alphabet (bits : Nat) where
  chars : Str
  length : chars.length = 2 ^ bits
  nodup : chars.Nodup
  noPad : 61 ∉ chars

section

variable {bits : Nat}

/-- The loop of `from_basexx`, up to `table.concat`. -/
def basexxBits (alphabet : Alphabet bits) : Str → Except UInt8 Str
  | [] => .ok []
  | c :: str =>
      if c = 61 then basexxBits alphabet str
      else match alphabet.chars.idxOf? c with
        | none => .error c
        | some index => (basexxBits alphabet str).map (numberToBit index bits ++ ·)

/-- `from_basexx( str, alphabet, bits )` -/
def fromBasexx (str : Str) (alphabet : Alphabet bits) : Decoded := do
  let value ← basexxBits alphabet str
  let pad := value.length % 8
  .ok (pureFromBit (value.take (value.length - pad)))

/-- The character for one chunk. -/
def basexxChar (alphabet : Alphabet bits) (value : Str) : Str :=
  let value := if value.length < bits then value ++ List.replicate (bits - value.length) 48
    else value
  (alphabet.chars.drop (LuaNum.digitsValue 2 value)).take 1

/-- `to_basexx( str, alphabet, bits, pad )` -/
def toBasexx (str : Str) (alphabet : Alphabet bits) (pad : Str) : Str :=
  (divideString (toBit str) bits).flatMap (basexxChar alphabet) ++ pad

end

def base32Alphabet : Alphabet 5 where
  chars := lit "ABCDEFGHIJKLMNOPQRSTUVWXYZ234567"
  length := by decide
  nodup := by decide
  noPad := by decide

def base32PadMap : List Str := [lit "", lit "======", lit "====", lit "===", lit "="]

/-- `basexx.from_base32( str, ignore )` -/
def fromBase32 (str : Str) (ignore : Option LuaPattern.Class) : Decoded :=
  fromBasexx (upper (ignoreSet str ignore)) base32Alphabet

/-- `basexx.to_base32( str )` -/
def toBase32 (str : Str) : Str :=
  toBasexx str base32Alphabet (base32PadMap.getD (str.length % 5) [])

def crockfordAlphabet : Alphabet 5 where
  chars := lit "0123456789ABCDEFGHJKMNPQRSTVWXYZ"
  length := by decide
  nodup := by decide
  noPad := by decide

/-- `crockfordMap[ c ]`, for the characters it is asked for: there is none for
`U`, so that stays as it is. -/
def crockfordMap (c : UInt8) : UInt8 := if c = 79 then 48 else if c = 73 ∨ c = 76 then 49 else c

/-- `basexx.from_crockford( str, ignore )` -/
def fromCrockford (str : Str) (ignore : Option LuaPattern.Class) : Decoded :=
  fromBasexx ((upper (ignoreSet str ignore)).map crockfordMap) crockfordAlphabet

/-- `basexx.to_crockford( str )` -/
def toCrockford (str : Str) : Str := toBasexx str crockfordAlphabet []

def base64Alphabet : Alphabet 6 where
  chars := lit "ABCDEFGHIJKLMNOPQRSTUVWXYZabcdefghijklmnopqrstuvwxyz0123456789+/"
  length := by decide
  nodup := by decide
  noPad := by decide

def base64PadMap : List Str := [lit "", lit "==", lit "="]

/-- `basexx.from_base64( str, ignore )` -/
def fromBase64 (str : Str) (ignore : Option LuaPattern.Class) : Decoded :=
  fromBasexx (ignoreSet str ignore) base64Alphabet

/-- `basexx.to_base64( str )` -/
def toBase64 (str : Str) : Str :=
  toBasexx str base64Alphabet (base64PadMap.getD (str.length % 3) [])

def url64Alphabet : Alphabet 6 where
  chars := lit "ABCDEFGHIJKLMNOPQRSTUVWXYZabcdefghijklmnopqrstuvwxyz0123456789-_"
  length := by decide
  nodup := by decide
  noPad := by decide

/-- `basexx.from_url64( str, ignore )` -/
def fromUrl64 (str : Str) (ignore : Option LuaPattern.Class) : Decoded :=
  fromBasexx (ignoreSet str ignore) url64Alphabet

/-- `basexx.to_url64( str )` -/
def toUrl64 (str : Str) : Str := toBasexx str url64Alphabet []

/-! ## z85 -/

def z85Decoder : List Nat := [
  0x00, 0x44, 0x00, 0x54, 0x53, 0x52, 0x48, 0x00, 0x4B, 0x4C, 0x46, 0x41,
  0x00, 0x3F, 0x3E, 0x45, 0x00, 0x01, 0x02, 0x03, 0x04, 0x05, 0x06, 0x07,
  0x08, 0x09, 0x40, 0x00, 0x49, 0x42, 0x4A, 0x47, 0x51, 0x24, 0x25, 0x26,
  0x27, 0x28, 0x29, 0x2A, 0x2B, 0x2C, 0x2D, 0x2E, 0x2F, 0x30, 0x31, 0x32,
  0x33, 0x34, 0x35, 0x36, 0x37, 0x38, 0x39, 0x3A, 0x3B, 0x3C, 0x3D, 0x4D,
  0x00, 0x4E, 0x43, 0x00, 0x00, 0x0A, 0x0B, 0x0C, 0x0D, 0x0E, 0x0F, 0x10,
  0x11, 0x12, 0x13, 0x14, 0x15, 0x16, 0x17, 0x18, 0x19, 0x1A, 0x1B, 0x1C,
  0x1D, 0x1E, 0x1F, 0x20, 0x21, 0x22, 0x23, 0x4F, 0x00, 0x50, 0x00, 0x00]

/-- The loop that takes a value apart, for a base above one. -/
def takeApart (base value divisor : Nat) : List Nat :=
  if 1 < base ∧ divisor ≠ 0 then
    value / divisor % base :: takeApart base value (divisor / base)
  else []
termination_by divisor
decreasing_by exact Nat.div_lt_self (by omega) (by omega)

/-- The loop of `from_z85` from pass `i` on. -/
def fromZ85Loop : Nat → Nat → Str → Except Int Str
  | _, _, [] => .ok []
  | i, value, c :: str =>
      let index : Int := c.toNat - 31
      if index < 1 ∨ (z85Decoder.length : Int) ≤ index then .error index
      else
        let value := value * 85 + z85Decoder.getD (index.toNat - 1) 0
        if i % 5 = 0 then
          (fromZ85Loop (i + 1) 0 str).map
            ((takeApart 256 value (256 * 256 * 256)).map UInt8.ofNat ++ ·)
        else fromZ85Loop (i + 1) value str

/-- `basexx.from_z85( str, ignore )`, with the second value where there is none
to return. -/
def fromZ85 (str : Str) (ignore : Option LuaPattern.Class) : Except Int Str :=
  let str := ignoreSet str ignore
  if str.length % 5 ≠ 0 then .error (str.length % 5 : Nat) else fromZ85Loop 1 0 str

def z85Encoder : Str :=
  lit "0123456789abcdefghijklmnopqrstuvwxyzABCDEFGHIJKLMNOPQRSTUVWXYZ" ++
    lit ".-:+=^!/*?&<>()[]\x7b\x7d@%$#"

/-- `z85Encoder:sub( index, index )` -/
def z85Char (index : Nat) : Str := (z85Encoder.drop (index - 1)).take 1

/-- The loop of `to_z85` from pass `i` on. -/
def toZ85Loop : Nat → Nat → Str → Str
  | _, _, [] => []
  | i, value, c :: str =>
      let value := value * 256 + c.toNat
      if i % 4 = 0 then
        (takeApart 85 value (85 * 85 * 85 * 85)).flatMap (fun d => z85Char (d + 1)) ++
          toZ85Loop (i + 1) 0 str
      else toZ85Loop (i + 1) value str

/-- `basexx.to_z85( str )`, with the second value where there is none to
return. -/
def toZ85 (str : Str) : Except Nat Str :=
  if str.length % 4 ≠ 0 then .error str.length else .ok (toZ85Loop 1 0 str)

/-! ## Bits as text -/

/-- The bits of a string. -/
def bitsOf (s : Str) : List Nat := s.flatMap fun c => digits 2 8 c.toNat

theorem small_bitsOf (s : Str) : Small 2 (bitsOf s) :=
  small_flatMap fun _ _ => small_digits (by omega) 8 _

/-- Byte by byte: each is written with eight bits, the most significant first. -/
theorem bitsOf_eq (s : Str) : bitsOf s = (s.map UInt8.toNat).flatMap (digits 2 8) := by
  rw [List.flatMap_map]
  rfl

theorem length_bitsOf (s : Str) : (bitsOf s).length = 8 * s.length := by
  rw [bitsOf_eq, length_flatMap_digits, List.length_map]

/-- The loop of `to_bit` takes the bits of a byte from the last one on. -/
theorem reverse_byteRests (n v : Nat) : (byteRests n v).reverse = digits 2 n v := by
  induction n generalizing v with
  | zero => rfl
  | succ n ih => rw [byteRests, List.reverse_cons, ih, digits_succ_last]

/-- So `to_bit` writes the bits of the string. -/
theorem toBit_eq (s : Str) : toBit s = (bitsOf s).map digitChar := by
  unfold toBit bitsOf
  rw [List.map_flatMap]
  apply List.flatMap_congr
  intro c _
  rw [← List.map_reverse, reverse_byteRests]

/-- The bits of a number, filled up in front. -/
theorem reverse_rests {num length : Nat} (h : num < 2 ^ length) :
    (rests num ++ List.replicate (length - (rests num).length) 0).reverse =
      digits 2 length num := by
  induction length generalizing num with
  | zero =>
      have hzero : num = 0 := by
        rw [Nat.pow_zero] at h
        omega
      rw [hzero, rests]
      rfl
  | succ length ih =>
      by_cases hzero : num = 0
      · rw [hzero, rests, if_pos rfl, List.nil_append, List.reverse_replicate, digits_zero]
        rfl
      · have hhalf : num / 2 < 2 ^ length := by
          rw [Nat.pow_succ] at h
          omega
        rw [rests, if_neg hzero, List.cons_append, List.reverse_cons, List.length_cons,
          Nat.add_sub_add_right, ih hhalf, digits_succ_last]

/-- `number_to_bit` writes the binary digits of a number, most significant first, in the
width that is asked for. -/
theorem numberToBit_eq {num length : Nat} (h : num < 2 ^ length) :
    numberToBit num length = (digits 2 length num).map digitChar := by
  have hzeros : List.replicate (length - (rests num).length) (48 : UInt8) =
      (List.replicate (length - (rests num).length) 0).map digitChar := by
    rw [List.map_replicate]
    rfl
  rw [numberToBit, hzeros, ← List.map_append, ← List.map_reverse, reverse_rests h]

theorem hexValue_digitChar {d : Nat} (hd : d < 2) : LuaNum.hexValue (digitChar d) = some d := by
  have hcases : d = 0 ∨ d = 1 := by omega
  rcases hcases with rfl | rfl
  · decide
  · decide

/-- `tonumber` of a text of bits. -/
theorem digitsValue_bits {ds : List Nat} (hds : Small 2 ds) :
    LuaNum.digitsValue 2 (ds.map digitChar) = number 2 ds := by
  have hfold : ∀ n, (ds.map digitChar).foldl
      (fun n c => 2 * n + (LuaNum.hexValue c).getD 0) n = n * 2 ^ ds.length + number 2 ds := by
    induction ds with
    | nil => simp [number]
    | cons d ds ih =>
        intro n
        have hd : d < 2 := hds d (by simp)
        rw [List.map_cons, List.foldl_cons, ih (hds.of_subset (by simp)), hexValue_digitChar hd,
          number, List.length_cons, Nat.pow_succ, Option.getD_some]
        ring
  rw [LuaNum.digitsValue, hfold, Nat.zero_mul, Nat.zero_add]

/-! ## Cutting a text -/

/-- The loop of `divide_string` behind pass `i`, before the last one: it has the
first `k` pieces, and is inside the next. -/
theorem divideStep_foldl {str : Str} {max : Nat} (hmax : 0 < max) {i : Nat}
    (hi : i < str.length) :
    ∃ k, max * k ≤ i ∧ i < max * k + max ∧
      (List.range' 1 i).foldl (divideStep str max) ([], 1) =
        (chunks max (str.take (max * k)), max * k + 1) := by
  induction i with
  | zero => exact ⟨0, by omega, by omega, by simp⟩
  | succ i ih =>
      obtain ⟨k, hlow, hhigh, heq⟩ := ih (by omega)
      have hpass : i + 1 = max * k + (i + 1 - max * k) := by omega
      rw [List.range'_concat, List.foldl_append, heq, List.foldl_cons, List.foldl_nil, Nat.one_mul,
        Nat.add_comm 1 i]
      by_cases hend : i + 1 = max * k + max
      · have hzero : (i + 1) % max = 0 := by
          rw [hend, Nat.mul_add_mod, Nat.mod_self]
        have hwhole : (str.take (max * k)).length = max * k := by
          rw [List.length_take]
          omega
        have hpiece : (sub str (max * k + 1) (i + 1)).length = max := by
          rw [sub, List.length_drop, List.length_take]
          omega
        have htake : str.take (max * (k + 1)) =
            str.take (max * k) ++ sub str (max * k + 1) (i + 1) := by
          have hsplit := List.take_append_drop (max * k) (str.take (max * k + max))
          rw [List.take_take, Nat.min_eq_left (by omega)] at hsplit
          rw [sub, hend, Nat.mul_succ, Nat.add_sub_cancel, hsplit]
        have hlast : chunks max (sub str (max * k + 1) (i + 1)) =
            [sub str (max * k + 1) (i + 1)] := by
          apply chunks_short
          · apply List.length_pos_iff.mp
            omega
          · omega
        refine ⟨k + 1, by rw [Nat.mul_succ]; omega, by rw [Nat.mul_succ]; omega, ?_⟩
        rw [divideStep, if_pos hzero, htake, chunks_append hmax ⟨k, hwhole⟩, hlast, Nat.mul_succ,
          ← hend]
      · have hne : (i + 1) % max ≠ 0 := by
          rw [hpass, Nat.mul_add_mod, Nat.mod_eq_of_lt (by omega)]
          omega
        refine ⟨k, by omega, by omega, ?_⟩
        rw [divideStep, if_neg hne, if_neg (by omega)]

/-- **`divide_string` cuts a text into pieces.** -/
theorem divideString_eq {str : Str} {max : Nat} (hmax : 0 < max) :
    divideString str max = chunks max str := by
  by_cases hnil : str = []
  · rw [hnil, chunks_nil]
    rfl
  · have hpos : 0 < str.length := List.length_pos_iff.mpr hnil
    have hbefore : str.length - 1 < str.length := by omega
    obtain ⟨k, hlow, hhigh, heq⟩ := divideStep_foldl hmax hbefore
    have hlen : str.length = str.length - 1 + 1 := by omega
    have hwhole : (str.take (max * k)).length = max * k := by
      rw [List.length_take]
      omega
    have hrest : sub str (max * k + 1) str.length = str.drop (max * k) := by
      rw [sub, List.take_length, Nat.add_sub_cancel]
    -- the last pass adds what is left, as a whole piece or not
    have hlast : (divideStep str max (chunks max (str.take (max * k)), max * k + 1)
        str.length).1 = chunks max (str.take (max * k)) ++ [str.drop (max * k)] := by
      rw [divideStep]
      split
      · rw [hrest]
      · rw [if_pos rfl, hrest]
    have hdrop : chunks max (str.drop (max * k)) = [str.drop (max * k)] := by
      apply chunks_short
      · apply List.length_pos_iff.mp
        rw [List.length_drop]
        omega
      · rw [List.length_drop]
        omega
    have hpasses : List.range' 1 str.length = List.range' 1 (str.length - 1) ++ [str.length] := by
      rw [hlen, List.range'_concat, Nat.one_mul, Nat.add_sub_cancel, Nat.add_comm 1]
    rw [divideString, hpasses, List.foldl_append, heq, List.foldl_cons, List.foldl_nil, hlast,
      ← hdrop, ← chunks_append hmax ⟨k, hwhole⟩, List.take_append_drop]

end LuadchAnnouncer.Basexx
