import LuadchAnnouncer.Adclib.Hash
import LuadchAnnouncer.Core.Adc

/-!
# The identity of the bot, with the hashes of `adclib`

The hashes that `Core.Adc` takes as parameters are those of the library.
-/

namespace LuadchAnnouncer.Core.AdcHashes

open LuadchAnnouncer.Verified.Bytes
open LuadchAnnouncer.Adclib (saltBytes)
open LuadchAnnouncer.Adclib.Base32
open LuadchAnnouncer.Adclib.Hash
open LuadchAnnouncer.Adclib.Tiger
open LuadchAnnouncer.Basexx (base32Alphabet)
open LuadchAnnouncer.Core.Adc

theorem text_base32 (xs : Str) : ∀ c ∈ text xs, base32Digit c = true := by
  have hall : ∀ c ∈ base32Alphabet.chars, base32Digit c = true := by decide +kernel
  exact fun c hc => hall c (text_digits xs c hc)

/-- The PID of a start: the first block ends with two characters of the time. -/
theorem pas_start {late : Str} (hlate : late.length ≤ 8) :
    pas (salt ++ cutNow (lit "22" ++ late)) (cutNow (lit "22" ++ late) ++ salt) =
      toBase32 (getResult (compress (compress initial (salt ++ lit "22"))
        (late ++ saltOf (lit "22" ++ late ++ salt) ++
          padding (64 + (late ++ saltOf (lit "22" ++ late ++ salt)).length)))) := by
  have hcut : cutNow (lit "22" ++ late) = lit "22" ++ late := by
    apply List.take_of_length_le
    rw [List.length_append, show (lit "22").length = 2 from rfl]
    omega
  have hsalt : salt.length = 62 := by decide
  have hrest : (late ++ saltOf (lit "22" ++ late ++ salt)).length ≤ 55 := by
    rw [List.length_append, length_saltOf, saltBytes, List.length_append, List.length_append, hsalt,
      show (lit "22").length = 2 from rfl]
    omega
  have hblock : (salt ++ lit "22").length = 64 := by decide
  rw [pas, text, hcut, ← tiger_block hblock hrest]
  simp only [List.append_assoc]

set_option maxRecDepth 8192 in
/-- The time of a start has some influence on the PID. -/
theorem pas_varies : pas (salt ++ cutNow (lit "22" ++ [])) (cutNow (lit "22" ++ []) ++ salt) ≠
    pas (salt ++ cutNow (lit "22" ++ lit "2")) (cutNow (lit "22" ++ lit "2") ++ salt) := by
  rw [pas_start (by decide), pas_start (by decide), saltOf_eq (by decide), saltOf_eq (by decide)]
  intro h
  have hword := congrArg (fun res : State => res[0]) (getResult_inj (toBase32_inj h))
  revert hword
  decide +kernel

/-- The hashes of `adclib`. -/
def hashes : Hashes where
  pas := pas
  hash := cidOf
  pas_digits := fun _ _ => text_base32 _
  hash_digits := fun _ => text_base32 _
  varies := ⟨_, _, pas_varies⟩

/-- **The identity a start makes**: the PID is 24 bytes in 39 digits, the CID the hash of
these bytes, as a hub computes it. -/
theorem createid_pair (now : Str) : ∃ raw, raw.length = 24 ∧
    createid hashes now = .ok (toBase32 raw, text raw) ∧
    (toBase32 raw).length = 39 ∧ (text raw).length = 39 := by
  refine ⟨getResult (tiger (salt ++ cutNow now ++ saltOf (cutNow now ++ salt))),
    length_getResult _, ?_, length_text _, length_text _⟩
  have hpid : createid hashes now = .ok (_, _) := createid_eq hashes now
  rw [hpid]
  show Except.ok (pas _ _, cidOf (pas _ _)) = _
  rw [cidOf, pas, text, decoded_toBase32 (length_getResult _)]

end LuadchAnnouncer.Core.AdcHashes
