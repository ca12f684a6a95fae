import LuadchAnnouncer.Adclib.Base32
import LuadchAnnouncer.Core.NetLogin
import LuadchAnnouncer.Verified.LuaLiteral

/-!
# Pinning a certificate

With a keyprint in `hub.lua` a session compares the text of it with the text it
makes of the certificate's digest.  Those texts are as good as the digests: the
two encodings between them lose nothing but the case of the hexadecimal digits.

## Main results

* `keyprint_eq_iff` — two digests have one text exactly if they are one digest, in
  either case.
* `Printed.step` — every frame is sent behind the check.
* `keyprint_pins` — a session sends nothing to a hub with another certificate.
-/

namespace LuadchAnnouncer.Core.NetKeyprint

open LuadchAnnouncer.Verified.Bytes
open LuadchAnnouncer.Verified.LuaValue
open LuadchAnnouncer.Verified.Program
open LuadchAnnouncer.Verified.Chunks
open LuadchAnnouncer.Verified.Digits
open LuadchAnnouncer.Verified.LuaLiteral (forall_byte)
open LuadchAnnouncer.Basexx
open LuadchAnnouncer.Core.Net
open LuadchAnnouncer.Core.NetTrace
open LuadchAnnouncer.Core.NetLogin

/-- `basexx.to_base32( basexx.from_hex( digest ) ):gsub( "=", "" )`, which indexes
`nil` where the digest is not hexadecimal. -/
def keyprint (digest : Str) : Except LuaError Str :=
  match fromHex digest none with
  | .error _ => .error .index
  | .ok s => .ok ((toBase32 s).filter fun c => c != 61)

/-- What `cert:digest( "sha256" )` returns: hexadecimal digits in pairs. -/
structure Digest (digest : Str) : Prop where
  hex : ∀ c ∈ digest, hexDigit c = true
  pairs : 2 ∣ digest.length
  ne_nil : digest ≠ []

/-! ## What a keyprint says -/

/-- Without the padding a text is decoded just the same. -/
theorem fromBase32_unpadded (s : Str) :
    fromBase32 ((toBase32 s).filter fun c => c != 61) none = .ok s := by
  have hgs : Small (2 ^ 5) (regroup 2 5 (bitsOf s)) :=
    small_regroup (by omega) (by omega) (small_bitsOf s)
  have hchars : ∀ c ∈ (regroup 2 5 (bitsOf s)).map base32Alphabet.char, c < 97 := by
    intro c hc
    obtain ⟨g, hg, rfl⟩ := List.mem_map.mp hc
    have hall : ∀ d ∈ base32Alphabet.chars, d < 97 := by decide +kernel
    exact hall _ (Alphabet.char_mem (hgs g hg))
  have hread := @fromBasexx_eq _ base32Alphabet _ hgs [] (by simp)
  rw [List.append_nil] at hread
  rw [Adclib.Base32.toBase32_filter, Adclib.Base32.toBase32_eq, fromBase32, ignoreSet,
    upper_eq hchars, hread, bitsOf_eq, ungroup_regroup (by omega) (by omega) (by omega)
    (small_bytes s), map_ofNat_toNat]

/-- A hexadecimal digit in lower case. -/
def hexLower (v : Nat) : UInt8 := UInt8.ofNat (if v < 10 then 48 + v else 87 + v)

set_option maxRecDepth 8192 in
theorem lowerByte_hex (c : UInt8) :
    hexDigit c = true → lowerByte c = hexLower ((LuaNum.hexValue c).getD 0) :=
  forall_byte (p := fun c => hexDigit c = true →
    lowerByte c = hexLower ((LuaNum.hexValue c).getD 0)) (by decide) c

set_option maxRecDepth 8192 in
theorem hexValue_lowerByte (c : UInt8) : LuaNum.hexValue (lowerByte c) = LuaNum.hexValue c :=
  forall_byte (p := fun c => LuaNum.hexValue (lowerByte c) = LuaNum.hexValue c) (by decide) c

/-- **The digits of a hexadecimal text are the text**, up to its case. -/
theorem hexDigits_eq_iff {d d' : Str} (hd : ∀ c ∈ d, hexDigit c = true)
    (hd' : ∀ c ∈ d', hexDigit c = true) : hexDigits d = hexDigits d' ↔ lower d = lower d' := by
  constructor
  · intro h
    have hlower : ∀ s : Str, (∀ c ∈ s, hexDigit c = true) →
        lower s = (hexDigits s).map hexLower := by
      intro s hs
      rw [lower, hexDigits, List.map_map]
      apply List.map_congr_left
      intro c hc
      exact lowerByte_hex c (hs c hc)
    rw [hlower d hd, hlower d' hd', h]
  · intro h
    have hdigits : ∀ s : Str, hexDigits s = hexDigits (lower s) := by
      intro s
      rw [hexDigits, hexDigits, lower, List.map_map]
      apply List.map_congr_left
      intro c _
      rw [Function.comp_apply, hexValue_lowerByte]
    rw [hdigits d, hdigits d', h]

/-- The bytes of a digest. -/
def bytesOf (digest : Str) : Str :=
  ((chunks 2 (hexDigits digest)).map (number 16)).map UInt8.ofNat

theorem keyprint_eq {d : Str} (hd : Digest d) :
    keyprint d = .ok ((toBase32 (bytesOf d)).filter fun c => c != 61) := by
  rw [keyprint, fromHex_eq hd.hex hd.pairs]
  rfl

/-- The digits of a digest are in its bytes. -/
theorem digits_bytesOf {d : Str} (hd : Digest d) :
    ((bytesOf d).map UInt8.toNat).flatMap (digits 16 2) = hexDigits d := by
  have hsmall : Small 16 (hexDigits d) := hexDigits_lt hd.hex
  have hdvd : 2 ∣ (hexDigits d).length := by
    rw [hexDigits, List.length_map]
    exact hd.pairs
  have heach : ∀ c ∈ chunks 2 (hexDigits d),
      digits 16 2 (UInt8.ofNat (number 16 c)).toNat = c := by
    intro c hc
    have hlen : c.length = 2 := length_of_mem_chunks (by omega) hdvd c hc
    have hc' : Small 16 c := small_of_mem_chunks (by omega) hsmall hc
    have hlt : number 16 c < 256 := by
      have h := number_lt hc'
      rwa [hlen] at h
    rw [UInt8.toNat_ofNat', Nat.mod_eq_of_lt hlt, digits_of_number hc' hlen]
  have hflat : (chunks 2 (hexDigits d)).flatMap (fun c =>
      digits 16 2 (UInt8.ofNat (number 16 c)).toNat) = hexDigits d := by
    rw [List.flatMap_congr heach, List.flatMap_id', flatten_chunks (by omega)]
  rw [bytesOf, List.map_map, List.map_map, List.flatMap_map]
  exact hflat

/-- **A keyprint determines the digest**, up to its case. -/
theorem keyprint_eq_iff {d d' : Str} (hd : Digest d) (hd' : Digest d') :
    keyprint d = keyprint d' ↔ lower d = lower d' := by
  rw [← hexDigits_eq_iff hd.hex hd'.hex, keyprint_eq hd, keyprint_eq hd']
  constructor
  · intro h
    have htext := Except.ok.inj h
    have hbytes : bytesOf d = bytesOf d' := by
      have hread := fromBase32_unpadded (bytesOf d)
      rw [htext, fromBase32_unpadded] at hread
      exact (Except.ok.inj hread).symm
    rw [← digits_bytesOf hd, ← digits_bytesOf hd', hbytes]
  · intro h
    rw [bytesOf, bytesOf, h]

/-- The keyprint of a digest is not empty, so a hub with a certificate is never taken for
one without. -/
theorem keyprint_ne_nil {d keyp : Str} (hd : Digest d) (h : keyprint d = .ok keyp) :
    keyp ≠ [] := by
  rw [keyprint_eq hd] at h
  rintro rfl
  have hread := fromBase32_unpadded (bytesOf d)
  have hnil : (toBase32 []).filter (fun c => c != 61) = [] := rfl
  rw [Except.ok.inj h, ← hnil, fromBase32_unpadded] at hread
  have hbytes : bytesOf d = [] := (Except.ok.inj hread).symm
  have hdigits := digits_bytesOf hd
  rw [hbytes] at hdigits
  exact hd.ne_nil (List.map_eq_nil_iff.mp hdigits.symm)

/-! ## A hub with a certificate -/

/-- The replies of a hub whose certificate has this digest. -/
def presented (digest : Str) : (e : Eff) → Reply e → Prop
  | .fingerprint, reply => reply = none ∨ reply = (keyprint digest).toOption
  | _, _ => True

/-- Any hub with this certificate: the fingerprint the session computes is the keyprint of
the digest, or none where it could not be computed. -/
def Presents (digest : Str) (s : Trace) (e : Eff) (reply : Reply e) (s' : Trace) : Prop :=
  presented digest e reply ∧ AnyHub s e reply s'

/-- The fingerprint of a session is the keyprint of the certificate. -/
def Printed (digest : Str) (s : Trace) : Prop :=
  s.fingerprint = none ∨ s.fingerprint = (keyprint digest).toOption

/-- Whatever the session does, the keyprint it has noted is the one of the digest that was
presented. -/
theorem Printed.step {digest : Str} {s s' : Trace} {e : Eff} {reply : Reply e}
    (hs : Printed digest s) (h : Presents digest s e reply s') : Printed digest s' := by
  obtain ⟨hreply, rfl⟩ := h
  unfold Trace.observe
  split
  case h_1 => exact hreply
  case h_2 => exact hs
  case h_3 =>
    unfold Trace.read
    split
    · exact hs
    · exact hs
  case h_4 => exact hs
  case h_5 => exact hs

/-- **Pinning.**  With the keyprint of a certificate in its settings, a session
sends nothing to a hub that presents another one, and takes the one it is for. -/
theorem keyprint_pins (settings : Settings) (d d' : Str) (hd : Digest d) (hd' : Digest d')
    (hkeyp : keyprint d = .ok settings.hub.keyp) (fuel : Nat) :
    Ensures (Presents d') (loop settings fuel) start fun _ s =>
      (s.sent ≠ [] → lower d' = lower d) ∧ (lower d' = lower d → ¬ Mismatch settings s) := by
  have hne : settings.hub.keyp ≠ [] := keyprint_ne_nil hd hkeyp
  have hprinted : Ensures (Presents d') (loop settings fuel) start fun _ s => Printed d' s := by
    apply ensures_uses (P := fun _ => True) (I := Printed d')
    · intro s e reply s' _ hs h
      exact hs.step h
    · exact Prog.uses_true _
    · exact Or.inl rfl
  intro o s hexec
  have hprint : Printed d' s := hprinted o s hexec
  have hsafe : Safe settings s := by
    have hany : Exec AnyHub (loop settings fuel) start o s := hexec.view id fun _ _ _ _ h => h.2
    have hwhole := loop_whole settings fuel o s hany
    cases o with
    | ret a => exact hwhole.1
    | exit b => exact hwhole.1
    | raise err => exact hwhole
    | running => exact hwhole
  constructor
  · intro hsent
    rcases hsafe.keyprint hsent with hempty | hsame
    · exact absurd hempty hne
    · rcases hprint with hnone | hsome
      · rw [hnone] at hsame
        cases hsame
      · rw [hsome, keyprint_eq hd'] at hsame
        have hkeyp' : keyprint d' = .ok settings.hub.keyp := by
          rw [keyprint_eq hd']
          exact congrArg Except.ok (Option.some.inj hsame)
        exact (keyprint_eq_iff hd' hd).mp (hkeyp'.trans hkeyp.symm)
  · rintro hlower ⟨-, fp, hfp, hdiff⟩
    rcases hprint with hnone | hsome
    · rw [hnone] at hfp
      cases hfp
    · have hsame := (keyprint_eq_iff hd' hd).mpr hlower
      rw [hsome, hsame, hkeyp] at hfp
      exact hdiff (Option.some.inj hfp).symm

/-- A certificate, and the same one in upper case. -/
theorem keyprint_pins_zero :
    keyprint (lit "ab") = .ok (lit "VM") ∧
      Ensures (Presents (lit "AB"))
        (loop { defaultSettings with hub := { defaultSettings.hub with keyp := lit "VM" } } 3)
        start fun _ s => (s.sent ≠ [] → lower (lit "AB") = lower (lit "ab")) ∧
          (lower (lit "AB") = lower (lit "ab") →
            ¬ Mismatch { defaultSettings with hub := { defaultSettings.hub with keyp := lit "VM" } }
              s) := by
  have hd : Digest (lit "ab") := ⟨by decide +kernel, by decide, by decide⟩
  have hd' : Digest (lit "AB") := ⟨by decide +kernel, by decide, by decide⟩
  have hbytes : bytesOf (lit "ab") = [171] := by
    have hdigits : hexDigits (lit "ab") = [10, 11] := by decide
    rw [bytesOf, hdigits, chunks_short (by simp) (by simp)]
    rfl
  have hkeyp : keyprint (lit "ab") = .ok (lit "VM") := by
    have hbits : bitsOf [171] = [1, 0, 1, 0, 1] ++ [0, 1, 1] := by decide
    have hgroups : regroup 2 5 (bitsOf [171]) = [21, 12] := by
      rw [hbits, regroup_cons (w := 5) (by omega) rfl, regroup_short (by simp) (by simp)]
      rfl
    rw [keyprint_eq hd, hbytes, Adclib.Base32.toBase32_filter, Adclib.Base32.toBase32_eq, hgroups]
    rfl
  have hpins := keyprint_pins
    { defaultSettings with hub := { defaultSettings.hub with keyp := lit "VM" } } _ _ hd hd' hkeyp
  exact ⟨hkeyp, hpins 3⟩

end LuadchAnnouncer.Core.NetKeyprint
