import Mathlib.Data.List.TakeWhile
import LuadchAnnouncer.Verified.LuaValue

/-!
# `adclib`

The functions of the C++ library that the network code calls, and `unescape`,
which a reader of its frames would call.  `escape` and `unescape` take a C
string, so they stop at the first zero byte; `hashpas` checks the length of the
salt before it touches it, and raises when there is none or when the decoded
bytes would not fit its buffer.

What `hashpas` answers to a salt that it takes is a parameter here, because no
property of the network code rests on it.  `Adclib.Hash` models the hash itself,
and shows that it is an instance of this parameter (`hashPas_model`).
-/

namespace LuadchAnnouncer.Adclib

open LuadchAnnouncer.Verified.Bytes
open LuadchAnnouncer.Verified.LuaValue

/-- What one byte becomes in an ADC parameter. -/
def escapeByte (c : UInt8) : Str :=
  if c = 32 then lit "\\s" else if c = 10 then lit "\\n" else if c = 92 then lit "\\\\" else [c]

/-- `adclib.escape( s )` -/
def escape (s : Str) : Str := (s.takeWhile (· != 0)).flatMap escapeByte

/-- What an escaped byte stands for.  Behind a backslash an unknown byte is
dropped. -/
def unescapeByte (c : UInt8) : Str :=
  (if c = 115 then [32] else []) ++ (if c = 110 then [10] else []) ++
    (if c = 92 then [92] else [])

/-- The loop of `unescape`.  A backslash at the very end is dropped. -/
def unescapeFrom : Str → Str
  | [] => []
  | [c] => if c = 92 then [] else [c]
  | c :: d :: s =>
      if c = 92 then unescapeByte d ++ unescapeFrom s else c :: unescapeFrom (d :: s)

/-- `adclib.unescape( s )` -/
def unescape (s : Str) : Str := unescapeFrom (s.takeWhile (· != 0))

/-- `MAX_SALT_BYTES` -/
def maxSaltBytes : Nat := 64

/-- The number of bytes a base32 text of this length decodes to. -/
def saltBytes (salt : Str) : Nat := salt.length * 5 / 8

/-- `adclib.hashpas( pass, salt )`, where `none` is a `nil` salt and `tiger`
is the base32 text of the hash of password and salt. -/
def hashPas (tiger : Str → Str → Str) (pass : Str) (salt : Option Str) : Except LuaError Str :=
  match salt with
  | none => .error .call
  | some salt =>
      if saltBytes salt = 0 ∨ maxSaltBytes < saltBytes salt then .error .call
      else .ok (tiger pass salt)

/-! ## Escaping and back -/

theorem unescapeFrom_of_ne {c : UInt8} (hc : c ≠ 92) (s : Str) :
    unescapeFrom (c :: s) = c :: unescapeFrom s := by
  cases s with
  | nil => simp [unescapeFrom, hc]
  | cons d s => simp [unescapeFrom, hc]

/-- One escaped byte is read back as the byte it was, whatever follows. -/
theorem unescapeFrom_escapeByte (c : UInt8) (s : Str) :
    unescapeFrom (escapeByte c ++ s) = c :: unescapeFrom s := by
  unfold escapeByte
  split
  case isTrue hspace =>
    rw [hspace]
    rfl
  case isFalse =>
    split
    case isTrue hlf =>
      rw [hlf]
      rfl
    case isFalse =>
      split
      case isTrue hbackslash =>
        rw [hbackslash]
        rfl
      case isFalse hc => exact unescapeFrom_of_ne hc s

theorem unescapeFrom_flatMap (s : Str) : unescapeFrom (s.flatMap escapeByte) = s := by
  induction s with
  | nil => rfl
  | cons c s ih => rw [List.flatMap_cons, unescapeFrom_escapeByte, ih]

theorem ne_of_mem_pair :
    ∀ w ∈ [lit "\\s", lit "\\n", lit "\\\\"], ∀ d ∈ w, d ≠ 32 ∧ d ≠ 10 ∧ d ≠ 0 := by
  decide +kernel

/-- The bytes an escaped text is made of: none of them separates anything. -/
theorem ne_of_mem_escapeByte {c d : UInt8} (h : d ∈ escapeByte c) :
    d ≠ 32 ∧ d ≠ 10 ∧ (d = 0 → c = 0) := by
  have hpair : ∀ w ∈ [lit "\\s", lit "\\n", lit "\\\\"], d ∈ w →
      d ≠ 32 ∧ d ≠ 10 ∧ (d = 0 → c = 0) := by
    intro w hw hd
    obtain ⟨hspace, hlf, hzero⟩ := ne_of_mem_pair w hw d hd
    exact ⟨hspace, hlf, fun h => absurd h hzero⟩
  unfold escapeByte at h
  split at h
  case isTrue => exact hpair _ (by simp) h
  case isFalse hspace =>
    split at h
    case isTrue => exact hpair _ (by simp) h
    case isFalse hlf =>
      split at h
      case isTrue => exact hpair _ (by simp) h
      case isFalse =>
        rw [List.mem_singleton] at h
        subst h
        exact ⟨hspace, hlf, id⟩

theorem space_notMem_escape (s : Str) : 32 ∉ escape s := by
  intro h
  obtain ⟨c, -, hc⟩ := List.mem_flatMap.mp h
  exact (ne_of_mem_escapeByte hc).1 rfl

theorem lf_notMem_escape (s : Str) : lf ∉ escape s := by
  intro h
  obtain ⟨c, -, hc⟩ := List.mem_flatMap.mp h
  exact (ne_of_mem_escapeByte hc).2.1 rfl

/-- A text without a zero byte is a C string as it is. -/
theorem takeWhile_ne_zero {s : Str} (h : 0 ∉ s) : s.takeWhile (· != 0) = s := by
  apply List.takeWhile_eq_self_iff.mpr
  intro c hc
  have hne : c ≠ 0 := by
    rintro rfl
    exact h hc
  simpa using hne

theorem zero_notMem_escape {s : Str} (h : 0 ∉ s) : 0 ∉ escape s := by
  intro hmem
  unfold escape at hmem
  rw [takeWhile_ne_zero h] at hmem
  obtain ⟨c, hs, hc⟩ := List.mem_flatMap.mp hmem
  have hzero : c = 0 := (ne_of_mem_escapeByte hc).2.2 rfl
  exact h (hzero ▸ hs)

/-- **Unescaping undoes escaping**, for every text that is a C string. -/
theorem unescape_escape {s : Str} (h : 0 ∉ s) : unescape (escape s) = s := by
  have hescaped : (escape s).takeWhile (· != 0) = escape s :=
    takeWhile_ne_zero (zero_notMem_escape h)
  unfold unescape
  rw [hescaped]
  unfold escape
  rw [takeWhile_ne_zero h]
  exact unescapeFrom_flatMap s

end LuadchAnnouncer.Adclib
