import LuadchAnnouncer.Adclib
import LuadchAnnouncer.Adclib.Base32
import LuadchAnnouncer.Adclib.TigerStream

/-!
# The hashes of `adclib`

`hash`, `hashpas` and `hasholdpas` decode what they are given in base32 into
buffers on the stack, feed it to a `TigerHash`, and encode the result.  They never
leave a buffer, and what else was on the stack makes no difference: the answer is a
function of the strings (`hashPas_eq`), and two passwords have one answer only
where the runs of `compress` come together (`hashPas_eq_iff`).

## Main results

* `hash_functions` — the three functions, on any stack.
* `answers_eq_iff` — when two passwords have one answer.
-/

namespace LuadchAnnouncer.Adclib.Hash

open LuadchAnnouncer.Verified.Bytes
open LuadchAnnouncer.Verified.LuaValue (LuaError)
open LuadchAnnouncer.Verified.LuaValue.LuaNum (intText)
open LuadchAnnouncer.Verified.BlockHash
open LuadchAnnouncer.Verified.Digits
open LuadchAnnouncer.Adclib.Base32
open LuadchAnnouncer.Adclib.Tiger
open LuadchAnnouncer.Basexx (bitsOf base32Alphabet)

/-- `SIZE` -/
def cidSize : Nat := 24

/-- `Tiger`, with these calls of `update`, and `TOBASE32` of the result. -/
def hashed (stack : Stack) (parts : List Str) : Str :=
  toBase32 (getResult ((parts.foldl TigerHash.update (new stack)).finalize))

/-- `hash_pid`, which is `adclib.hash`, where `none` is a write outside of a buffer. -/
def hashPid (stack : Stack) (pid : Str) : Option Str := do
  let cid ← fromBase32 pid cidSize
  some (hashed stack [cid])

/-- The text of `luaL_error`, without the place in the script. -/
def outOfRange (name salt : Str) : Str :=
  name ++ lit ": salt length " ++ intText (BitVec.ofNat 32 (saltBytes salt)).toInt ++
    lit " out of range"

/-- `hash_pas`, which is `adclib.hashpas`. -/
def hashPas (stack : Stack) (pass salt : Str) : Option (Except Str Str) :=
  if saltBytes salt = 0 ∨ maxSaltBytes < saltBytes salt then
    some (.error (outOfRange (lit "hashpas") salt))
  else do
    let chunk ← fromBase32 salt (saltBytes salt)
    some (.ok (hashed stack [pass, chunk]))

/-- `hash_pas_oldschool`, which is `adclib.hasholdpas`. -/
def hashPasOldschool (stack : Stack) (pass salt cid : Str) : Option (Except Str Str) :=
  if saltBytes salt = 0 ∨ maxSaltBytes < saltBytes salt then
    some (.error (outOfRange (lit "hasholdpas") salt))
  else do
    let chunk1 ← fromBase32 salt (saltBytes salt)
    let chunk2 ← fromBase32 cid cidSize
    some (.ok (hashed stack [chunk2, pass, chunk1]))

/-! ## What they compute -/

/-- The base32 text of the hash of a string. -/
def text (xs : Str) : Str := toBase32 (getResult (tiger xs))

/-- What a base32 text is decoded to, in `size` bytes. -/
def decoded (size : Nat) (src : Str) : Str := packed size (bitsIn src)

/-- The salt as it is hashed. -/
def saltOf (salt : Str) : Str := decoded (saltBytes salt) salt

theorem saltOf_eq {salt : Str} (h : 0 < saltBytes salt) :
    saltOf salt = (fromBase32 salt (saltBytes salt)).getD [] := by
  rw [fromBase32_eq h]
  rfl

theorem hashed_eq (stack : Stack) (parts : List Str) : hashed stack parts = text parts.flatten := by
  rw [hashed, ((seen_new stack).updates parts).finalize, List.nil_append, text]

theorem hashPid_eq (stack : Stack) (pid : Str) :
    hashPid stack pid = some (text (decoded cidSize pid)) := by
  rw [hashPid, fromBase32_eq (by decide)]
  show some (hashed stack [packed cidSize (bitsIn pid)]) = _
  rw [hashed_eq, List.flatten_singleton]
  rfl

/-- `hashpas` is a function of password and salt: it refuses a salt by its length alone, and
otherwise answers the text of the hash of password and decoded salt. -/
theorem hashPas_eq (stack : Stack) (pass salt : Str) :
    hashPas stack pass salt =
      if saltBytes salt = 0 ∨ maxSaltBytes < saltBytes salt
      then some (.error (outOfRange (lit "hashpas") salt))
      else some (.ok (text (pass ++ saltOf salt))) := by
  rw [hashPas]
  by_cases hbad : saltBytes salt = 0 ∨ maxSaltBytes < saltBytes salt
  · rw [if_pos hbad, if_pos hbad]
  · rw [if_neg hbad, if_neg hbad, fromBase32_eq (by omega)]
    show some (Except.ok (hashed stack [pass, saltOf salt])) = _
    rw [hashed_eq, List.flatten_cons, List.flatten_singleton]

/-- The old form of the answer has the CID in front. -/
theorem hashPasOldschool_eq (stack : Stack) (pass salt cid : Str) :
    hashPasOldschool stack pass salt cid =
      if saltBytes salt = 0 ∨ maxSaltBytes < saltBytes salt
      then some (.error (outOfRange (lit "hasholdpas") salt))
      else some (.ok (text (decoded cidSize cid ++ (pass ++ saltOf salt)))) := by
  rw [hashPasOldschool]
  by_cases hbad : saltBytes salt = 0 ∨ maxSaltBytes < saltBytes salt
  · rw [if_pos hbad, if_pos hbad]
  · rw [if_neg hbad, if_neg hbad, fromBase32_eq (by omega), fromBase32_eq (by decide)]
    show some (Except.ok (hashed stack [decoded cidSize cid, pass, saltOf salt])) = _
    rw [hashed_eq, List.flatten_cons, List.flatten_cons, List.flatten_singleton]

/-! ## The text of a hash -/

@[simp] theorem length_getResult (res : State) : (getResult res).length = 24 := by
  rw [getResult, List.length_append, List.length_append, length_writeWord, length_writeWord,
    length_writeWord]

/-- A hash is 39 digits of base32. -/
theorem length_text (xs : Str) : (text xs).length = 39 := by
  have hlen := length_toBase32 (getResult (tiger xs))
  have hmissing : missing 5 (8 * 24) = 3 := by decide
  rw [length_getResult, hmissing] at hlen
  rw [text]
  omega

/-- Every character of a hash is a digit of base32, so no hash needs to be escaped in a
frame. -/
theorem text_digits (xs : Str) : ∀ c ∈ text xs, c ∈ base32Alphabet.chars := by
  intro c hc
  have hgs : Small (2 ^ 5) (regroup 2 5 (bitsOf (getResult (tiger xs)))) :=
    small_regroup (by omega) (by omega) (Basexx.small_bitsOf _)
  rw [text, toBase32_eq] at hc
  obtain ⟨g, hg, rfl⟩ := List.mem_map.mp hc
  exact Basexx.Alphabet.char_mem (hgs g hg)

/-- The 24 bytes determine the three words, each of which is written with all of its bytes. -/
theorem getResult_inj {res res' : State} (h : getResult res = getResult res') : res = res' := by
  rw [getResult, getResult] at h
  obtain ⟨hfront, hlast⟩ := List.append_inj' h (by rw [length_writeWord, length_writeWord])
  obtain ⟨hfirst, hsecond⟩ := List.append_inj' hfront (by rw [length_writeWord, length_writeWord])
  ext i hi
  match i, hi with
  | 0, _ => rw [writeWord_inj hfirst]
  | 1, _ => rw [writeWord_inj hsecond]
  | 2, _ => rw [writeWord_inj hlast]

theorem text_eq_iff (xs ys : Str) : text xs = text ys ↔ tiger xs = tiger ys := by
  constructor
  · intro h
    exact getResult_inj (toBase32_inj h)
  · intro h
    rw [text, text, h]

/-- **The three functions, on any stack.** -/
theorem hash_functions (stack : Stack) :
    (∀ pid, hashPid stack pid = some (text (decoded cidSize pid))) ∧
      (∀ pass salt, hashPas stack pass salt =
        if saltBytes salt = 0 ∨ maxSaltBytes < saltBytes salt
        then some (.error (outOfRange (lit "hashpas") salt))
        else some (.ok (text (pass ++ saltOf salt)))) ∧
      (∀ pass salt cid, hashPasOldschool stack pass salt cid =
        if saltBytes salt = 0 ∨ maxSaltBytes < saltBytes salt
        then some (.error (outOfRange (lit "hasholdpas") salt))
        else some (.ok (text (decoded cidSize cid ++ (pass ++ saltOf salt))))) ∧
      ∀ xs, (text xs).length = 39 ∧ ∀ c ∈ text xs, c ∈ base32Alphabet.chars :=
  ⟨hashPid_eq stack, hashPas_eq stack, hashPasOldschool_eq stack,
    fun xs => ⟨length_text xs, text_digits xs⟩⟩

/-! ## Two answers -/

@[simp] theorem length_saltOf (salt : Str) : (saltOf salt).length = saltBytes salt :=
  length_packed (saltBytes salt) (bitsIn salt)

/-- **Two passwords with one answer**, to salts that decode to as many bytes, are one
password and one salt, or the runs of `compress` come together in a block. -/
theorem answers_eq_iff (stack stack' : Stack) (pass pass' salt salt' : Str)
    (hpos : 0 < saltBytes salt) (hfits : saltBytes salt ≤ maxSaltBytes)
    (hsame : saltBytes salt' = saltBytes salt) (hpass : pass.length + 64 < 2 ^ 61)
    (hpass' : pass'.length + 64 < 2 ^ 61) :
    hashPas stack pass salt = hashPas stack' pass' salt' ↔
      (pass = pass' ∧ saltOf salt = saltOf salt') ∨
        Meets compress initial (blocksOf (pass ++ saltOf salt)) initial
          (blocksOf (pass' ++ saltOf salt')) := by
  rw [maxSaltBytes] at hfits
  have hlen : (saltOf salt).length = (saltOf salt').length := by
    rw [length_saltOf, length_saltOf, hsame]
  have hshort : (pass ++ saltOf salt).length < 2 ^ 61 := by
    rw [List.length_append, length_saltOf]
    omega
  have hshort' : (pass' ++ saltOf salt').length < 2 ^ 61 := by
    rw [List.length_append, length_saltOf]
    omega
  have hsplit : pass ++ saltOf salt = pass' ++ saltOf salt' ↔
      pass = pass' ∧ saltOf salt = saltOf salt' := by
    constructor
    · intro h
      exact List.append_inj' h hlen
    · rintro ⟨hp, hs⟩
      rw [hp, hs]
  rw [hashPas_eq, hashPas_eq, hsame, if_neg (by rw [maxSaltBytes]; omega),
    if_neg (by rw [maxSaltBytes]; omega), Option.some_inj, Except.ok.injEq, text_eq_iff,
    tiger_eq_iff_blocks hshort hshort', blocksOf_eq_iff hshort hshort', hsplit]

/-- Two passwords with salts of five bytes. -/
theorem answers_eq_iff_short :
    let stack : Stack := ⟨zeros 64, length_zeros 64⟩
    hashPas stack (lit "test") (lit "GHKZUGFT") = hashPas stack (lit "level") (lit "DFLIHLHG") ↔
      (lit "test" = lit "level" ∧ saltOf (lit "GHKZUGFT") = saltOf (lit "DFLIHLHG")) ∨
        Meets compress initial (blocksOf (lit "test" ++ saltOf (lit "GHKZUGFT"))) initial
          (blocksOf (lit "level" ++ saltOf (lit "DFLIHLHG"))) :=
  answers_eq_iff _ _ _ _ _ _ (by decide) (by decide) (by decide) (by decide) (by decide)

/-! ## As the network code sees it -/

/-- What `hashpas` answers to a salt that it takes. -/
def pas (pass salt : Str) : Str := text (pass ++ saltOf salt)

/-- What `hash` answers. -/
def cidOf (pid : Str) : Str := text (decoded cidSize pid)

/-- The library is the one that the network code is modelled over. -/
theorem hashPas_model (stack : Stack) (pass salt : Str) :
    (hashPas stack pass salt).map (Except.mapError fun _ => LuaError.call) =
      some (Adclib.hashPas pas pass (some salt)) := by
  rw [hashPas_eq, Adclib.hashPas]
  by_cases hbad : saltBytes salt = 0 ∨ maxSaltBytes < saltBytes salt
  · rw [if_pos hbad]
    simp only [hbad, if_true]
    rfl
  · rw [if_neg hbad]
    simp only [hbad, if_false]
    rfl

/-- A text of 24 bytes is decoded to them. -/
theorem decoded_toBase32 {raw : Str} (hraw : raw.length = 24) :
    decoded cidSize (toBase32 raw) = raw := by
  have hne : raw ≠ [] := List.length_pos_iff.mp (by omega)
  have hdigits : digitsIn (toBase32 raw) = toBase32 raw ++ [] := by
    rw [digitsIn_toBase32, List.append_nil]
  have hread := fromBase32_of_digitsIn hne hdigits
  rw [hraw, fromBase32_eq (by decide), Option.some_inj] at hread
  exact hread

end LuadchAnnouncer.Adclib.Hash
