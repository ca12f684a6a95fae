import LuadchAnnouncer.Adclib.Tiger

/-!
# `TigerHash` in parts

However its input is cut into calls of `update`, and whatever its memory held in
front of the constructor, `TigerHash` computes the hash of the whole input: the
fold of `compress` over the blocks of the padded string (`finalize_updates`).
The padding keeps the inputs apart, so two of them have the same hash only where
their runs come together (`tiger_eq_iff`).

## Main results

* `Seen.update`, `Seen.finalize` — an object that has been fed a string, step by step.
* `finalize_updates` — any cuts of the input, the hash of the whole.
* `pad_inj` — the padding keeps the inputs apart.
* `tiger_eq_iff` — two inputs with one hash.
-/

namespace LuadchAnnouncer.Adclib.Tiger

open LuadchAnnouncer.Verified.Bytes
open LuadchAnnouncer.Verified.BlockHash
open LuadchAnnouncer.Verified.Chunks
open LuadchAnnouncer.Verified.Digits

/-! ## Memory -/

/-- What stands in memory up to the end of a write. -/
theorem take_memcpy (tmp data : Str) {pos : Nat} (h : pos ≤ tmp.length) :
    (memcpy tmp pos data).take (pos + data.length) = tmp.take pos ++ data := by
  apply List.take_left'
  rw [List.length_append, List.length_take, Nat.min_eq_left h]

/-- A write up to the end of the memory. -/
theorem memcpy_full (tmp data : Str) {pos : Nat} (h : pos + data.length = tmp.length) :
    memcpy tmp pos data = tmp.take pos ++ data := by
  rw [memcpy, h, List.drop_length, List.append_nil]

@[simp] theorem length_writeWord (v : UInt64) : (writeWord v).length = 8 := by
  rw [writeWord, List.length_map, List.length_reverse, length_digits]

/-! ## What the hash has seen -/

/-- `h` has been fed `xs`: its state is what `absorb` has made of the whole blocks, the
front of its buffer is the rest, and its count is the length.  This is the invariant every
call of `update` keeps. -/
structure Seen (h : TigerHash) (xs : Str) : Prop where
  res : h.res = (absorb blockSize compress initial xs).1
  rest : h.tmp.take (xs.length % 64) = (absorb blockSize compress initial xs).2
  pos : h.pos = UInt64.ofNat xs.length

theorem blockSize_pos : 0 < blockSize := by decide

/-- A new object has been fed nothing, whatever its buffer holds. -/
theorem seen_new (stack : Stack) : Seen (new stack) [] := by
  have hnil := absorb_nil (f := compress) blockSize_pos initial
  constructor
  · rw [hnil]
    rfl
  · rw [hnil]
    rfl
  · rfl

theorem Seen.tmppos {h : TigerHash} {xs : Str} (hseen : Seen h xs) :
    h.tmppos = xs.length % 64 := by
  rw [tmppos_eq, hseen.pos, UInt64.toNat_ofNat', Nat.mod_mod_of_dvd _ (by decide)]

theorem length_rest (xs : Str) :
    (absorb blockSize compress initial xs).2.length = xs.length % 64 :=
  length_absorb blockSize_pos initial xs

/-- More data, where it fits behind the rest. -/
theorem absorb_more {h : TigerHash} {xs : Str} (hseen : Seen h xs) (data : Str) :
    absorb blockSize compress initial (xs ++ data) =
      absorb blockSize compress h.res (h.tmp.take (xs.length % 64) ++ data) := by
  rw [hseen.res, hseen.rest]
  exact absorb_append blockSize_pos initial xs data

/-- The first part of `update`: the buffer is topped up, and compressed where this makes it
a block.  Where it does not, the data has come to its end. -/
theorem Seen.fill {h : TigerHash} {xs : Str} (hseen : Seen h xs) (data : Str) :
    Seen (h.fill data) (xs ++ data.take (h.topUp data.length)) := by
  obtain ⟨hfits, hle⟩ := topUp_le h data.length
  have hn : (data.take (h.topUp data.length)).length = h.topUp data.length := by
    rw [List.length_take]
    omega
  have hsize := (h.fill data).size
  have htmp : h.tmppos ≤ h.tmp.length := by
    rw [h.size]
    omega
  have hfront := take_memcpy h.tmp (data.take (h.topUp data.length)) htmp
  have hmore := absorb_more hseen (data.take (h.topUp data.length))
  have hpos : (h.fill data).pos =
      UInt64.ofNat (xs ++ data.take (h.topUp data.length)).length := by
    rw [List.length_append, hn, UInt64.ofNat_add, ← hseen.pos]
    rfl
  have htmppos := hseen.tmppos
  rw [← htmppos, ← hfront, hn] at hmore
  by_cases hfull : h.tmppos + h.topUp data.length = 64
  · have hwhole : (h.fill data).tmp.take (h.tmppos + h.topUp data.length) =
        (h.fill data).tmp := by
      apply List.take_of_length_le
      omega
    have hblock := absorb_cons (f := compress) blockSize_pos (s := h.res) hsize []
    rw [List.append_nil, absorb_nil blockSize_pos] at hblock
    have hzero : (xs ++ data.take (h.topUp data.length)).length % 64 = 0 := by
      rw [List.length_append]
      omega
    have habsorb := hmore.trans ((congrArg _ hwhole).trans hblock)
    constructor
    · rw [habsorb]
      exact if_pos hfull
    · rw [habsorb, hzero, List.take_zero]
    · exact hpos
  · have hshort : ((h.fill data).tmp.take (h.tmppos + h.topUp data.length)).length <
        blockSize := by
      rw [List.length_take, hsize, blockSize]
      omega
    have hmod : (xs ++ data.take (h.topUp data.length)).length % 64 =
        h.tmppos + h.topUp data.length := by
      rw [List.length_append]
      omega
    have habsorb := hmore.trans (absorb_short hshort)
    constructor
    · rw [habsorb]
      exact if_neg hfull
    · rw [habsorb, hmod]
      rfl
    · exact hpos

/-- The loop of `update` over whole blocks computes what `absorb` says of them, leaves the
rest in the buffer, and counts every byte. -/
theorem blocks_eq (res : State) (pos : UInt64) (str : Str) :
    (blocks res pos str).1 = (absorb blockSize compress res str).1 ∧
      (blocks res pos str).2.2 = (absorb blockSize compress res str).2 ∧
      (blocks res pos str).2.1 + UInt64.ofNat (blocks res pos str).2.2.length =
        pos + UInt64.ofNat str.length := by
  induction res, pos, str using blocks.induct with
  | case1 res pos str hblock ih =>
      obtain ⟨hres, hrest, hpos⟩ := ih
      have hlen : str.length = 64 + (str.drop blockSize).length := by
        rw [List.length_drop, blockSize] at *
        omega
      rw [blocks, if_pos hblock, absorb_block blockSize_pos hblock]
      refine ⟨hres, hrest, ?_⟩
      rw [hpos, hlen, UInt64.ofNat_add, ← UInt64.add_assoc]
      rfl
  | case2 res pos str hshort =>
      rw [blocks, if_neg hshort, absorb_short (Nat.lt_of_not_le hshort)]
      exact ⟨rfl, rfl, rfl⟩

/-- The loop of `update` at the end of a block. -/
theorem Seen.drain {h : TigerHash} {xs : Str} (hseen : Seen h xs) (hwhole : xs.length % 64 = 0)
    (str : Str) : Seen (h.drain str) (xs ++ str) := by
  have hmore := absorb_more hseen str
  obtain ⟨hres, hrest, hpos⟩ := blocks_eq h.res h.pos str
  have hshort := length_blocks h.res h.pos str
  have hlen := length_rest (xs ++ str)
  rw [hwhole, List.take_zero, List.nil_append] at hmore
  rw [hmore, ← hrest] at hlen
  constructor
  · rw [hmore]
    exact hres
  · have htake := take_memcpy h.tmp (blocks h.res h.pos str).2.2 (Nat.zero_le h.tmp.length)
    rw [Nat.zero_add, List.take_zero, List.nil_append, hlen] at htake
    rw [hmore, ← hrest]
    exact htake
  · rw [List.length_append, UInt64.ofNat_add, ← hseen.pos]
    exact hpos

/-- The loop of `update` without data. -/
theorem drain_nil (h : TigerHash) : h.drain [] = h := by
  have hblocks : blocks h.res h.pos [] = (h.res, h.pos, []) := by
    rw [blocks, if_neg (by decide)]
  cases h with
  | mk tmp res pos size =>
      simp [TigerHash.drain, hblocks, memcpy]

/-- **A call of `update`.** -/
theorem Seen.update {h : TigerHash} {xs : Str} (hseen : Seen h xs) (data : Str) :
    Seen (h.update data) (xs ++ data) := by
  have htmppos := hseen.tmppos
  rw [TigerHash.update]
  by_cases hrest : 0 < h.tmppos
  · rw [if_pos hrest]
    have hfill := hseen.fill data
    have hn : h.topUp data.length = data.length ∨ h.tmppos + h.topUp data.length = 64 := by
      have hlt := tmppos_lt h
      rw [TigerHash.topUp, blockSize]
      split <;> omega
    rcases hn with hall | hblock
    · rw [hall, List.take_length] at hfill
      rw [hall, List.drop_length, drain_nil]
      exact hfill
    · have hwhole : (xs ++ data.take (h.topUp data.length)).length % 64 = 0 := by
        have hle := topUp_le h data.length
        rw [List.length_append, List.length_take]
        omega
      have hdrain := hfill.drain hwhole (data.drop (h.topUp data.length))
      rw [List.append_assoc, List.take_append_drop] at hdrain
      exact hdrain
  · rw [if_neg hrest]
    exact hseen.drain (by omega) data

/-- Any number of them. -/
theorem Seen.updates {h : TigerHash} {xs : Str} (hseen : Seen h xs) (parts : List Str) :
    Seen (parts.foldl TigerHash.update h) (xs ++ parts.flatten) := by
  induction parts generalizing h xs with
  | nil =>
      rw [List.flatten_nil, List.append_nil]
      exact hseen
  | cons data parts ih =>
      rw [List.flatten_cons, ← List.append_assoc]
      exact ih (hseen.update data)

/-! ## The padded string -/

/-- What stands behind an input of `n` bytes: a `0x01`, zeros, and the number of its bits. -/
def padding (n : Nat) : Str :=
  0x01 :: (zeros (missing 64 (n + 9)) ++ writeWord (UInt64.ofNat n <<< 3))

def pad (xs : Str) : Str := xs ++ padding xs.length

/-- The hash of a string. -/
def tiger (xs : Str) : State := (chunks blockSize (pad xs)).foldl compress initial

theorem length_padding (n : Nat) : (padding n).length = missing 64 (n + 9) + 9 := by
  rw [padding, List.length_cons, List.length_append, length_zeros, length_writeWord]

theorem dvd_length_pad (xs : Str) : blockSize ∣ (pad xs).length := by
  rw [pad, List.length_append, length_padding, missing, blockSize]
  omega

theorem absorb_pad (xs : Str) : absorb blockSize compress initial (pad xs) = (tiger xs, []) :=
  absorb_whole blockSize_pos initial (dvd_length_pad xs)

/-- One block, and nothing behind it. -/
theorem absorb_one (res : State) {block : Str} (h : block.length = 64) :
    absorb blockSize compress res block = (compress res block, []) := by
  have hblock := absorb_cons (f := compress) blockSize_pos (s := res) h []
  rw [List.append_nil, absorb_nil blockSize_pos] at hblock
  exact hblock

/-- The hash of a block and a rest that has room for the padding. -/
theorem tiger_block {block xs : Str} (hblock : block.length = 64) (hxs : xs.length ≤ 55) :
    tiger (block ++ xs) =
      compress (compress initial block) (xs ++ padding (64 + xs.length)) := by
  have hlast : (xs ++ padding (64 + xs.length)).length = 64 := by
    rw [List.length_append, length_padding, missing]
    omega
  have hab := absorb_pad (block ++ xs)
  rw [pad, List.length_append, hblock, List.append_assoc, absorb_cons blockSize_pos hblock,
    absorb_one _ hlast] at hab
  exact (Prod.mk.inj hab).1.symm

/-- The first write of `finalize`. -/
theorem take_one (h : TigerHash) :
    (memcpy h.tmp h.tmppos [0x01]).take (h.tmppos + 1) = h.tmp.take h.tmppos ++ [0x01] ∧
      (memcpy h.tmp h.tmppos [0x01]).length = 64 := by
  have hlt := tmppos_lt h
  have hsize := h.size
  constructor
  · have htake := take_memcpy h.tmp [0x01] (by omega : h.tmppos ≤ h.tmp.length)
    rw [List.length_singleton] at htake
    exact htake
  · rw [length_memcpy (by rw [List.length_singleton]; omega), hsize]

/-- The rest and the padding in one block. -/
theorem finalize_one {h : TigerHash} (hroom : h.tmppos < 56) :
    h.finalize = compress h.res (h.tmp.take h.tmppos ++
      (0x01 : UInt8) :: (zeros (55 - h.tmppos) ++ writeWord (h.pos <<< 3))) := by
  obtain ⟨hfirst, hone⟩ := take_one h
  have hcount : blockSize - (h.tmppos + 1) - 8 = 55 - h.tmppos := by
    rw [blockSize]
    omega
  have hend : h.tmppos + 1 + (zeros (55 - h.tmppos)).length = 56 := by
    rw [length_zeros]
    omega
  have htmp : h.tmppos + 1 ≤ (memcpy h.tmp h.tmppos [0x01]).length := by
    rw [hone]
    omega
  have htake := take_memcpy (memcpy h.tmp h.tmppos [0x01]) (zeros (55 - h.tmppos)) htmp
  have hzeros : (memcpy (memcpy h.tmp h.tmppos [0x01]) (h.tmppos + 1)
      (zeros (55 - h.tmppos))).length = 64 := by
    rw [length_memcpy (by omega), hone]
  rw [hend] at htake
  rw [TigerHash.finalize]
  simp only [hcount]
  rw [if_neg (by rw [blockSize]; omega),
    memcpy_full _ (writeWord (h.pos <<< 3)) (by rw [hzeros, length_writeWord]), htake, hfirst]
  simp only [List.append_assoc, List.cons_append, List.nil_append]

/-- The rest in one block, and the length in a second one. -/
theorem finalize_two {h : TigerHash} (hfull : 56 ≤ h.tmppos) :
    h.finalize = compress (compress h.res (h.tmp.take h.tmppos ++ 0x01 :: zeros (63 - h.tmppos)))
      (zeros 56 ++ writeWord (h.pos <<< 3)) := by
  have hlt := tmppos_lt h
  obtain ⟨hfirst, hone⟩ := take_one h
  have hcount : blockSize - (h.tmppos + 1) = 63 - h.tmppos := by
    rw [blockSize]
    omega
  have hblock : memcpy (memcpy h.tmp h.tmppos [0x01]) (h.tmppos + 1) (zeros (63 - h.tmppos)) =
      h.tmp.take h.tmppos ++ 0x01 :: zeros (63 - h.tmppos) := by
    rw [memcpy_full (memcpy h.tmp h.tmppos [0x01]) _ (by rw [hone, length_zeros]; omega), hfirst,
      List.append_assoc, List.singleton_append]
  have hlen : (h.tmp.take h.tmppos ++ 0x01 :: zeros (63 - h.tmppos)).length = 64 := by
    rw [List.length_append, List.length_take, h.size, List.length_cons, length_zeros]
    omega
  have hcleared : memcpy (h.tmp.take h.tmppos ++ 0x01 :: zeros (63 - h.tmppos)) 0
      (zeros blockSize) = zeros 64 := by
    rw [memcpy_full _ (zeros blockSize) (by rw [hlen, length_zeros]; rfl), List.take_zero]
    rfl
  have htake : (zeros 64).take 56 = zeros 56 := by decide
  rw [TigerHash.finalize]
  simp only [hcount]
  rw [if_pos (by rw [blockSize]; omega), hblock, hcleared,
    memcpy_full _ (writeWord (h.pos <<< 3)) (by rw [length_zeros, length_writeWord]), htake]

/-- **`finalize`** hashes what has been fed, with its padding. -/
theorem Seen.finalize {h : TigerHash} {xs : Str} (hseen : Seen h xs) : h.finalize = tiger xs := by
  have hlt := tmppos_lt h
  have htmppos := hseen.tmppos
  have hsize := h.size
  have hrest : (h.tmp.take h.tmppos).length = h.tmppos := by
    rw [List.length_take]
    omega
  have hmore := absorb_more hseen (padding xs.length)
  have hpad := absorb_pad xs
  rw [pad] at hpad
  rw [hpad, ← htmppos, padding, ← hseen.pos] at hmore
  by_cases hroom : h.tmppos < 56
  · have hzeros : missing 64 (xs.length + 9) = 55 - h.tmppos := by
      rw [missing]
      omega
    rw [hzeros, absorb_one] at hmore
    · rw [finalize_one hroom]
      exact (Prod.mk.inj hmore).1.symm
    · rw [List.length_append, hrest, List.length_cons, List.length_append, length_zeros,
        length_writeWord]
      omega
  · have hzeros : missing 64 (xs.length + 9) = 63 - h.tmppos + 56 := by
      rw [missing]
      omega
    have hsplit : h.tmp.take h.tmppos ++
        (0x01 : UInt8) :: (zeros (63 - h.tmppos + 56) ++ writeWord (h.pos <<< 3)) =
          (h.tmp.take h.tmppos ++ 0x01 :: zeros (63 - h.tmppos)) ++
            (zeros 56 ++ writeWord (h.pos <<< 3)) := by
      simp only [zeros, List.replicate_add, List.append_assoc, List.cons_append]
    rw [hzeros, hsplit, absorb_cons blockSize_pos, absorb_one] at hmore
    · rw [finalize_two (by omega)]
      exact (Prod.mk.inj hmore).1.symm
    · rw [List.length_append, length_zeros, length_writeWord]
    · rw [List.length_append, hrest, List.length_cons, length_zeros, blockSize]
      omega

/-- **However the input is cut**, and whatever was in memory, the hash is that of the whole. -/
theorem finalize_updates (stack : Stack) (parts : List Str) :
    (parts.foldl TigerHash.update (new stack)).finalize = tiger parts.flatten :=
  ((seen_new stack).updates parts).finalize

/-! ## What the padding keeps apart -/

/-- A word is determined by its eight bytes, in the order they are written in. -/
theorem writeWord_inj {v w : UInt64} (h : writeWord v = writeWord w) : v = w := by
  have hdigits : digits 256 8 v.toNat = digits 256 8 w.toNat := by
    have hback : ∀ u : UInt64,
        ((writeWord u).map UInt8.toNat).reverse = digits 256 8 u.toNat := by
      intro u
      have hsmall := small_digits (by decide : 0 < 256) 8 u.toNat
      have hbytes : ∀ d ∈ digits 256 8 u.toNat, (UInt8.toNat ∘ UInt8.ofNat) d = id d :=
        fun d hd => UInt8.toNat_ofNat_of_lt (hsmall d hd)
      rw [writeWord, List.map_map, List.map_reverse, List.reverse_reverse,
        List.map_congr_left hbytes, List.map_id]
    rw [← hback, ← hback, h]
  have hnum : ∀ u : UInt64, number 256 (digits 256 8 u.toNat) = u.toNat := fun u =>
    number_of_digits u.toNat_lt
  apply UInt64.toNat_inj.mp
  rw [← hnum v, ← hnum w, hdigits]

/-- The last word of the padding. -/
theorem drop_pad (xs : Str) :
    (pad xs).drop ((pad xs).length - 8) = writeWord (UInt64.ofNat xs.length <<< 3) := by
  have hsplit : pad xs = (xs ++ (0x01 : UInt8) :: zeros (missing 64 (xs.length + 9))) ++
      writeWord (UInt64.ofNat xs.length <<< 3) := by
    rw [pad, padding, List.append_assoc, List.cons_append]
  rw [hsplit, List.length_append, length_writeWord, Nat.add_sub_cancel, List.drop_left]

/-- Inputs whose padding ends in the same word have the same length. -/
theorem length_eq_of_word {xs ys : Str} (hxs : xs.length < 2 ^ 61) (hys : ys.length < 2 ^ 61)
    (h : (pad xs).drop ((pad xs).length - 8) = (pad ys).drop ((pad ys).length - 8)) :
    xs.length = ys.length := by
  have hbits : ∀ n < 2 ^ 61, (UInt64.ofNat n <<< 3).toNat = n * 8 := by
    intro n hn
    have hthree : (3 : UInt64).toNat % 64 = 3 := rfl
    rw [UInt64.toNat_shiftLeft, hthree, UInt64.toNat_ofNat', Nat.shiftLeft_eq]
    omega
  rw [drop_pad, drop_pad] at h
  have hword := congrArg UInt64.toNat (writeWord_inj h)
  rw [hbits _ hxs, hbits _ hys] at hword
  omega

theorem pad_inj {xs ys : Str} (hxs : xs.length < 2 ^ 61) (hys : ys.length < 2 ^ 61)
    (h : pad xs = pad ys) : xs = ys := by
  have hlen : xs.length = ys.length := length_eq_of_word hxs hys (by rw [h])
  rw [pad, pad] at h
  exact (List.append_inj h hlen).1

/-- The blocks that are hashed for `xs`. -/
def blocksOf (xs : Str) : List Str := chunks blockSize (pad xs)

theorem blocksOf_ne (xs : Str) : blocksOf xs ≠ [] := by
  intro hnil
  have hflat := flatten_chunks blockSize_pos (pad xs)
  rw [blocksOf] at hnil
  rw [hnil, pad, padding] at hflat
  simp at hflat

/-- The last block ends as the padding does. -/
theorem drop_getLast (xs : Str) :
    ((blocksOf xs).getLast (blocksOf_ne xs)).drop 56 =
      (pad xs).drop ((pad xs).length - 8) := by
  have hlast := length_of_mem_chunks blockSize_pos (dvd_length_pad xs) _
    (List.getLast_mem (blocksOf_ne xs))
  have hflat : (blocksOf xs).dropLast.flatten ++ (blocksOf xs).getLast (blocksOf_ne xs) =
      pad xs := by
    have hjoin := congrArg List.flatten (List.dropLast_append_getLast (blocksOf_ne xs))
    rw [List.flatten_append, List.flatten_singleton] at hjoin
    exact hjoin.trans (flatten_chunks blockSize_pos (pad xs))
  have hlen : (pad xs).length - 8 = (blocksOf xs).dropLast.flatten.length + 56 := by
    rw [← hflat, List.length_append, hlast, blockSize]
    omega
  rw [hlen, ← hflat, ← List.drop_drop, List.drop_left]

/-- The blocks determine the input: the padding can be taken off again. -/
theorem blocksOf_eq_iff {xs ys : Str} (hxs : xs.length < 2 ^ 61) (hys : ys.length < 2 ^ 61) :
    blocksOf xs = blocksOf ys ↔ xs = ys := by
  constructor
  · intro hblocks
    have hflat := congrArg List.flatten hblocks
    rw [blocksOf, blocksOf, flatten_chunks blockSize_pos, flatten_chunks blockSize_pos] at hflat
    exact pad_inj hxs hys hflat
  · intro h
    rw [h]

/-- Two runs of `compress` end in one state where the blocks are the same, or where they
come together.  The length at the end of the last block rules out that one run is the end
of the other. -/
theorem tiger_eq_iff_blocks {xs ys : Str} (hxs : xs.length < 2 ^ 61)
    (hys : ys.length < 2 ^ 61) :
    tiger xs = tiger ys ↔ blocksOf xs = blocksOf ys ∨
      Meets compress initial (blocksOf xs) initial (blocksOf ys) := by
  apply foldl_eq_iff (blocksOf_ne xs) (blocksOf_ne ys)
  intro hlen hlast
  have hword : (pad xs).drop ((pad xs).length - 8) = (pad ys).drop ((pad ys).length - 8) := by
    rw [← drop_getLast, ← drop_getLast, hlast]
  have hsame := length_eq_of_word hxs hys hword
  apply hlen
  have hcount : ∀ zs : Str, 64 * (blocksOf zs).length = (pad zs).length := fun zs =>
    length_chunks blockSize_pos (dvd_length_pad zs)
  have hpads : (pad xs).length = (pad ys).length := by
    rw [pad, pad, List.length_append, List.length_append, hsame]
  have hxs := hcount xs
  have hys := hcount ys
  omega

/-- **Two inputs with one hash** are one input, or their runs of `compress` come
together in a block. -/
theorem tiger_eq_iff (xs ys : Str) (hxs : xs.length < 2 ^ 61) (hys : ys.length < 2 ^ 61) :
    tiger xs = tiger ys ↔
      xs = ys ∨ Meets compress initial (blocksOf xs) initial (blocksOf ys) := by
  rw [tiger_eq_iff_blocks hxs hys, blocksOf_eq_iff hxs hys]

/-- The empty input, which is padded to one block, and 64 zeros, which are padded to two. -/
theorem tiger_eq_iff_zeros :
    ((pad []).length = 64 ∧ (pad (zeros 64)).length = 128) ∧
      (tiger [] = tiger (zeros 64) ↔ ([] : Str) = zeros 64 ∨
        Meets compress initial (blocksOf []) initial (blocksOf (zeros 64))) :=
  ⟨⟨by decide, by rw [pad, List.length_append, length_zeros, length_padding, missing]⟩,
    tiger_eq_iff [] (zeros 64) (by decide) (by decide)⟩

end LuadchAnnouncer.Adclib.Tiger
