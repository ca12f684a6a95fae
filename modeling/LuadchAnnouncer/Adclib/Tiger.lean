import LuadchAnnouncer.Adclib.TigerTable
import LuadchAnnouncer.Verified.Assignments
import LuadchAnnouncer.Verified.BlockHash
import LuadchAnnouncer.Verified.Bytes
import LuadchAnnouncer.Verified.Digits

/-!
# `adclib/tiger.cpp`

`TigerHash` takes its input in parts: whole blocks are mixed into `res` at once,
the rest waits in `tmp`.  What stands in `tmp` behind the rest is whatever an
earlier block has left there, or was in memory before the constructor ran.

The machine is the little-endian one with 64-bit words that the source is written
for.
-/

namespace LuadchAnnouncer.Adclib.Tiger

open LuadchAnnouncer.Verified.Bytes
open LuadchAnnouncer.Verified.Assignments
open LuadchAnnouncer.Verified.BlockHash
open LuadchAnnouncer.Verified.Digits

/-! ## The compression function -/

/-- The variables `a`, `b` and `c`. -/
abbrev State := Vector UInt64 3

/-- The variables `x0` to `x7`. -/
abbrev Words := Vector UInt64 8

/-- Byte `k` of a word. -/
def byteAt (v : UInt64) (k : UInt64) : Nat := (v >>> (8 * k)).toUInt8.toNat

def t1 (i : Nat) : UInt64 := table1.getD i 0

def t2 (i : Nat) : UInt64 := table2.getD i 0

def t3 (i : Nat) : UInt64 := table3.getD i 0

def t4 (i : Nat) : UInt64 := table4.getD i 0

/-- What `round` subtracts from `a`. -/
def even (c : UInt64) : UInt64 :=
  t1 (byteAt c 0) ^^^ t2 (byteAt c 2) ^^^ t3 (byteAt c 4) ^^^ t4 (byteAt c 6)

/-- What `round` adds to `b`. -/
def odd (c : UInt64) : UInt64 :=
  t4 (byteAt c 1) ^^^ t3 (byteAt c 3) ^^^ t2 (byteAt c 5) ^^^ t1 (byteAt c 7)

/-- `round( a, b, c, x, mul )` -/
def round (a b c : Fin 3) (x mul : UInt64) (s : State) : State :=
  let s := assign c (· ^^^ ·) (fun _ => x) s
  let s := assign a (· - ·) (fun s => even s[c]) s
  let s := assign b (· + ·) (fun s => odd s[c]) s
  assign b (· * ·) (fun _ => mul) s

/-- `pass( a, b, c, mul )` -/
def pass (x : Words) (mul : UInt64) (s : State) : State :=
  let s := round 0 1 2 x[0] mul s
  let s := round 1 2 0 x[1] mul s
  let s := round 2 0 1 x[2] mul s
  let s := round 0 1 2 x[3] mul s
  let s := round 1 2 0 x[4] mul s
  let s := round 2 0 1 x[5] mul s
  let s := round 0 1 2 x[6] mul s
  round 1 2 0 x[7] mul s

/-- `key_schedule` -/
def keySchedule (x : Words) : Words :=
  let x := assign 0 (· - ·) (fun x : Words => x[7] ^^^ 0xA5A5A5A5A5A5A5A5) x
  let x := assign 1 (· ^^^ ·) (fun x : Words => x[0]) x
  let x := assign 2 (· + ·) (fun x : Words => x[1]) x
  let x := assign 3 (· - ·) (fun x : Words => x[2] ^^^ (~~~x[1]) <<< 19) x
  let x := assign 4 (· ^^^ ·) (fun x : Words => x[3]) x
  let x := assign 5 (· + ·) (fun x : Words => x[4]) x
  let x := assign 6 (· - ·) (fun x : Words => x[5] ^^^ (~~~x[4]) >>> 23) x
  let x := assign 7 (· ^^^ ·) (fun x : Words => x[6]) x
  let x := assign 0 (· + ·) (fun x : Words => x[7]) x
  let x := assign 1 (· - ·) (fun x : Words => x[0] ^^^ (~~~x[7]) <<< 19) x
  let x := assign 2 (· ^^^ ·) (fun x : Words => x[1]) x
  let x := assign 3 (· + ·) (fun x : Words => x[2]) x
  let x := assign 4 (· - ·) (fun x : Words => x[3] ^^^ (~~~x[2]) >>> 23) x
  let x := assign 5 (· ^^^ ·) (fun x : Words => x[4]) x
  let x := assign 6 (· + ·) (fun x : Words => x[5]) x
  assign 7 (· - ·) (fun x : Words => x[6] ^^^ 0x0123456789ABCDEF) x

/-- `tmpa=a; a=c; c=b; b=tmpa;` -/
def rotate (s : State) : State := #v[s[2], s[0], s[1]]

/-- The loop over `pass_no`. -/
def passes (x : Words) (s : State) : State :=
  let s := rotate (pass x 5 s)
  let x := keySchedule x
  let s := rotate (pass x 7 s)
  let x := keySchedule x
  rotate (pass x 9 s)

/-- `tigerCompress( str, state )`, with the feedforward. -/
def tigerCompress (str : Words) (state : State) : State :=
  let s := passes str state
  #v[s[0] ^^^ state[0], s[1] - state[1], s[2] + state[2]]

/-! ## The hash -/

/-- `BLOCK_SIZE` -/
def blockSize : Nat := 64

/-- A little-endian word in memory. -/
def readWord (bytes : Str) : UInt64 := UInt64.ofNat (number 256 (bytes.map UInt8.toNat).reverse)

/-- `memcpy( aligned, block, BLOCK_SIZE )` -/
def aligned (block : Str) : Words := Vector.ofFn fun i => readWord ((block.drop (8 * i)).take 8)

/-- A word as it is written to memory. -/
def writeWord (v : UInt64) : Str := (digits 256 8 v.toNat).reverse.map UInt8.ofNat

/-- One block mixed into the state. -/
def compress (res : State) (block : Str) : State := tigerCompress (aligned block) res

/-- `memcpy( tmp + pos, data, .. )` for all of `data`. -/
def memcpy (tmp : Str) (pos : Nat) (data : Str) : Str :=
  tmp.take pos ++ data ++ tmp.drop (pos + data.length)

/-- What `memset( .., 0, n )` writes. -/
def zeros (n : Nat) : Str := List.replicate n 0

@[simp] theorem length_zeros (n : Nat) : (zeros n).length = n := List.length_replicate

/-- The fields of `TigerHash`.  `tmp` is the buffer of one block, `res` the three words of
the state, and `pos` counts the bytes that have been fed to it; the place in the buffer is
that count within a block. -/
structure TigerHash where
  tmp : Str
  res : State
  pos : UInt64
  size : tmp.length = 64

/-- `res` behind the constructor. -/
def initial : State := #v[0x0123456789ABCDEF, 0xFEDCBA9876543210, 0xF096A5B4C3B2E187]

/-- What is in memory where a `TigerHash` is put.  The constructor sets the state and the
count and leaves the buffer as it is, so a computation starts from any such bytes. -/
structure Stack where
  tmp : Str
  size : tmp.length = 64

/-- `TigerHash( )` -/
def new (stack : Stack) : TigerHash := ⟨stack.tmp, initial, 0, stack.size⟩

/-- `pos & ( BLOCK_SIZE - 1 )` -/
def TigerHash.tmppos (h : TigerHash) : Nat := (h.pos &&& 63).toNat

theorem length_memcpy {tmp data : Str} {pos : Nat} (h : pos + data.length ≤ tmp.length) :
    (memcpy tmp pos data).length = tmp.length := by
  rw [memcpy, List.length_append, List.length_append, List.length_take, List.length_drop]
  omega

/-- The loop of `update` over whole blocks, with what is left of `str`. -/
def blocks (res : State) (pos : UInt64) (str : Str) : State × UInt64 × Str :=
  if blockSize ≤ str.length then
    blocks (compress res (str.take blockSize)) (pos + 64) (str.drop blockSize)
  else (res, pos, str)
termination_by str.length
decreasing_by
  rw [List.length_drop, blockSize] at *
  omega

/-- What the loop of `update` leaves for the buffer is less than a block. -/
theorem length_blocks (res : State) (pos : UInt64) (str : Str) :
    (blocks res pos str).2.2.length < 64 := by
  induction res, pos, str using blocks.induct with
  | case1 res pos str hblock ih =>
      rw [blocks, if_pos hblock]
      exact ih
  | case2 res pos str hshort =>
      rw [blocks, if_neg hshort]
      exact Nat.lt_of_not_le hshort

/-- The loop of `update` and what stands behind it. -/
def TigerHash.drain (h : TigerHash) (str : Str) : TigerHash :=
  let left := blocks h.res h.pos str
  { tmp := memcpy h.tmp 0 left.2.2
    res := left.1
    pos := left.2.1 + UInt64.ofNat left.2.2.length
    size := by
      have hshort : left.2.2.length < 64 := length_blocks h.res h.pos str
      rw [length_memcpy (by rw [h.size]; omega), h.size] }

theorem tmppos_eq (h : TigerHash) : h.tmppos = h.pos.toNat % 64 := by
  have hmask : (63 : UInt64).toNat = 2 ^ 6 - 1 := rfl
  rw [TigerHash.tmppos, UInt64.toNat_and, hmask, Nat.and_two_pow_sub_one_eq_mod]

/-- The place in the buffer is inside it. -/
theorem tmppos_lt (h : TigerHash) : h.tmppos < 64 := by
  rw [tmppos_eq]
  exact Nat.mod_lt _ (by decide)

/-- `n`, the number of bytes that `update` puts behind the rest of earlier ones. -/
def TigerHash.topUp (h : TigerHash) (length : Nat) : Nat :=
  if length ≤ blockSize - h.tmppos then length else blockSize - h.tmppos

/-- What is topped up fits the buffer and is there. -/
theorem topUp_le (h : TigerHash) (length : Nat) :
    h.tmppos + h.topUp length ≤ 64 ∧ h.topUp length ≤ length := by
  have hlt := tmppos_lt h
  rw [TigerHash.topUp, blockSize]
  split <;> omega

/-- What `update` does first, with the block that it may complete. -/
def TigerHash.fill (h : TigerHash) (data : Str) : TigerHash :=
  let n := h.topUp data.length
  let tmp := memcpy h.tmp h.tmppos (data.take n)
  { tmp := tmp
    res := if h.tmppos + n = blockSize then compress h.res tmp else h.res
    pos := h.pos + UInt64.ofNat n
    size := by
      have hle := topUp_le h data.length
      rw [length_memcpy (by rw [List.length_take, h.size]; omega), h.size] }

/-- `update( data, length )` of a whole string. -/
def TigerHash.update (h : TigerHash) (data : Str) : TigerHash :=
  if 0 < h.tmppos then (h.fill data).drain (data.drop (h.topUp data.length)) else h.drain data

/-- `res` behind `finalize( )`. -/
def TigerHash.finalize (h : TigerHash) : State :=
  let tmp := memcpy h.tmp h.tmppos [0x01]
  let tmppos := h.tmppos + 1
  let padded :=
    if blockSize - 8 < tmppos then
      let tmp := memcpy tmp tmppos (zeros (blockSize - tmppos))
      (memcpy tmp 0 (zeros blockSize), compress h.res tmp)
    else (memcpy tmp tmppos (zeros (blockSize - tmppos - 8)), h.res)
  compress padded.2 (memcpy padded.1 56 (writeWord (h.pos <<< 3)))

/-- `getResult( )`: the bytes of `res`. -/
def getResult (res : State) : Str := writeWord res[0] ++ writeWord res[1] ++ writeWord res[2]

end LuadchAnnouncer.Adclib.Tiger
