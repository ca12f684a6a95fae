import Mathlib.Algebra.Ring.Rat
import Mathlib.Data.Nat.Log
import LuadchAnnouncer.Verified.Double
import LuadchAnnouncer.Verified.LuaPattern

/-!
# Lua values

Configuration files are Lua programs, so a field of a rule may hold any Lua
value, and the code that reads it branches on truthiness, compares it with a
number, concatenates it, or raises.  This file is that part of the language:
values, the errors the operators raise, the conversions between numbers and
text, and the comparisons.

Numbers have Lua's two subtypes.  A float is represented by the rational it
denotes, with the infinities and NaN beside it; its sign is lost at zero.  The
integers wrap around at 64 bits, and every result of an operation on floats
goes through `LuaNum.float`, which rounds it to the nearest double and takes
what is too large to infinity.  An integer that meets a float in an operation
becomes one first and is rounded on the way; in a comparison the two are
compared as they are, without rounding, as Lua does.

A number is written the way `%.14g` writes it and read the way `strtod` reads
it, from the exact value in both directions: fourteen digits are what the
exact value rounds to, and a numeral means the double nearest to what it says.
-/

namespace LuadchAnnouncer.Verified.LuaValue

open LuadchAnnouncer.Verified.Bytes
open LuadchAnnouncer.Verified.Double (roundEven nearest abs_nearest_le)
open LuadchAnnouncer.Verified.LuaPattern (digit)

/-- What an uncaught error was raised by. -/
inductive LuaError where
  /-- indexing, or calling a method of, something that has no fields -/
  | index
  /-- arithmetic on something that is not a number -/
  | arith
  /-- an order comparison of incomparable values -/
  | compare
  /-- `..` on something that is neither a string nor a number -/
  | concat
  /-- a library function raised -/
  | call
  /-- `assert` or `error` -/
  | failed
  deriving DecidableEq, Repr

/-- Lua numbers: integers and floats. -/
inductive LuaNum where
  | int (i : Int)
  | flt (q : Rat)
  | inf (negative : Bool)
  | nan
  deriving DecidableEq, Repr

/-- Lua values.  A table is given by its entries; functions, userdata and
coroutines are all `other`. -/
inductive LuaVal where
  | nil
  | bool (b : Bool)
  | num (n : LuaNum)
  | str (s : Str)
  | table (entries : List (LuaVal × LuaVal))
  | other

namespace LuaNum

/-! ## Comparison and arithmetic -/

/-- `a <= b`. -/
def le : LuaNum → LuaNum → Bool
  | .nan, _ => false
  | _, .nan => false
  | .inf true, _ => true
  | _, .inf false => true
  | .inf false, _ => false
  | _, .inf true => false
  | .int i, .int j => decide (i ≤ j)
  | .int i, .flt q => decide ((i : Rat) ≤ q)
  | .flt q, .int j => decide (q ≤ (j : Rat))
  | .flt q, .flt r => decide (q ≤ r)

/-- `a < b`. -/
def lt (a b : LuaNum) : Bool :=
  match a, b with
  | .nan, _ => false
  | _, .nan => false
  | a, b => !le b a

/-- The 64-bit integer an unbounded result wraps around to. -/
def wrap (i : Int) : LuaNum := .int (Int.bmod i (2 ^ 64))

/-- The float an exact result is rounded to, or the infinity it overflows to. -/
def float (q : Rat) : LuaNum :=
  if 2 ^ 1024 - 2 ^ 970 ≤ q then .inf false
  else if q ≤ -(2 ^ 1024 - 2 ^ 970) then .inf true
  else .flt (nearest q)

/-- Multiplication by a positive integer. -/
def scale (n : LuaNum) (k : Nat) : LuaNum :=
  match n with
  | .int i => wrap (i * k)
  | .flt q => float (q * k)
  | .inf negative => .inf negative
  | .nan => .nan

/-- `a / b` for a positive integer `b` of at most 53 bits. -/
def divide (n : LuaNum) (k : Nat) : LuaNum :=
  match n with
  | .int i => float (nearest i / k)
  | .flt q => float (q / k)
  | .inf negative => .inf negative
  | .nan => .nan

/-- Addition of a float. -/
def plus (n : LuaNum) (q : Rat) : LuaNum :=
  match n with
  | .int i => float (nearest i + q)
  | .flt r => float (r + q)
  | .inf negative => .inf negative
  | .nan => .nan

/-! ## The quotient of an integer -/

theorem abs_bmod_le (i : Int) : |Int.bmod i (2 ^ 64)| ≤ 2 ^ 63 := by
  have hlow : -((2 ^ 64 : Nat) / 2 : Int) ≤ Int.bmod i (2 ^ 64) := Int.le_bmod (by decide)
  have hhigh : Int.bmod i (2 ^ 64) < ((2 ^ 64 : Nat) + 1 : Int) / 2 := Int.bmod_lt (by decide)
  rw [abs_le]
  omega

/-- The quotient of a 64-bit integer is far from the largest double. -/
theorem divide_int {i : Int} {k : Nat} (hi : |i| ≤ 2 ^ 63) (hk : 0 < k) :
    (LuaNum.int i).divide k = .flt (nearest (nearest i / k)) := by
  have hpow : ((1 : Int) : Rat) * 2 ^ (63 : Int) = 2 ^ 63 := by norm_num
  have hnum : |nearest (i : Rat)| ≤ 2 ^ 63 := by
    rw [← hpow]
    apply abs_nearest_le (by norm_num) (by norm_num)
    rw [hpow]
    exact_mod_cast hi
  have hden : (1 : Rat) ≤ k := by exact_mod_cast hk
  have hquot : |nearest (i : Rat) / k| ≤ 2 ^ 63 := by
    rw [abs_div, abs_of_pos (lt_of_lt_of_le one_pos hden)]
    exact le_trans (div_le_self (abs_nonneg _) hden) hnum
  obtain ⟨hlow, hhigh⟩ := abs_le.mp hquot
  have hbig : (2 ^ 63 : Rat) < 2 ^ 1024 - 2 ^ 970 := by decide +kernel
  have hsmall : -(2 ^ 1024 - 2 ^ 970) < (-2 ^ 63 : Rat) := neg_lt_neg hbig
  show float (nearest i / k) = _
  unfold float
  rw [if_neg (not_le.mpr (lt_of_le_of_lt hhigh hbig)),
    if_neg (not_le.mpr (lt_of_lt_of_le hsmall hlow))]
/-! ## Numbers as text -/

/-- The decimal digits of a natural number. -/
def natText (n : Nat) : Str := (Nat.toDigits 10 n).map fun c => UInt8.ofNat c.toNat

/-- `%d` -/
def intText (i : Int) : Str :=
  if i < 0 then lit "-" ++ natText i.natAbs else natText i.natAbs

/-- The greatest `x` with `10 ^ x ≤ q`, for positive `q`. -/
def exponent10 (q : Rat) : Int :=
  if 1 ≤ q then Nat.log 10 q.floor.toNat else -(Nat.clog 10 (1 / q).ceil.toNat : Int)

/-- `q * 10 ^ x`. -/
def shift10 (q : Rat) (x : Int) : Rat :=
  if 0 ≤ x then q * 10 ^ x.toNat else q / 10 ^ (-x).toNat

/-- The fourteen significant digits of a positive number and the exponent of
the first one. -/
def significant (q : Rat) : Nat × Int :=
  let x := exponent10 q
  let d := (roundEven (shift10 q (13 - x))).toNat
  if d = 10 ^ 14 then (10 ^ 13, x + 1) else (d, x)

/-- Drop the zeros a decimal fraction ends in. -/
def stripZeros (s : Str) : Str := (s.reverse.dropWhile (· == 48)).reverse

/-- A fraction part with its point, or nothing. -/
def fraction (s : Str) : Str := if s = [] then [] else lit "." ++ s

/-- `%.14g` of a positive number. -/
def positiveText (q : Rat) : Str :=
  let (d, x) := significant q
  let ds := natText d
  if x < -4 ∨ 14 ≤ x then
    let e := natText x.natAbs
    ds.take 1 ++ fraction (stripZeros (ds.drop 1)) ++ lit "e" ++
      (if x < 0 then lit "-" else lit "+") ++ (if e.length < 2 then lit "0" ++ e else e)
  else if 0 ≤ x then
    ds.take (x.toNat + 1) ++ fraction (stripZeros (ds.drop (x.toNat + 1)))
  else
    lit "0" ++ fraction (stripZeros (List.replicate (-x - 1).toNat 48 ++ ds))

/-- `tostring` of a float: `%.14g`, with `.0` added where the text would read
as an integer. -/
def floatText (q : Rat) : Str :=
  let s := if q = 0 then lit "0"
    else if q < 0 then lit "-" ++ positiveText (-q) else positiveText q
  if s.all (fun c => digit c || c == 45) then s ++ lit ".0" else s

/-- `tostring` of a number, which is also its text in a concatenation. -/
def tostring : LuaNum → Str
  | .int i => intText i
  | .flt q => floatText q
  | .inf negative => if negative then lit "-inf" else lit "inf"
  | .nan => lit "nan"

/-! ## Text as numbers -/

/-- `isspace` of the C locale. -/
def isSpace (c : UInt8) : Bool := c == 32 || (9 ≤ c && c ≤ 13)

/-- A text without the white space around it. -/
def trim (s : Str) : Str := ((s.dropWhile isSpace).reverse.dropWhile isSpace).reverse

/-- The value of a hexadecimal digit. -/
def hexValue (c : UInt8) : Option Nat :=
  if 48 ≤ c ∧ c ≤ 57 then some (c.toNat - 48)
  else if 97 ≤ c ∧ c ≤ 102 then some (c.toNat - 87)
  else if 65 ≤ c ∧ c ≤ 70 then some (c.toNat - 55)
  else none

/-- The number a sequence of digits denotes. -/
def digitsValue (base : Nat) (s : Str) : Nat :=
  s.foldl (fun n c => base * n + (hexValue c).getD 0) 0

/-- An optional sign and what follows it. -/
def splitSign : Str → Bool × Str
  | 45 :: s => (true, s)
  | 43 :: s => (false, s)
  | s => (false, s)

/-- What follows a hexadecimal prefix. -/
def splitHex : Str → Option Str
  | 48 :: 120 :: s => some s
  | 48 :: 88 :: s => some s
  | _ => none

/-- `l_str2int`: the whole text is an integer numeral. -/
def str2int (s : Str) : Option LuaNum :=
  let (neg, body) := splitSign s
  match splitHex body with
  | some ds =>
      if ds ≠ [] ∧ ds.all (fun c => (hexValue c).isSome) then
        let n : Int := digitsValue 16 ds
        some (wrap (if neg then -n else n))
      else none
  | none =>
      if body ≠ [] ∧ body.all digit then
        let n := digitsValue 10 body
        if n < 2 ^ 63 then some (.int (if neg then -(n : Int) else n))
        else if neg ∧ n = 2 ^ 63 then some (.int (-(2 ^ 63)))
        else none
      else none

/-- An exponent part up to the end of the text: absent, or a mark, an optional
sign and digits. -/
def exponentPart (isMark : UInt8 → Bool) : Str → Option Int
  | [] => some 0
  | c :: s =>
      let (neg, ds) := splitSign s
      if isMark c ∧ ds ≠ [] ∧ ds.all digit then
        let n : Int := digitsValue 10 ds
        some (if neg then -n else n)
      else none

/-- Digits with an optional point among them, then an exponent. -/
def floatBody (base expBase : Nat) (isDigit isMark : UInt8 → Bool) (s : Str) :
    Option Rat :=
  let whole := s.takeWhile isDigit
  let (frac, rest) := match s.dropWhile isDigit with
    | 46 :: r => (r.takeWhile isDigit, r.dropWhile isDigit)
    | r => ([], r)
  if whole = [] ∧ frac = [] then none
  else match exponentPart isMark rest with
    | none => none
    | some x =>
        let m : Rat := digitsValue base (whole ++ frac) / (base ^ frac.length : Nat)
        some (if 0 ≤ x then m * (expBase ^ x.toNat : Nat)
          else m / (expBase ^ (-x).toNat : Nat))

/-- `l_str2d`: the whole text is what `strtod` reads, except that the words
for infinity and NaN are not accepted. -/
def str2d (s : Str) : Option LuaNum :=
  let (neg, body) := splitSign s
  let value := match splitHex body with
    | some ds =>
        floatBody 16 2 (fun c => (hexValue c).isSome) (fun c => c == 112 || c == 80) ds
    | none => floatBody 10 10 digit (fun c => c == 101 || c == 69) body
  value.map fun q => float (if neg then -q else q)

/-- `tonumber` of a string. -/
def ofStr (s : Str) : Option LuaNum := (str2int (trim s)).or (str2d (trim s))

end LuaNum

/-! ## Operators on values -/

namespace LuaVal

/-- Everything but `nil` and `false` counts as true in a condition. -/
def truthy : LuaVal → Bool
  | .nil => false
  | .bool b => b
  | _ => true

/-- `v ~= false` -/
def notFalse : LuaVal → Bool
  | .bool b => b
  | _ => true

/-- `type( v ) == "table"` -/
def isTable : LuaVal → Bool
  | .table _ => true
  | _ => false

/-- `pairs( v )` -/
def pairs : LuaVal → Except LuaError (List (LuaVal × LuaVal))
  | .table entries => .ok entries
  | _ => .error .call

/-- The text of `v` as an operand of `..`. -/
def concatText : LuaVal → Except LuaError Str
  | .str s => .ok s
  | .num n => .ok n.tostring
  | _ => .error .concat

/-- `tostring( v )`, where `address` is the text of values that print as an
address. -/
def tostring (address : LuaVal → Str) : LuaVal → Str
  | .nil => lit "nil"
  | .bool b => if b then lit "true" else lit "false"
  | .num n => n.tostring
  | .str s => s
  | v => address v

/-- `tonumber( v )` -/
def tonumber : LuaVal → Option LuaNum
  | .num n => some n
  | .str s => LuaNum.ofStr s
  | _ => none

/-- `a < b` for a number `a`. -/
def numLt (a : LuaNum) : LuaVal → Except LuaError Bool
  | .num b => .ok (a.lt b)
  | _ => .error .compare

/-- `b < a` for a number `a`. -/
def ltNum (a : LuaNum) : LuaVal → Except LuaError Bool
  | .num b => .ok (b.lt a)
  | _ => .error .compare

/-- `b <= a` for a number `a`. -/
def leNum (a : LuaNum) : LuaVal → Except LuaError Bool
  | .num b => .ok (b.le a)
  | _ => .error .compare

/-- `tonumber( v ) or d` -/
def numberOr (v : LuaVal) (d : Int) : LuaNum := v.tonumber.getD (.int d)

end LuaVal

end LuadchAnnouncer.Verified.LuaValue
