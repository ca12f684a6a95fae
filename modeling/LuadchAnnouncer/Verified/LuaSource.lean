import LuadchAnnouncer.Verified.LuaTable

/-!
# Lua chunks that hold data

The configuration files are Lua programs made of assignments of literal values
and a `return`.  This is the part of the language they are written in: the
lexer, the parser and the meaning of such a chunk.  Whatever else Lua would
accept is refused here, so a text that loads has the meaning it has in Lua, and
there is nothing in it that could be called.

The lexer reads one byte at a time, and `scan` is compatible with putting texts
together; the lemmas about it say what each kind of token does to the bytes
before and behind it.
-/

namespace LuadchAnnouncer.Verified.LuaSource

open LuadchAnnouncer.Verified.Bytes
open LuadchAnnouncer.Verified.LuaValue
open LuadchAnnouncer.Verified.LuaPattern (digit)
open LuadchAnnouncer.Verified.LuaTable

/-! ## Tokens -/

inductive Token where
  | name (s : Str)
  /-- a reserved word -/
  | word (s : Str)
  | str (s : Str)
  | num (n : LuaNum)
  /-- punctuation -/
  | sym (c : UInt8)
  deriving DecidableEq, Repr

def reserved : List Str :=
  [lit "and", lit "break", lit "do", lit "else", lit "elseif", lit "end", lit "false", lit "for",
    lit "function", lit "goto", lit "if", lit "in", lit "local", lit "nil", lit "not", lit "or",
    lit "repeat", lit "return", lit "then", lit "true", lit "until", lit "while"]

/-- The first byte of a name. -/
def nameStart (c : UInt8) : Bool := (97 ≤ c && c ≤ 122) || (65 ≤ c && c ≤ 90) || c == 95

def nameChar (c : UInt8) : Bool := nameStart c || digit c

def nameToken (s : Str) : Token := if reserved.contains s then .word s else .name s

/-- `isspace` of the C locale. -/
def space (c : UInt8) : Bool := c == 32 || (9 ≤ c && c ≤ 13)

/-! ## The lexer -/

/-- What the lexer is in the middle of. -/
inductive Mode where
  | start
  /-- behind a byte that might be the first of a longer symbol -/
  | pending (c : UInt8)
  | name (acc : Str)
  | numeral (acc : Str)
  | str (delim : UInt8) (acc : Str)
  /-- behind a backslash -/
  | escape (delim : UInt8) (acc : Str)
  /-- behind an escaped line feed -/
  | newline (delim : UInt8) (acc : Str)
  /-- in a decimal escape, with its value and the number of its digits -/
  | decimal (delim : UInt8) (acc : Str) (value count : Nat)
  /-- behind two dashes -/
  | dashes
  /-- in a comment that ends with its line -/
  | comment
  deriving DecidableEq, Repr

/-- The symbols that end with their first byte. -/
def single (c : UInt8) : Bool := c == 93 || c == 123 || c == 125 || c == 44 || c == 59

/-- The symbols that may go on. -/
def double (c : UInt8) : Bool := c == 61 || c == 45 || c == 46 || c == 91

/-- `==`, `..`, a fraction, `[[` and `[=` are left out. -/
def combines (c d : UInt8) : Bool :=
  (c == 61 && d == 61) || (c == 46 && (d == 46 || digit d)) ||
    (c == 91 && (d == 91 || d == 61))

/-- A byte where no token is under way. -/
def begin (c : UInt8) : Option Mode :=
  if space c then some .start
  else if nameStart c then some (.name [c])
  else if digit c then some (.numeral [c])
  else if c == 34 || c == 39 then some (.str c [])
  else if double c then some (.pending c)
  else none

/-- The same, with the token the byte is. -/
def beginToken (c : UInt8) : Option (List Token × Mode) :=
  if single c then some ([.sym c], .start) else (begin c).map fun m => ([], m)

/-- A byte of a string. -/
def inStr (delim : UInt8) (acc : Str) (c : UInt8) : Option (List Token × Mode) :=
  if c = delim then some ([.str acc], .start)
  else if c = 92 then some ([], .escape delim acc)
  else if c = 10 ∨ c = 13 then none
  else some ([], .str delim (acc ++ [c]))

/-- The bytes that stand for another one behind a backslash. -/
def simpleEscape (c : UInt8) : Option UInt8 :=
  if c = 97 then some 7 else if c = 98 then some 8 else if c = 102 then some 12
  else if c = 110 then some 10 else if c = 114 then some 13 else if c = 116 then some 9
  else if c = 118 then some 11 else if c = 92 then some 92 else if c = 34 then some 34
  else if c = 39 then some 39 else none

/-- A token is complete, and a byte follows it. -/
def emit (t : Token) (c : UInt8) : Option (List Token × Mode) :=
  (beginToken c).map fun r => (t :: r.1, r.2)

/-- One byte: the tokens it completes, and what the lexer is in the middle of
then. -/
def step : Mode → UInt8 → Option (List Token × Mode)
  | .start, c => beginToken c
  | .pending d, c =>
      if d = 45 ∧ c = 45 then some ([], .dashes)
      else if combines d c then none else emit (.sym d) c
  | .name acc, c => if nameChar c then some ([], .name (acc ++ [c])) else emit (nameToken acc) c
  | .numeral acc, c =>
      if digit c then some ([], .numeral (acc ++ [c]))
      else if nameStart c || c == 46 then none
      else (LuaNum.ofStr acc).bind fun n => emit (.num n) c
  | .str delim acc, c => inStr delim acc c
  | .escape delim acc, c =>
      if c = 10 then some ([], .newline delim (acc ++ [10]))
      else if digit c then some ([], .decimal delim acc (c.toNat - 48) 1)
      else (simpleEscape c).map fun e => ([], .str delim (acc ++ [e]))
  | .newline delim acc, c => if c = 13 then some ([], .str delim acc) else inStr delim acc c
  | .decimal delim acc value count, c =>
      if digit c ∧ count < 3 then
        some ([], .decimal delim acc (10 * value + (c.toNat - 48)) (count + 1))
      else if value ≤ 255 then inStr delim (acc ++ [UInt8.ofNat value]) c
      else none
  -- a bracket there might begin a long comment
  | .dashes, c => if c = 91 then none else if c = 10 ∨ c = 13 then some ([], .start)
      else some ([], .comment)
  | .comment, c => if c = 10 ∨ c = 13 then some ([], .start) else some ([], .comment)

/-- The tokens a text completes. -/
def scan : Mode → Str → Option (List Token × Mode)
  | m, [] => some ([], m)
  | m, c :: s =>
      (step m c).bind fun r => (scan r.2 s).map fun r' => (r.1 ++ r'.1, r'.2)

/-- The token the end of the text completes. -/
def finish : Mode → Option (List Token)
  | .start => some []
  | .pending c => some [.sym c]
  | .name acc => some [nameToken acc]
  | .numeral acc => (LuaNum.ofStr acc).map fun n => [.num n]
  | .dashes => some []
  | .comment => some []
  | _ => none

def lex (s : Str) : Option (List Token) :=
  (scan .start s).bind fun r => (finish r.2).map fun ts => r.1 ++ ts

/-! ## The parser -/

/-- A unary minus. -/
def neg : LuaNum → LuaNum
  | .int i => LuaNum.wrap (-i)
  | .flt q => .flt (-q)
  | .inf negative => .inf (!negative)
  | .nan => .nan

/-- The key of a field.  The first argument is the number of syntax levels left;
an operand of a sign is a level of its own. -/
def parseKey : Nat → List Token → Option (LuaVal × List Token)
  | _ + 1, .str s :: ts => some (.str s, ts)
  | _ + 1, .num n :: ts => some (normKey (.num n), ts)
  | _ + 2, .sym 45 :: .num n :: ts => some (normKey (.num (neg n)), ts)
  | _, _ => none

mutual

/-- A literal value.  The first argument is fuel, the second the number of syntax
levels left. -/
def parseExp : Nat → Nat → List Token → Option (LuaVal × List Token)
  | _, _ + 1, .str s :: ts => some (.str s, ts)
  | _, _ + 1, .num n :: ts => some (.num n, ts)
  | _, _ + 2, .sym 45 :: .num n :: ts => some (.num (neg n), ts)
  | _, _ + 1, .word [116, 114, 117, 101] :: ts => some (.bool true, ts)
  | _, _ + 1, .word [102, 97, 108, 115, 101] :: ts => some (.bool false, ts)
  | _, _ + 1, .word [110, 105, 108] :: ts => some (.nil, ts)
  | n + 1, levels + 1, .sym 123 :: ts => parseFields n levels [] ts
  | _, _, _ => none

/-- The fields of a table constructor, behind those that are read already. -/
def parseFields : Nat → Nat → Entries → List Token → Option (LuaVal × List Token)
  | _, _, es, .sym 125 :: ts => some (.table es, ts)
  | n + 1, levels, es, .sym 91 :: ts =>
      match parseKey levels ts with
      | some (k, .sym 93 :: .sym 61 :: ts) =>
          match parseExp n levels ts with
          | some (v, .sym 44 :: ts) => parseFields n levels (set es k v) ts
          | some (v, .sym 59 :: ts) => parseFields n levels (set es k v) ts
          | some (v, .sym 125 :: ts) => some (.table (set es k v), ts)
          | _ => none
      | _ => none
  | _, _, _, _ => none

end

/-- `name.field.field = value` -/
structure Stat where
  name : Str
  fields : List Str
  value : LuaVal

/-- What a chunk returns. -/
inductive Result where
  | nothing
  | name (s : Str)
  | value (v : LuaVal)

structure Chunk where
  stats : List Stat
  result : Result

/-- `.field` any number of times. -/
def parsePath : List Token → List Str × List Token
  | .sym 46 :: .name s :: ts => let (fields, rest) := parsePath ts; (s :: fields, rest)
  | ts => ([], ts)

/-- An assignment, behind the name it starts with. -/
def parseStat (levels : Nat) (name : Str) (ts : List Token) : Option (Stat × List Token) :=
  match parsePath ts with
  | (fields, .sym 61 :: rest) =>
      (parseExp rest.length levels rest).map fun r => (⟨name, fields, r.1⟩, r.2)
  | _ => none

/-- Behind `return`. -/
def parseReturn (levels : Nat) : List Token → Option Result
  | [] => some .nothing
  | [.name s] => if levels = 0 then none else some (.name s)
  | ts =>
      match parseExp ts.length levels ts with
      | some (v, []) => some (.value v)
      | _ => none

/-- The statements of a chunk.  The first argument is fuel; each statement is a
syntax level. -/
def parseStats : Nat → Nat → List Token → Option Chunk
  | _, _, [] => some ⟨[], .nothing⟩
  | n + 1, levels + 1, .sym 59 :: ts => parseStats n (levels + 1) ts
  | _, levels + 1, .word [114, 101, 116, 117, 114, 110] :: ts =>
      (parseReturn levels ts).map fun result => ⟨[], result⟩
  | n + 1, levels + 1, .name s :: ts =>
      (parseStat levels s ts).bind fun r =>
        (parseStats n (levels + 1) r.2).map fun chunk => ⟨r.1 :: chunk.stats, chunk.result⟩
  | _, _, _ => none

def parse (levels : Nat) (ts : List Token) : Option Chunk := parseStats ts.length levels ts

/-- `load( content )`, with `levels` left of the C stack `LUAI_MAXCCALLS` allows. -/
def load (levels : Nat) (content : Str) : Option Chunk := (lex content).bind (parse levels)

/-! ## Running a chunk -/

/-- The global variables. -/
abbrev Globals := Str → LuaVal

/-- What a variable holds when `v` has been assigned to one of its fields. -/
def assign (v : LuaVal) : List Str → LuaVal → Except LuaError LuaVal
  | [], _ => .ok v
  | field :: fields, .table es =>
      (assign v fields (get es (.str field))).map fun inner => .table (set es (.str field) inner)
  | _ :: _, _ => .error .index

def Stat.run (globals : Globals) (stat : Stat) : Except LuaError Globals :=
  (assign stat.value stat.fields (globals stat.name)).map fun v =>
    Function.update globals stat.name v

def Result.eval (globals : Globals) : Result → LuaVal
  | .nothing => .nil
  | .name s => globals s
  | .value v => v

/-- `chunk( )`: what it returns, and the globals it leaves. -/
def Chunk.run (globals : Globals) (chunk : Chunk) : Except LuaError (LuaVal × Globals) :=
  (chunk.stats.foldlM Stat.run globals).map fun globals => (chunk.result.eval globals, globals)

end LuadchAnnouncer.Verified.LuaSource
