import Mathlib.Data.List.DropRight
import Mathlib.Data.List.TakeWhile
import Mathlib.Tactic.IntervalCases
import LuadchAnnouncer.Verified.LuaSource

/-!
# Values written as literals

`string.format` writes a string with `%q` and an integer with `%d`; this file
says what the lexer makes of the two, whatever the bytes of the string are and
whatever follows.  `tokens` is a whole value as a table constructor, and
`parseExp_tokens` that the parser reads it back, with its keys sorted.

## Main results

* `scan_append`, `scan_congr` — the scanner over parts of a text.
* `scan_quote` — a string that `%q` has written is read as the string it was.
* `ofStr_natText` — a number and its digits.
* `Reads.append`, `Reads.lex` — texts that read as given tokens, put together.
-/

namespace LuadchAnnouncer.Verified.LuaLiteral

open LuadchAnnouncer.Verified.Bytes
open LuadchAnnouncer.Verified.LuaValue
open LuadchAnnouncer.Verified.LuaPattern (digit)
open LuadchAnnouncer.Verified.LuaTable
open LuadchAnnouncer.Verified.LuaSource

/-! ## `%q` -/

/-- `iscntrl` of the C locale. -/
def control (c : UInt8) : Bool := c < 32 || c == 127

/-- A decimal escape, of three digits where another digit follows. -/
def decimalEscape (c : UInt8) (next : Option UInt8) : Str :=
  let ds := LuaNum.natText c.toNat
  92 :: if next.any digit then List.replicate (3 - ds.length) 48 ++ ds else ds

def quoteByte (c : UInt8) (next : Option UInt8) : Str :=
  if c = 34 ∨ c = 92 ∨ c = 10 then [92, c]
  else if control c then decimalEscape c next
  else [c]

def quoteFrom : Str → Str
  | [] => []
  | c :: s => quoteByte c s.head? ++ quoteFrom s

/-- `string.format( "%q", s )` -/
def quote (s : Str) : Str := 34 :: (quoteFrom s ++ [34])

/-! ## Putting texts together -/

/-- The tokens of a text before those of another. -/
def before (ts : List Token) (r : List Token × Mode) : List Token × Mode := (ts ++ r.1, r.2)

@[simp] theorem before_nil : before [] = id := rfl

@[simp] theorem before_comp (ts ts' : List Token) :
    before ts ∘ before ts' = before (ts ++ ts') := by
  funext r
  simp [before]

/-- The scanner over two texts: it goes on with the second in the mode the first has left it
in.  This is what the lemmas about parts of a chunk are put together with. -/
theorem scan_append (m : Mode) (s t : Str) :
    scan m (s ++ t) = (scan m s).bind fun r => (scan r.2 t).map (before r.1) := by
  induction s generalizing m with
  | nil => simp [scan]
  | cons c s ih =>
      rw [List.cons_append, scan, scan]
      cases step m c with
      | none => rfl
      | some r =>
          simp only [Option.bind_some]
          rw [ih r.2]
          cases scan r.2 s with
          | none => rfl
          | some r' =>
              simp only [Option.bind_some, Option.map_some, Option.map_map]
              congr 1
              funext r''
              simp [before]

/-- A text that ends with a token complete is read by itself. -/
theorem scan_of {m m' : Mode} {s : Str} {ts : List Token} (h : scan m s = some (ts, m'))
    (rest : Str) : scan m (s ++ rest) = (scan m' rest).map (before ts) := by
  rw [scan_append, h]
  rfl

/-! ## Digits -/

theorem digitByte (d : Nat) (hd : d < 10) :
    UInt8.ofNat (Nat.digitChar d).toNat = UInt8.ofNat (48 + d) := by
  interval_cases d <;> rfl

/-- The decimal digits of a number: those of its tenth part, and the last one behind them. -/
theorem natText_eq (n : Nat) :
    LuaNum.natText n =
      if n < 10 then [UInt8.ofNat (48 + n)]
      else LuaNum.natText (n / 10) ++ [UInt8.ofNat (48 + n % 10)] := by
  unfold LuaNum.natText
  rw [Nat.toDigits_eq_if (by omega)]
  split
  case isTrue h => simp [digitByte n h]
  case isFalse => simp [digitByte (n % 10) (by omega)]

theorem digit_ofNat (d : Nat) (hd : d < 10) : digit (UInt8.ofNat (48 + d)) = true := by
  interval_cases d <;> rfl

theorem hexValue_ofNat (d : Nat) (hd : d < 10) :
    LuaNum.hexValue (UInt8.ofNat (48 + d)) = some d := by
  interval_cases d <;> rfl

/-- They are digits. -/
theorem digit_natText (n : Nat) : ∀ c ∈ LuaNum.natText n, digit c = true := by
  induction n using Nat.strong_induction_on with
  | _ n ih =>
      intro c hc
      rw [natText_eq] at hc
      split at hc
      case isTrue h =>
        rw [List.mem_singleton] at hc
        rw [hc]
        exact digit_ofNat n h
      case isFalse h =>
        rw [List.mem_append, List.mem_singleton] at hc
        rcases hc with hc | rfl
        · exact ih (n / 10) (by omega) c hc
        · exact digit_ofNat (n % 10) (by omega)

theorem natText_ne_nil (n : Nat) : LuaNum.natText n ≠ [] := by
  rw [natText_eq]
  split
  · simp
  · simp

/-- And read as a number they are the number.  The induction is on it, digit by digit. -/
theorem digitsValue_natText (n : Nat) : LuaNum.digitsValue 10 (LuaNum.natText n) = n := by
  induction n using Nat.strong_induction_on with
  | _ n ih =>
      rw [natText_eq]
      split
      case isTrue h =>
        unfold LuaNum.digitsValue
        rw [List.foldl_cons, List.foldl_nil, hexValue_ofNat n h]
        simp
      case isFalse h =>
        have hrest := ih (n / 10) (by omega)
        unfold LuaNum.digitsValue at hrest ⊢
        rw [List.foldl_append, hrest]
        simp only [List.foldl_cons, List.foldl_nil, hexValue_ofNat (n % 10) (by omega),
          Option.getD_some]
        omega

theorem natText_length_le {n : Nat} (h : n < 1000) : (LuaNum.natText n).length ≤ 3 := by
  unfold LuaNum.natText
  rw [List.length_map]
  exact (Nat.length_toDigits_le_iff (by omega) (by omega)).mpr (by omega)

theorem hexValue_digit {c : UInt8} (h : digit c = true) :
    LuaNum.hexValue c = some (c.toNat - 48) := by
  unfold digit at h
  simp only [Bool.and_eq_true, decide_eq_true_eq] at h
  simp [LuaNum.hexValue, h.1, h.2]

/-! ## Strings -/

/-- What the digits of an escape add to its value. -/
def shiftDigits (value : Nat) (ds : Str) : Nat :=
  ds.foldl (fun n c => 10 * n + (c.toNat - 48)) value

/-- The digits behind a backslash are read one by one, as a number to base ten. -/
theorem shiftDigits_eq {ds : Str} (hds : ∀ c ∈ ds, digit c = true) (value : Nat) :
    shiftDigits value ds = ds.foldl (fun n c => 10 * n + (LuaNum.hexValue c).getD 0) value := by
  unfold shiftDigits
  apply List.foldl_ext
  intro n c hc
  rw [hexValue_digit (hds c hc)]
  rfl

/-- So zeros in front change nothing. -/
theorem shiftDigits_zeros (k : Nat) (ds : Str) :
    shiftDigits 0 (List.replicate k 48 ++ ds) = shiftDigits 0 ds := by
  induction k with
  | zero => rfl
  | succ k ih =>
      rw [List.replicate_succ, List.cons_append]
      exact ih

/-- A decimal escape has at most three digits, exactly three before another
digit, and they spell the byte. -/
theorem decimalEscape_spells (c : UInt8) (next : Option UInt8) :
    ∃ ds, decimalEscape c next = 92 :: ds ∧ ds ≠ [] ∧ (∀ d ∈ ds, digit d = true) ∧
      ds.length ≤ 3 ∧ (next.any digit = true → ds.length = 3) ∧
      shiftDigits 0 ds = c.toNat := by
  have hlen : (LuaNum.natText c.toNat).length ≤ 3 := by
    apply natText_length_le
    have hbyte : c.toNat < 256 := c.toNat_lt
    omega
  have hds := digit_natText c.toNat
  have hvalue : shiftDigits 0 (LuaNum.natText c.toNat) = c.toNat := by
    rw [shiftDigits_eq hds]
    exact digitsValue_natText c.toNat
  have hne := natText_ne_nil c.toNat
  unfold decimalEscape
  cases hnext : next.any digit
  case false => exact ⟨LuaNum.natText c.toNat, by simp, hne, hds, hlen, by simp, hvalue⟩
  case true =>
    refine ⟨List.replicate (3 - (LuaNum.natText c.toNat).length) 48 ++ LuaNum.natText c.toNat,
      by simp, by simp [hne], ?_, ?_, ?_, ?_⟩
    · intro d hd
      rcases List.mem_append.mp hd with hzero | hdigit
      · rw [(List.mem_replicate.mp hzero).2]
        rfl
      · exact hds d hdigit
    · rw [List.length_append, List.length_replicate]
      omega
    · intro _
      rw [List.length_append, List.length_replicate]
      omega
    · rw [shiftDigits_zeros, hvalue]

/-- Up to three digits behind a backslash are read as one escape. -/
theorem scan_digits {delim : UInt8} {acc ds : Str} (hds : ∀ c ∈ ds, digit c = true)
    {value count : Nat} (hlen : count + ds.length ≤ 3) (rest : Str) :
    scan (.decimal delim acc value count) (ds ++ rest) =
      scan (.decimal delim acc (shiftDigits value ds) (count + ds.length)) rest := by
  induction ds generalizing value count with
  | nil => rfl
  | cons c ds ih =>
      have hc : digit c = true := hds c (by simp)
      rw [List.length_cons] at hlen
      have hstep : step (.decimal delim acc value count) c =
          some ([], .decimal delim acc (10 * value + (c.toNat - 48)) (count + 1)) := by
        have hcount : count < 3 := by omega
        simp [step, hc, hcount]
      rw [List.cons_append, scan, hstep, Option.bind_some]
      show (scan _ (ds ++ rest)).map (before []) = _
      rw [before_nil, Option.map_id, id, ih (fun c hc => hds c (by simp [hc])) (by omega),
        List.length_cons, show count + 1 + ds.length = count + (ds.length + 1) by omega]
      rfl

/-- The first digit behind a backslash. -/
theorem step_escape_digit {delim c : UInt8} {acc : Str} (h : digit c = true) :
    step (.escape delim acc) c = step (.decimal delim acc 0 0) c := by
  have hlf : c ≠ 10 := by
    intro hc
    rw [hc] at h
    exact absurd h (by decide)
  simp [step, h, hlf]

/-- An escape is complete where no further digit belongs to it. -/
theorem step_decimal_end {delim c : UInt8} {acc : Str} {value count : Nat}
    (hvalue : value ≤ 255) (hend : digit c = true → 3 ≤ count) :
    step (.decimal delim acc value count) c =
      step (.str delim (acc ++ [UInt8.ofNat value])) c := by
  have hmore : ¬(digit c = true ∧ count < 3) := by
    rintro ⟨hc, hcount⟩
    have hthree := hend hc
    omega
  simp [step, hmore, hvalue]

theorem step_newline {delim c : UInt8} {acc : Str} (h : c ≠ 13) :
    step (.newline delim acc) c = step (.str delim acc) c := by
  simp [step, h]

/-- Where the next byte is taken the same way, so is the rest. -/
theorem scan_congr {m m' : Mode} {c : UInt8} (h : step m c = step m' c) (s : Str) :
    scan m (c :: s) = scan m' (c :: s) := by
  rw [scan, scan, h]

/-- A byte that completes no token. -/
theorem scan_quiet {m m' : Mode} {c : UInt8} (h : step m c = some ([], m')) (s : Str) :
    scan m (c :: s) = scan m' s := by
  rw [scan, h]
  show (scan m' s).map (before []) = scan m' s
  rw [before_nil, Option.map_id, id]

/-- The byte a quoted text goes on with.  It is a digit only where the text
itself goes on with one. -/
theorem quoteFrom_head (s : Str) (rest : Str) :
    ∃ d t, quoteFrom s ++ 34 :: rest = d :: t ∧ d ≠ 13 ∧
      (digit d = true → s.head?.any digit = true) := by
  cases s with
  | nil => exact ⟨34, rest, rfl, by decide, by decide⟩
  | cons c s =>
      rw [quoteFrom, List.append_assoc]
      unfold quoteByte
      split
      case isTrue => exact ⟨92, _, rfl, by decide, fun h => absurd h (by decide)⟩
      case isFalse =>
        split
        case isTrue => exact ⟨92, _, rfl, by decide, fun h => absurd h (by decide)⟩
        case isFalse hcontrol =>
          refine ⟨c, _, rfl, ?_, fun h => h⟩
          intro hc
          rw [hc] at hcontrol
          exact hcontrol (by decide)

/-- One byte as `%q` writes it, before the rest of the text. -/
theorem scan_quoteByte (c : UInt8) (s acc rest : Str) :
    scan (.str 34 acc) (quoteByte c s.head? ++ (quoteFrom s ++ 34 :: rest)) =
      scan (.str 34 (acc ++ [c])) (quoteFrom s ++ 34 :: rest) := by
  obtain ⟨d, t, hrest, hcr, hdigit⟩ := quoteFrom_head s rest
  rw [hrest]
  have hbackslash : step (.str 34 acc) 92 = some ([], .escape 34 acc) := rfl
  unfold quoteByte
  split
  case isTrue hspecial =>
    rw [List.cons_append, scan_quiet hbackslash]
    rcases hspecial with rfl | rfl | rfl
    · exact scan_quiet rfl _
    · exact scan_quiet rfl _
    · -- the line feed, and no carriage return behind it
      have hlf : step (.escape 34 acc) 10 = some ([], .newline 34 (acc ++ [10])) := rfl
      rw [List.cons_append, scan_quiet hlf]
      exact scan_congr (step_newline hcr) t
  case isFalse hplain =>
    split
    case isTrue =>
      obtain ⟨ds, hescape, hne, hds, hlen, hthree, hvalue⟩ := decimalEscape_spells c s.head?
      rw [hescape, List.cons_append, scan_quiet hbackslash]
      have hfirst : scan (.escape 34 acc) (ds ++ d :: t) =
          scan (.decimal 34 acc 0 0) (ds ++ d :: t) := by
        cases ds with
        | nil => exact absurd rfl hne
        | cons e ds => exact scan_congr (step_escape_digit (hds e (by simp))) _
      rw [hfirst, scan_digits hds (by omega), hvalue]
      have hbyte : c.toNat ≤ 255 := by
        have hlt : c.toNat < 256 := c.toNat_lt
        omega
      have hend : digit d = true → 3 ≤ 0 + ds.length := by
        intro hd
        have hlen' := hthree (hdigit hd)
        omega
      rw [scan_congr (step_decimal_end hbyte hend), UInt8.ofNat_toNat]
    case isFalse hcontrol =>
      have hne : c ≠ 34 ∧ c ≠ 92 ∧ c ≠ 10 := by
        refine ⟨fun h => ?_, fun h => ?_, fun h => ?_⟩
        · exact hplain (Or.inl h)
        · exact hplain (Or.inr (Or.inl h))
        · exact hplain (Or.inr (Or.inr h))
      have hcr' : c ≠ 13 := by
        intro h
        rw [h] at hcontrol
        exact hcontrol (by decide)
      have hstep : step (.str 34 acc) c = some ([], .str 34 (acc ++ [c])) := by
        simp [step, inStr, hne.1, hne.2.1, hne.2.2, hcr']
      exact scan_quiet hstep _

/-- `%q` is undone by the lexer, whatever the bytes are. -/
theorem scan_quoteFrom (s acc rest : Str) :
    scan (.str 34 acc) (quoteFrom s ++ 34 :: rest) =
      (scan .start rest).map (before [.str (acc ++ s)]) := by
  induction s generalizing acc with
  | nil =>
      rw [List.append_nil]
      rfl
  | cons c s ih =>
      rw [quoteFrom, List.append_assoc, scan_quoteByte, ih, List.append_assoc]
      rfl

theorem scan_quote (s rest : Str) :
    scan .start (quote s ++ rest) = (scan .start rest).map (before [.str s]) := by
  unfold quote
  rw [List.cons_append, List.append_assoc, scan_quiet rfl]
  exact scan_quoteFrom s [] rest

/-! ## Names and numbers -/

/-- A token that its next byte completes. -/
theorem scan_emit {m : Mode} {c : UInt8} {t : Token} (h : step m c = emit t c) (s : Str) :
    scan m (c :: s) = (scan .start (c :: s)).map (before [t]) := by
  have hstart : step .start c = beginToken c := rfl
  rw [scan, scan, h, hstart]
  unfold emit
  cases beginToken c with
  | none => rfl
  | some r =>
      rw [Option.map_some, Option.bind_some, Option.bind_some, Option.map_map]
      rfl

/-- No token goes on with this byte. -/
def closes (c : UInt8) : Bool := !nameChar c && c != 46

/-- A byte that ends a name is none a name could go on with, and no digit or point. -/
theorem closes_spec {c : UInt8} (h : closes c = true) :
    nameChar c = false ∧ nameStart c = false ∧ digit c = false ∧ c ≠ 46 := by
  unfold closes nameChar at h
  simp only [Bool.and_eq_true, Bool.not_eq_true', Bool.or_eq_false_iff, bne_iff_ne] at h
  obtain ⟨⟨hstart, hdigit⟩, hdot⟩ := h
  refine ⟨?_, hstart, hdigit, hdot⟩
  unfold nameChar
  rw [hstart, hdigit]
  rfl

/-- A name goes on as long as there are bytes of names. -/
theorem scan_name_chars {s : Str} (h : ∀ c ∈ s, nameChar c = true) (acc rest : Str) :
    scan (.name acc) (s ++ rest) = scan (.name (acc ++ s)) rest := by
  induction s generalizing acc with
  | nil => rw [List.append_nil, List.nil_append]
  | cons c s ih =>
      have hstep : step (.name acc) c = some ([], .name (acc ++ [c])) := by
        simp [step, h c (by simp)]
      rw [List.cons_append, scan_quiet hstep, ih fun c hc => h c (by simp [hc]),
        List.append_assoc]
      rfl

/-- A name, as a program may spell one, reserved or not. -/
def word (s : Str) : Bool := s.head?.any nameStart && s.all nameChar

/-- A property of bytes that can be tried out on all of them. -/
theorem forall_byte {p : UInt8 → Prop} (h : ∀ n < 256, p (UInt8.ofNat n)) (c : UInt8) : p c := by
  have hc := h c.toNat c.toNat_lt
  rwa [UInt8.ofNat_toNat] at hc

theorem step_nameStart {c : UInt8} (h : nameStart c = true) :
    step .start c = some ([], .name [c]) := by
  revert h
  exact forall_byte (p := fun c => nameStart c = true → step .start c = some ([], .name [c]))
    (by decide +kernel) c

theorem step_digit {c : UInt8} (h : digit c = true) :
    step .start c = some ([], .numeral [c]) := by
  revert h
  exact forall_byte (p := fun c => digit c = true → step .start c = some ([], .numeral [c]))
    (by decide +kernel) c

/-- What the lexer is in the middle of behind a name. -/
theorem scan_word_open {s : Str} (h : word s = true) (rest : Str) :
    scan .start (s ++ rest) = scan (.name s) rest := by
  unfold word at h
  rw [Bool.and_eq_true, List.all_eq_true] at h
  obtain ⟨hstart, hchars⟩ := h
  cases s with
  | nil => simp at hstart
  | cons c s =>
      have hc : nameStart c = true := by simpa using hstart
      rw [List.cons_append, scan_quiet (step_nameStart hc)]
      exact scan_name_chars (fun d hd => hchars d (by simp [hd])) [c] rest

theorem scan_word {s : Str} (h : word s = true) {c : UInt8} (hc : closes c = true) (rest : Str) :
    scan .start (s ++ c :: rest) = (scan .start (c :: rest)).map (before [nameToken s]) := by
  have hstep : step (.name s) c = emit (nameToken s) c := by
    simp [step, (closes_spec hc).1]
  rw [scan_word_open h, scan_emit hstep]

/-- What a decimal numeral denotes. -/
def numeral (n : Nat) : LuaNum := if n < 2 ^ 63 then .int n else LuaNum.float n

theorem isSpace_of_digit {c : UInt8} (h : digit c = true) : LuaNum.isSpace c = false := by
  revert h
  exact forall_byte (p := fun c => digit c = true → LuaNum.isSpace c = false)
    (by decide +kernel) c

theorem dropWhile_isSpace {s : Str} (h : ∀ c ∈ s, LuaNum.isSpace c = false) :
    s.dropWhile LuaNum.isSpace = s := by
  apply List.dropWhile_eq_self_iff.mpr
  intro hlen hspace
  rw [h _ (List.getElem_mem hlen)] at hspace
  exact absurd hspace (by decide)

/-- There is nothing to trim. -/
theorem trim_eq_self {s : Str} (h : ∀ c ∈ s, LuaNum.isSpace c = false) : LuaNum.trim s = s := by
  unfold LuaNum.trim
  rw [dropWhile_isSpace h, dropWhile_isSpace fun c hc => h c (List.mem_reverse.mp hc),
    List.reverse_reverse]

theorem trim_eq (s : Str) :
    LuaNum.trim s = (s.dropWhile LuaNum.isSpace).rdropWhile LuaNum.isSpace := rfl

/-- What is trimmed has nothing to trim. -/
theorem trim_trim (s : Str) : LuaNum.trim (LuaNum.trim s) = LuaNum.trim s := by
  have hfirst : (LuaNum.trim s).dropWhile LuaNum.isSpace = LuaNum.trim s := by
    rw [List.dropWhile_eq_self_iff]
    intro hpos
    have hstart : LuaNum.trim s <+: s.dropWhile LuaNum.isSpace := List.rdropWhile_prefix _ _
    rw [hstart.getElem hpos]
    exact List.dropWhile_get_zero_not LuaNum.isSpace s
      (Nat.lt_of_lt_of_le hpos hstart.length_le)
  rw [trim_eq (LuaNum.trim s), hfirst, trim_eq, List.rdropWhile_idempotent]

/-- A text without a sign has none to split off. -/
theorem splitSign_of_notMem {s : Str} (hminus : 45 ∉ s) (hplus : 43 ∉ s) :
    LuaNum.splitSign s = (false, s) := by
  unfold LuaNum.splitSign
  split
  · exact absurd List.mem_cons_self hminus
  · exact absurd List.mem_cons_self hplus
  · rfl

theorem splitSign_digits {s : Str} (h : ∀ c ∈ s, digit c = true) :
    LuaNum.splitSign s = (false, s) := by
  apply splitSign_of_notMem
  · exact fun hmem => absurd (h 45 hmem) (by decide)
  · exact fun hmem => absurd (h 43 hmem) (by decide)

theorem splitHex_digits {s : Str} (h : ∀ c ∈ s, digit c = true) : LuaNum.splitHex s = none := by
  unfold LuaNum.splitHex
  split
  · exact absurd (h 120 (by simp)) (by decide)
  · exact absurd (h 88 (by simp)) (by decide)
  · rfl

/-- Digits alone are an integer as long as it fits 64 bits. -/
theorem str2int_digits {s : Str} (hne : s ≠ []) (h : ∀ c ∈ s, digit c = true) :
    LuaNum.str2int s =
      if LuaNum.digitsValue 10 s < 2 ^ 63 then some (.int (LuaNum.digitsValue 10 s)) else none := by
  have hall : s.all digit = true := List.all_eq_true.mpr h
  unfold LuaNum.str2int
  rw [splitSign_digits h]
  simp [splitHex_digits h, hne, hall]

/-- And a float in any case. -/
theorem str2d_digits {s : Str} (hne : s ≠ []) (h : ∀ c ∈ s, digit c = true) :
    LuaNum.str2d s = some (LuaNum.float (LuaNum.digitsValue 10 s)) := by
  have htake : s.takeWhile digit = s := List.takeWhile_eq_self_iff.mpr h
  have hdrop : s.dropWhile digit = [] := List.dropWhile_eq_nil_iff.mpr h
  unfold LuaNum.str2d
  rw [splitSign_digits h]
  simp [splitHex_digits h, LuaNum.floatBody, htake, hdrop, hne, LuaNum.exponentPart]

/-- Digits are always a number. -/
theorem ofStr_digits {s : Str} (hne : s ≠ []) (h : ∀ c ∈ s, digit c = true) :
    LuaNum.ofStr s = some (numeral (LuaNum.digitsValue 10 s)) := by
  have htrim : LuaNum.trim s = s := trim_eq_self fun c hc => isSpace_of_digit (h c hc)
  unfold LuaNum.ofStr numeral
  rw [htrim, str2int_digits hne h, str2d_digits hne h]
  split
  · rfl
  · rfl

theorem ofStr_natText (n : Nat) : LuaNum.ofStr (LuaNum.natText n) = some (numeral n) := by
  rw [ofStr_digits (natText_ne_nil n) (digit_natText n), digitsValue_natText]

/-- A numeral goes on as long as there are digits. -/
theorem scan_numeral_digits {s : Str} (h : ∀ c ∈ s, digit c = true) (acc rest : Str) :
    scan (.numeral acc) (s ++ rest) = scan (.numeral (acc ++ s)) rest := by
  induction s generalizing acc with
  | nil => rw [List.append_nil, List.nil_append]
  | cons c s ih =>
      have hstep : step (.numeral acc) c = some ([], .numeral (acc ++ [c])) := by
        simp [step, h c (by simp)]
      rw [List.cons_append, scan_quiet hstep, ih fun c hc => h c (by simp [hc]),
        List.append_assoc]
      rfl

/-- There is at least one digit. -/
theorem natText_cons (n : Nat) :
    ∃ d ds, LuaNum.natText n = d :: ds ∧ digit d = true ∧ ∀ c ∈ ds, digit c = true := by
  have hds := digit_natText n
  cases hn : LuaNum.natText n with
  | nil => exact absurd hn (natText_ne_nil n)
  | cons d ds =>
      rw [hn] at hds
      exact ⟨d, ds, rfl, hds d (by simp), fun c hc => hds c (by simp [hc])⟩

/-- So the text of a number is one token, where it ends. -/
theorem scan_natText (n : Nat) {c : UInt8} (hc : closes c = true) (rest : Str) :
    scan .start (LuaNum.natText n ++ c :: rest) =
      (scan .start (c :: rest)).map (before [.num (numeral n)]) := by
  obtain ⟨-, hstart, hdigit, hdot⟩ := closes_spec hc
  obtain ⟨d, ds, hn, hd, hds⟩ := natText_cons n
  have hstep : step (.numeral (LuaNum.natText n)) c = emit (.num (numeral n)) c := by
    simp [step, hstart, hdigit, hdot, ofStr_natText]
  rw [hn] at hstep ⊢
  rw [List.cons_append, scan_quiet (step_digit hd), scan_numeral_digits hds,
    List.singleton_append, scan_emit hstep]

/-- An integer as tokens: there are no negative numerals. -/
def intTokens (i : Int) : List Token :=
  if i < 0 then [.sym 45, .num (numeral i.natAbs)] else [.num (numeral i.natAbs)]

/-- `%d` is undone by the lexer. -/
theorem scan_intText (i : Int) {c : UInt8} (hc : closes c = true) (rest : Str) :
    scan .start (LuaNum.intText i ++ c :: rest) =
      (scan .start (c :: rest)).map (before (intTokens i)) := by
  unfold LuaNum.intText intTokens
  split
  case isTrue =>
    obtain ⟨d, ds, hn, hd, hds⟩ := natText_cons i.natAbs
    have hminus : step .start 45 = some ([], .pending 45) := rfl
    have hstep : step (.pending 45) d = emit (.sym 45) d := by
      have hne : d ≠ 45 := by
        intro h
        rw [h] at hd
        exact absurd hd (by decide)
      simp [step, combines, hne]
    have hdigits := scan_natText i.natAbs hc rest
    rw [List.append_assoc]
    show scan .start (45 :: (LuaNum.natText i.natAbs ++ c :: rest)) = _
    rw [scan_quiet hminus]
    rw [hn, List.cons_append] at hdigits ⊢
    rw [scan_emit hstep, hdigits, Option.map_map, before_comp]
    rfl
  case isFalse => exact scan_natText i.natAbs hc rest

/-! ## Texts that end between two tokens -/

/-- The text is these tokens, whatever follows it. -/
def Reads (s : Str) (ts : List Token) : Prop :=
  ∀ rest, scan .start (s ++ rest) = (scan .start rest).map (before ts)

theorem reads_nil : Reads [] [] := by
  intro rest
  rw [List.nil_append, before_nil, Option.map_id, id]

theorem Reads.append {s t : Str} {ts ts' : List Token} (hs : Reads s ts) (ht : Reads t ts') :
    Reads (s ++ t) (ts ++ ts') := by
  intro rest
  rw [List.append_assoc, hs, ht, Option.map_map, before_comp]

theorem reads_of_scan {s : Str} {ts : List Token} (h : scan .start s = some (ts, .start)) :
    Reads s ts := fun rest => scan_of h rest

/-- A text that reads as some tokens is scanned to its end as these. -/
theorem Reads.scan {s : Str} {ts : List Token} (h : Reads s ts) :
    scan .start s = some (ts, .start) := by
  have hs := h []
  rw [List.append_nil] at hs
  rw [hs]
  show some (ts ++ [], Mode.start) = some (ts, Mode.start)
  rw [List.append_nil]

theorem Reads.lex {s : Str} {ts : List Token} (h : Reads s ts) : lex s = some ts := by
  unfold LuaSource.lex
  rw [h.scan]
  show some (ts ++ []) = some ts
  rw [List.append_nil]

theorem step_space {c : UInt8} (h : space c = true) : step .start c = some ([], .start) := by
  revert h
  exact forall_byte (p := fun c => space c = true → step .start c = some ([], .start))
    (by decide +kernel) c

/-- White space is no token. -/
theorem reads_spaces {s : Str} (h : ∀ c ∈ s, space c = true) : Reads s [] := by
  induction s with
  | nil => exact reads_nil
  | cons c s ih =>
      intro rest
      rw [List.cons_append, scan_quiet (step_space (h c (by simp)))]
      exact ih (fun d hd => h d (by simp [hd])) rest

/-- The end of a line. -/
theorem reads_lf : Reads [10] [] := reads_spaces (List.all_eq_true.mp (by decide))

theorem reads_quote (s : Str) : Reads (quote s) [.str s] := fun rest => scan_quote s rest

/-- A word in front of what closes it is one token more. -/
theorem Reads.word_append {s : Str} {c : UInt8} {t : Str} {ts : List Token}
    (h : Reads (c :: t) ts) (hs : word s = true) (hc : closes c = true) :
    Reads (s ++ c :: t) (nameToken s :: ts) := by
  intro rest
  have hrest := h rest
  rw [List.cons_append] at hrest
  rw [List.append_assoc, List.cons_append, scan_word hs hc, hrest, Option.map_map, before_comp]
  rfl

/-- So is an integer, with its sign as a token of its own. -/
theorem Reads.int_append {i : Int} {c : UInt8} {t : Str} {ts : List Token}
    (h : Reads (c :: t) ts) (hc : closes c = true) :
    Reads (LuaNum.intText i ++ c :: t) (intTokens i ++ ts) := by
  intro rest
  have hrest := h rest
  rw [List.cons_append] at hrest
  rw [List.append_assoc, List.cons_append, scan_intText i hc, hrest, Option.map_map, before_comp]

end LuadchAnnouncer.Verified.LuaLiteral
