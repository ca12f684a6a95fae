import LuadchAnnouncer.Core.NetBmsg
import LuadchAnnouncer.Verified.LuaLiteral

/-!
# The frame that logs in

The login `BINF` is one line of words: its name, the SID, and parameters that are
each a name of two characters and a value.  Texts are escaped and numbers are
concatenated as they are, and that is the place where it matters that Lua has
two kinds of them: `%d` is what the hub reads, and a float is never written like
that.

`wellFormed_iff` says for which configurations the frame is what it should be.

## Main results

* `has_clientBinf_iff`, `has_number_iff` — the parameters of the frame and their values.
* `bshare_int_iff` — when the share is a number the hub can read.
* `wellFormed_iff` — the frame as a whole.
-/

namespace LuadchAnnouncer.Core.NetBinf

open LuadchAnnouncer.Verified.Bytes
open LuadchAnnouncer.Verified.LuaValue
open LuadchAnnouncer.Verified.LuaPattern (digit)
open LuadchAnnouncer.Verified.LuaLiteral (digit_natText natText_ne_nil)
open LuadchAnnouncer.Adclib
open LuadchAnnouncer.Core.Net
open LuadchAnnouncer.Core.NetBmsg (space Sid Whole)

/-! ## What the frame should be -/

/-- `-?[0-9]+`, the form in which a hub reads a number.  A float is written with a point
or an exponent, and is none. -/
def IsNumeral (s : Str) : Prop :=
  ∃ ds, ds ≠ [] ∧ (∀ c ∈ ds, digit c = true) ∧ (s = ds ∨ s = 45 :: ds)

/-- The words of the frame behind the SID. -/
def paramsOf (wire : Str) : List Str := (wire.dropLast.splitOn space).drop 2

def nameOf (param : Str) : Str := param.take 2

def valueOf (param : Str) : Str := param.drop 2

/-- There is a parameter of this name, and a value of this kind.  Names are the first two
characters of a word. -/
def Has (wire name : Str) (P : Str → Prop) : Prop :=
  ∃ param ∈ paramsOf wire, nameOf param = name ∧ P (valueOf param)

structure WellFormed (sid nick desc wire : Str) : Prop where
  one_lf : wire.count lf = 1
  lf_last : wire.getLast? = some lf
  words : wire.dropLast.splitOn space = lit "BINF" :: sid :: paramsOf wire
  named : ∀ param ∈ paramsOf wire, (nameOf param).length = 2
  once : ((paramsOf wire).map nameOf).Nodup
  nick : Has wire (lit "NI") fun value => unescape value = nick
  desc : Has wire (lit "DE") fun value => unescape value = desc
  share : Has wire (lit "SS") IsNumeral
  slots : Has wire (lit "SL") IsNumeral
  upload : Has wire (lit "US") IsNumeral

/-- `tonumber` has an integer for it, or nothing, in which case the default is taken.  A
text like `1.5` is what this leaves out. -/
def Integral (v : LuaVal) : Prop := ∀ n, v.tonumber = some n → ∃ i, n = .int i

/-- The texts of the configuration that are put into the frame unescaped are base32, as
`core/adc.lua` makes them. -/
structure Base32 (id : Id) : Prop where
  pid : ∀ c ∈ id.pid, base32Digit c = true
  cid : ∀ c ∈ id.cid, base32Digit c = true

/-! ## The text of a number -/

/-- A byte of a number. -/
def numberByte (c : UInt8) : Bool :=
  digit c || c == 43 || c == 45 || c == 46 || (97 ≤ c && c ≤ 122)

theorem numberByte_digit {c : UInt8} (h : digit c = true) : numberByte c = true := by
  simp [numberByte, h]

theorem numberByte_natText (n : Nat) : ∀ c ∈ LuaNum.natText n, numberByte c = true :=
  fun c hc => numberByte_digit (digit_natText n c hc)

theorem mem_of_mem_stripZeros {s : Str} {c : UInt8} (h : c ∈ LuaNum.stripZeros s) : c ∈ s := by
  unfold LuaNum.stripZeros at h
  rw [List.mem_reverse] at h
  exact List.mem_reverse.mp ((List.dropWhile_sublist _).subset h)

/-- The digits behind the point of a float, without the zeros at their end. -/
theorem numberByte_fraction {s : Str} (h : ∀ c ∈ s, numberByte c = true) :
    ∀ c ∈ LuaNum.fraction (LuaNum.stripZeros s), numberByte c = true := by
  intro c hc
  unfold LuaNum.fraction at hc
  split at hc
  case isTrue => exact absurd hc List.not_mem_nil
  case isFalse =>
    rcases List.mem_append.mp hc with hpoint | hc
    · have hall : ∀ d ∈ lit ".", numberByte d = true := List.all_eq_true.mp (by decide)
      exact hall c hpoint
    · exact h c (mem_of_mem_stripZeros hc)

/-- Texts of such bytes, one behind the other. -/
theorem numberByte_append {s t : Str} (hs : ∀ c ∈ s, numberByte c = true)
    (ht : ∀ c ∈ t, numberByte c = true) : ∀ c ∈ s ++ t, numberByte c = true := by
  intro c hc
  rcases List.mem_append.mp hc with hc | hc
  · exact hs c hc
  · exact ht c hc

/-- Seventeen digits with an exponent, or fewer without: in every case bytes of a number. -/
theorem numberByte_positiveText (q : Rat) : ∀ c ∈ LuaNum.positiveText q, numberByte c = true := by
  have htake : ∀ (n k : Nat), ∀ c ∈ (LuaNum.natText n).take k, numberByte c = true :=
    fun n k c hc => numberByte_natText n c (List.mem_of_mem_take hc)
  have hdrop : ∀ (n k : Nat), ∀ c ∈ (LuaNum.natText n).drop k, numberByte c = true :=
    fun n k c hc => numberByte_natText n c (List.mem_of_mem_drop hc)
  have hmark : ∀ c ∈ lit "e", numberByte c = true := List.all_eq_true.mp (by decide)
  have hminus : ∀ c ∈ lit "-", numberByte c = true := List.all_eq_true.mp (by decide)
  have hplus : ∀ c ∈ lit "+", numberByte c = true := List.all_eq_true.mp (by decide)
  have hzero : ∀ c ∈ lit "0", numberByte c = true := List.all_eq_true.mp (by decide)
  unfold LuaNum.positiveText
  generalize LuaNum.significant q = digits
  obtain ⟨d, x⟩ := digits
  simp only
  split
  · apply numberByte_append
    · apply numberByte_append
      · apply numberByte_append
        · exact numberByte_append (htake d 1) (numberByte_fraction (hdrop d 1))
        · exact hmark
      · split
        · exact hminus
        · exact hplus
    · split
      · exact numberByte_append hzero (numberByte_natText _)
      · exact numberByte_natText _
  · split
    · exact numberByte_append (htake d _) (numberByte_fraction (hdrop d _))
    · apply numberByte_append hzero
      apply numberByte_fraction
      apply numberByte_append
      · intro c hc
        rw [(List.mem_replicate.mp hc).2]
        decide
      · exact numberByte_natText d

/-- `%.14g` -/
def bareText (q : Rat) : Str :=
  if q = 0 then lit "0"
  else if q < 0 then lit "-" ++ LuaNum.positiveText (-q) else LuaNum.positiveText q

/-- What would read as an integer gets a point. -/
def pointed (s : Str) : Str := if s.all (fun c => digit c || c == 45) then s ++ lit ".0" else s

theorem floatText_eq (q : Rat) : LuaNum.floatText q = pointed (bareText q) := rfl

/-- And with the sign in front. -/
theorem numberByte_bareText (q : Rat) : ∀ c ∈ bareText q, numberByte c = true := by
  have hminus : ∀ c ∈ lit "-", numberByte c = true := List.all_eq_true.mp (by decide)
  unfold bareText
  split
  · exact List.all_eq_true.mp (by decide)
  · split
    · exact numberByte_append hminus (numberByte_positiveText _)
    · exact numberByte_positiveText _

/-- The text of any number has no byte in it that would end a word or a line. -/
theorem numberByte_tostring (n : LuaNum) : ∀ c ∈ n.tostring, numberByte c = true := by
  have hminus : ∀ c ∈ lit "-", numberByte c = true := List.all_eq_true.mp (by decide)
  cases n with
  | int i =>
      show ∀ c ∈ LuaNum.intText i, numberByte c = true
      unfold LuaNum.intText
      split
      · exact numberByte_append hminus (numberByte_natText _)
      · exact numberByte_natText _
  | flt q =>
      show ∀ c ∈ LuaNum.floatText q, numberByte c = true
      rw [floatText_eq]
      unfold pointed
      split
      · exact numberByte_append (numberByte_bareText q) (List.all_eq_true.mp (by decide))
      · exact numberByte_bareText q
  | inf negative =>
      cases negative with
      | true => exact List.all_eq_true.mp (by decide)
      | false => exact List.all_eq_true.mp (by decide)
  | nan => exact List.all_eq_true.mp (by decide)

/-- The text of a number ends no word and no line. -/
theorem notMem_tostring (n : LuaNum) : space ∉ n.tostring ∧ lf ∉ n.tostring := by
  constructor
  · intro hspace
    exact absurd (numberByte_tostring n space hspace) (by decide)
  · intro hlf
    exact absurd (numberByte_tostring n lf hlf) (by decide)

theorem isNumeral_intText (i : Int) : IsNumeral (LuaNum.intText i) := by
  refine ⟨LuaNum.natText i.natAbs, natText_ne_nil _, digit_natText _, ?_⟩
  unfold LuaNum.intText
  split
  · exact Or.inr rfl
  · exact Or.inl rfl

/-- A numeral has no byte but digits and the sign. -/
theorem IsNumeral.byte {s : Str} (h : IsNumeral s) :
    ∀ c ∈ s, (digit c || c == 45) = true := by
  obtain ⟨ds, -, hds, rfl | rfl⟩ := h
  · intro c hc
    rw [hds c hc]
    rfl
  · intro c hc
    rcases List.mem_cons.mp hc with rfl | hc
    · rfl
    · rw [hds c hc]
      rfl

/-- A float always has a byte that is no part of an integer. -/
theorem not_isNumeral_floatText (q : Rat) : ¬ IsNumeral (LuaNum.floatText q) := by
  intro h
  have hbytes := h.byte
  rw [floatText_eq] at hbytes
  unfold pointed at hbytes
  split at hbytes
  case isTrue =>
    have hpoint : (46 : UInt8) ∈ lit ".0" := by decide
    have hbyte := hbytes 46 (List.mem_append_right _ hpoint)
    exact absurd hbyte (by decide)
  case isFalse hnot => exact hnot (List.all_eq_true.mpr hbytes)

/-- The text of a number is a numeral exactly if the number is an integer: a float has a
point in it, an exponent, or is written as a word. -/
theorem isNumeral_tostring_iff {n : LuaNum} : IsNumeral n.tostring ↔ ∃ i, n = .int i := by
  constructor
  · intro h
    cases n with
    | int i => exact ⟨i, rfl⟩
    | flt q => exact absurd h (not_isNumeral_floatText q)
    | inf negative =>
        have hletter : (105 : UInt8) ∈ (LuaNum.inf negative).tostring := by
          cases negative with
          | true => decide
          | false => decide
        exact absurd (h.byte 105 hletter) (by decide)
    | nan =>
        have hletter : (97 : UInt8) ∈ LuaNum.nan.tostring := by decide
        exact absurd (h.byte 97 hletter) (by decide)
  · rintro ⟨i, rfl⟩
    exact isNumeral_intText i

theorem numberOr_int_iff {v : LuaVal} : (∃ i, v.numberOr 0 = .int i) ↔ Integral v := by
  unfold LuaVal.numberOr Integral
  cases v.tonumber with
  | none => simp
  | some n => simp

/-- Scaling leaves an integer an integer, and nothing else becomes one. -/
theorem scale_int_iff {n : LuaNum} {k : Nat} : (∃ i, n.scale k = .int i) ↔ ∃ i, n = .int i := by
  cases n with
  | int i => exact iff_of_true ⟨_, rfl⟩ ⟨i, rfl⟩
  | flt q =>
      apply iff_of_false
      · rintro ⟨i, hi⟩
        replace hi : LuaNum.float (q * k) = .int i := hi
        unfold LuaNum.float at hi
        split at hi
        · cases hi
        · split at hi
          · cases hi
          · cases hi
      · rintro ⟨i, hi⟩
        cases hi
  | inf negative =>
      apply iff_of_false
      · rintro ⟨i, hi⟩
        cases hi
      · rintro ⟨i, hi⟩
        cases hi
  | nan =>
      apply iff_of_false
      · rintro ⟨i, hi⟩
        cases hi
      · rintro ⟨i, hi⟩
        cases hi

/-! ## The words of the frame -/

/-- The parameters of `CLIENT_BINF`. -/
def params (settings : Settings) : List (Str × Str) :=
  [(lit "NI", escape settings.hub.nick),
    (lit "DE", escape settings.cfg.botdesc),
    (lit "AP", escape bottag),
    (lit "VE", escape version),
    (lit "PD", settings.id.pid),
    (lit "ID", settings.id.cid),
    (lit "SS", settings.bshare.tostring),
    (lit "SL", (settings.cfg.botslots.numberOr 0).tostring),
    (lit "US", (settings.cfg.botupload.numberOr 0).tostring),
    (lit "HN", lit "0"),
    (lit "HR", lit "0"),
    (lit "HO", lit "0"),
    (lit "AW", lit "2"),
    (lit "SU", lit "OSNR,ADC0,ADCS,TCP4,UDP4"),
    (lit "I4", lit "0.0.0.0")]

/-- The words of the frame. -/
def words (settings : Settings) (sid : Str) : List Str :=
  lit "BINF" :: sid :: (params settings).map fun p => p.1 ++ p.2

/-- Words with spaces between them: the first one, and each other one behind a space. -/
theorem intercalate_cons (w : Str) (ws : List Str) :
    [space].intercalate (w :: ws) = w ++ ws.flatMap fun v => space :: v := by
  induction ws generalizing w with
  | nil => simp [List.intercalate]
  | cons v ws ih =>
      have hcons : [space].intercalate (w :: v :: ws) =
          w ++ ([space] ++ [space].intercalate (v :: ws)) := by
        simp [List.intercalate]
      rw [hcons, ih, List.flatMap_cons]
      rfl

/-- The frame that is put together piece by piece is one line of words. -/
theorem clientBinf_eq (settings : Settings) (sid : Str) :
    clientBinf settings sid = [space].intercalate (words settings sid) ++ [lf] := by
  have hBINF : lit "BINF " = lit "BINF" ++ [space] := rfl
  have hNI : lit " NI" = space :: lit "NI" := rfl
  have hDE : lit " DE" = space :: lit "DE" := rfl
  have hAP : lit " AP" = space :: lit "AP" := rfl
  have hVE : lit " VE" = space :: lit "VE" := rfl
  have hPD : lit " PD" = space :: lit "PD" := rfl
  have hID : lit " ID" = space :: lit "ID" := rfl
  have hSS : lit " SS" = space :: lit "SS" := rfl
  have hSL : lit " SL" = space :: lit "SL" := rfl
  have hUS : lit " US" = space :: lit "US" := rfl
  have hHN : lit " HN" = space :: lit "HN" := rfl
  have hHR : lit " HR" = space :: lit "HR" := rfl
  have hHO : lit " HO" = space :: lit "HO" := rfl
  have hAW : lit " AW" = space :: lit "AW" := rfl
  have hSU : lit " SU" = space :: lit "SU" := rfl
  have hI4 : lit " I40.0.0.0\n" = space :: (lit "I4" ++ lit "0.0.0.0" ++ [lf]) := rfl
  unfold clientBinf words params
  rw [intercalate_cons, hBINF, hNI, hDE, hAP, hVE, hPD, hID, hSS, hSL, hUS, hHN, hHR, hHO, hAW, hSU,
    hI4]
  simp only [List.map_cons, List.map_nil, List.flatMap_cons, List.flatMap_nil, List.append_assoc,
    List.cons_append, List.nil_append, List.append_nil]

/-- Their names, in the order of the frame. -/
def names : List Str :=
  [lit "NI", lit "DE", lit "AP", lit "VE", lit "PD", lit "ID", lit "SS", lit "SL", lit "US",
    lit "HN", lit "HR", lit "HO", lit "AW", lit "SU", lit "I4"]

theorem map_params (settings : Settings) : (params settings).map (fun p => p.1) = names := rfl

theorem nodup_names : names.Nodup := by decide

theorem length_names : ∀ name ∈ names, name.length = 2 := by decide

/-- A text ends neither a word nor a line. -/
def Plain (s : Str) : Prop := space ∉ s ∧ lf ∉ s

instance (s : Str) : Decidable (Plain s) := by
  unfold Plain
  infer_instance

theorem Plain.append {s t : Str} (hs : Plain s) (ht : Plain t) : Plain (s ++ t) := by
  unfold Plain at hs ht ⊢
  rw [List.mem_append, List.mem_append, not_or, not_or]
  exact ⟨⟨hs.1, ht.1⟩, hs.2, ht.2⟩

theorem plain_escape (s : Str) : Plain (escape s) := ⟨space_notMem_escape s, lf_notMem_escape s⟩

theorem plain_base32 {s : Str} (h : ∀ c ∈ s, base32Digit c = true) : Plain s := by
  constructor
  · intro hspace
    exact absurd (h space hspace) (by decide)
  · intro hlf
    exact absurd (h lf hlf) (by decide)

theorem plain_names : ∀ name ∈ names, Plain name := by decide

/-- No value of a parameter has a space or a line feed in it: texts are escaped, ids are
base32, and numbers are numbers. -/
theorem plain_values {settings : Settings} (hid : Base32 settings.id) :
    ∀ p ∈ params settings, Plain p.2 := by
  have hconst : ∀ value ∈ [lit "0", lit "2", lit "OSNR,ADC0,ADCS,TCP4,UDP4", lit "0.0.0.0"],
      Plain value := by decide
  simp only [List.forall_mem_cons] at hconst
  obtain ⟨hzero, htwo, hsup, haddr, -⟩ := hconst
  unfold params
  simp only [List.forall_mem_cons]
  refine ⟨plain_escape _, plain_escape _, plain_escape _, plain_escape _, plain_base32 hid.pid,
    plain_base32 hid.cid, notMem_tostring _, notMem_tostring _, notMem_tostring _, hzero, hzero,
    hzero, htwo, hsup, haddr, ?_⟩
  exact fun p hp => absurd hp List.not_mem_nil

theorem mem_names {settings : Settings} {p : Str × Str} (hp : p ∈ params settings) :
    p.1 ∈ names := by
  rw [← map_params settings]
  exact List.mem_map_of_mem hp

/-- So no word has one. -/
theorem plain_words {settings : Settings} (hid : Base32 settings.id) (sid : Sid) :
    ∀ w ∈ words settings sid.chars, Plain w := by
  have hname : Plain (lit "BINF") := by decide
  unfold words
  intro w hw
  rcases List.mem_cons.mp hw with rfl | hw
  · exact hname
  · rcases List.mem_cons.mp hw with rfl | hw
    · exact ⟨sid.space_notMem, sid.lf_notMem⟩
    · obtain ⟨p, hp, rfl⟩ := List.mem_map.mp hw
      exact (plain_names p.1 (mem_names hp)).append (plain_values hid p hp)

/-- Split at spaces the frame gives its words back, so a hub reads what was put in. -/
theorem splitOn_clientBinf {settings : Settings} (hid : Base32 settings.id) (sid : Sid) :
    (clientBinf settings sid.chars).dropLast.splitOn space = words settings sid.chars := by
  rw [clientBinf_eq, List.dropLast_concat]
  apply List.splitOn_intercalate
  · exact fun w hw => (plain_words hid sid w hw).1
  · unfold words
    exact List.cons_ne_nil _ _

theorem paramsOf_clientBinf {settings : Settings} (hid : Base32 settings.id) (sid : Sid) :
    paramsOf (clientBinf settings sid.chars) = (params settings).map fun p => p.1 ++ p.2 := by
  unfold paramsOf
  rw [splitOn_clientBinf hid sid]
  rfl

theorem nameOf_param {settings : Settings} {p : Str × Str} (hp : p ∈ params settings) :
    nameOf (p.1 ++ p.2) = p.1 ∧ valueOf (p.1 ++ p.2) = p.2 := by
  have hlength := length_names p.1 (mem_names hp)
  unfold nameOf valueOf
  exact ⟨List.take_left' hlength, List.drop_left' hlength⟩

theorem map_nameOf_clientBinf {settings : Settings} (hid : Base32 settings.id) (sid : Sid) :
    (paramsOf (clientBinf settings sid.chars)).map nameOf = names := by
  rw [paramsOf_clientBinf hid sid, List.map_map, ← map_params settings]
  apply List.map_congr_left
  intro p hp
  exact (nameOf_param hp).1

theorem mem_params_nick (settings : Settings) :
    (lit "NI", escape settings.hub.nick) ∈ params settings := List.mem_cons_self

theorem mem_params_desc (settings : Settings) :
    (lit "DE", escape settings.cfg.botdesc) ∈ params settings :=
  List.mem_cons_of_mem _ List.mem_cons_self

/-- The value of a parameter. -/
theorem has_clientBinf_iff {settings : Settings} (hid : Base32 settings.id) (sid : Sid)
    {name value : Str} (hmem : (name, value) ∈ params settings) {P : Str → Prop} :
    Has (clientBinf settings sid.chars) name P ↔ P value := by
  unfold Has
  rw [paramsOf_clientBinf hid sid]
  constructor
  · rintro ⟨param, hparam, hname, hP⟩
    obtain ⟨p, hp, rfl⟩ := List.mem_map.mp hparam
    rw [(nameOf_param hp).1] at hname
    rw [(nameOf_param hp).2] at hP
    have hinj : ((params settings).map fun p => p.1).Nodup := by
      rw [map_params]
      exact nodup_names
    have hsame : p = (name, value) := List.inj_on_of_nodup_map hinj hp hmem hname
    rw [hsame] at hP
    exact hP
  · intro hP
    refine ⟨name ++ value, List.mem_map_of_mem hmem, ?_, ?_⟩
    · exact (nameOf_param hmem).1
    · rw [(nameOf_param hmem).2]
      exact hP

/-- There is one line feed in the frame, and it is its last byte. -/
theorem lf_clientBinf {settings : Settings} (hid : Base32 settings.id) (sid : Sid) :
    (clientBinf settings sid.chars).count lf = 1 ∧
      (clientBinf settings sid.chars).getLast? = some lf := by
  have hopen : lf ∉ [space].intercalate (words settings sid.chars) := by
    have hplain := plain_words hid sid
    unfold words at hplain ⊢
    rw [intercalate_cons, List.mem_append, List.mem_flatMap]
    rintro (hmem | ⟨w, hw, hmem⟩)
    · exact (hplain _ List.mem_cons_self).2 hmem
    · rcases List.mem_cons.mp hmem with heq | hmem
      · exact absurd heq (by decide)
      · exact (hplain w (List.mem_cons_of_mem _ hw)).2 hmem
  rw [clientBinf_eq]
  constructor
  · rw [List.count_append, List.count_eq_zero_of_not_mem hopen, List.count_singleton_self]
  · rw [List.getLast?_concat]

/-- A number that is concatenated as it is. -/
theorem has_number_iff {settings : Settings} (hid : Base32 settings.id) (sid : Sid)
    {name : Str} {n : LuaNum} (hmem : (name, n.tostring) ∈ params settings) :
    Has (clientBinf settings sid.chars) name IsNumeral ↔ ∃ i, n = .int i := by
  rw [has_clientBinf_iff hid sid hmem, isNumeral_tostring_iff]

theorem bshare_int_iff {settings : Settings} :
    (∃ i, settings.bshare = .int i) ↔ Integral settings.cfg.botshare := by
  unfold Settings.bshare
  rw [scale_int_iff, scale_int_iff, numberOr_int_iff]

/-- **The login frame, exactly.**  For every configuration it is a line of words,
with the texts in it that are configured; and the numbers in it are integers if
and only if the three settings are. -/
theorem wellFormed_iff (settings : Settings) (sid : Sid) (hid : Base32 settings.id)
    (hnick : Whole settings.hub.nick) (hdesc : Whole settings.cfg.botdesc) :
    WellFormed sid.chars settings.hub.nick settings.cfg.botdesc (clientBinf settings sid.chars) ↔
      Integral settings.cfg.botshare ∧ Integral settings.cfg.botslots ∧
        Integral settings.cfg.botupload := by
  have hshare : Has (clientBinf settings sid.chars) (lit "SS") IsNumeral ↔
      Integral settings.cfg.botshare := by
    rw [has_number_iff hid sid (n := settings.bshare) (by simp [params]), bshare_int_iff]
  have hslots : Has (clientBinf settings sid.chars) (lit "SL") IsNumeral ↔
      Integral settings.cfg.botslots := by
    rw [has_number_iff hid sid (n := settings.cfg.botslots.numberOr 0) (by simp [params]),
      numberOr_int_iff]
  have hupload : Has (clientBinf settings sid.chars) (lit "US") IsNumeral ↔
      Integral settings.cfg.botupload := by
    rw [has_number_iff hid sid (n := settings.cfg.botupload.numberOr 0) (by simp [params]),
      numberOr_int_iff]
  constructor
  · intro h
    exact ⟨hshare.mp h.share, hslots.mp h.slots, hupload.mp h.upload⟩
  · intro h
    constructor
    case one_lf => exact (lf_clientBinf hid sid).1
    case lf_last => exact (lf_clientBinf hid sid).2
    case words =>
      rw [splitOn_clientBinf hid sid, paramsOf_clientBinf hid sid]
      rfl
    case named =>
      intro param hparam
      rw [paramsOf_clientBinf hid sid] at hparam
      obtain ⟨p, hp, rfl⟩ := List.mem_map.mp hparam
      rw [(nameOf_param hp).1]
      exact length_names p.1 (mem_names hp)
    case once =>
      rw [map_nameOf_clientBinf hid sid]
      exact nodup_names
    case nick =>
      rw [has_clientBinf_iff hid sid (mem_params_nick settings)]
      exact unescape_escape hnick
    case desc =>
      rw [has_clientBinf_iff hid sid (mem_params_desc settings)]
      exact unescape_escape hdesc
    case share => exact hshare.mpr h.1
    case slots => exact hslots.mpr h.2.1
    case upload => exact hupload.mpr h.2.2

/-- A configuration, with what the frame reads of it. -/
def sample (botshare botslots botupload : LuaVal) : Settings where
  hub :=
    { addr := lit "127.0.0.1", keyp := [], name := lit "hub", nick := lit "Announcer", pass := [],
      port := lit "5001" }
  cfg :=
    { announceinterval := .num (.int 300), botdesc := lit "Luadch Announcer Client",
      botshare := botshare, botslots := botslots, botupload := botupload,
      sleeptime := .num (.int 10), sockettimeout := .int 60 }
  id := { pid := lit "PIDPID", cid := lit "CIDCID" }
  tiger := fun salt _ => salt

def sampleSid : Sid := ⟨lit "AAAA", by decide, by decide, by decide⟩

/-- The ids of the examples are base32. -/
theorem base32_sample (botshare botslots botupload : LuaVal) :
    Base32 (sample botshare botslots botupload).id := by
  constructor
  · show ∀ c ∈ lit "PIDPID", base32Digit c = true
    exact List.all_eq_true.mp (by decide)
  · show ∀ c ∈ lit "CIDCID", base32Digit c = true
    exact List.all_eq_true.mp (by decide)

theorem integral_int (i : Int) : Integral (.num (.int i)) := by
  intro n hn
  exact ⟨i, (Option.some.inj hn).symm⟩

theorem integral_nil : Integral .nil := by
  intro n hn
  cases hn

/-- With a share and an upload of integers and slots that are no number. -/
theorem wellFormed_default :
    WellFormed sampleSid.chars (lit "Announcer") (lit "Luadch Announcer Client")
      (clientBinf (sample (.num (.int 0)) (.str (lit "two")) .nil) sampleSid.chars) := by
  have hword : Integral (.str (lit "two")) := by
    intro n hn
    have hnone : (LuaVal.str (lit "two")).tonumber = none := by decide
    rw [hnone] at hn
    cases hn
  have hnick : Whole (lit "Announcer") := by
    unfold Whole
    decide
  have hdesc : Whole (lit "Luadch Announcer Client") := by
    unfold Whole
    decide
  exact (wellFormed_iff (sample (.num (.int 0)) (.str (lit "two")) .nil) sampleSid
    (base32_sample _ _ _) hnick hdesc).mpr ⟨integral_int 0, hword, integral_nil⟩

/-- Two and a half slots are sent as `SL2.5`. -/
theorem not_wellFormed_float :
    ¬ WellFormed sampleSid.chars (lit "Announcer") (lit "Luadch Announcer Client")
      (clientBinf (sample (.num (.int 0)) (.num (.flt (5 / 2))) .nil) sampleSid.chars) := by
  intro h
  have hslots := h.slots
  rw [has_number_iff (base32_sample _ _ _) sampleSid
    (n := .flt (5 / 2)) (by simp [params, sample, LuaVal.numberOr, LuaVal.tonumber])] at hslots
  obtain ⟨i, hi⟩ := hslots
  cases hi

end LuadchAnnouncer.Core.NetBinf
