import LuadchAnnouncer.Core.Net

/-!
# The frames that announce

An announcement goes out as one `BMSG` frame.  Its last parameter is an escaped
text, so whatever a directory may be called, the frame stays one line of three
words, and the hub gets back from it the words that were put in.
-/

namespace LuadchAnnouncer.Core.NetBmsg

open LuadchAnnouncer.Verified.Bytes
open LuadchAnnouncer.Verified.LuaValue
open LuadchAnnouncer.Verified.Program
open LuadchAnnouncer.Adclib
open LuadchAnnouncer.Core.Announce (Rule)
open LuadchAnnouncer.Core.Net

def space : UInt8 := 32

/-- A session id, as a hub gives it. -/
structure Sid where
  chars : Str
  length_eq : chars.length = 4
  space_notMem : space ∉ chars
  lf_notMem : lf ∉ chars

/-- A text that survives being passed as a C string: `escape` is a function in C++ that
reads up to the first zero byte. -/
def Whole (s : Str) : Prop := 0 ∉ s

/-- A release and the rule it was found under, when all of what is said about
it is text. -/
structure Announcement where
  release : Str
  cfg : Rule
  command : Str
  alibinick : Str
  category : Str
  command_eq : cfg.command = .str command
  alibinick_eq : cfg.alibinick = .str alibinick
  category_eq : cfg.category = .str category
  whole_release : Whole release
  whole_command : Whole command
  whole_alibinick : Whole alibinick
  whole_category : Whole category

namespace Announcement

/-- The words of an announcement, in their order. -/
def words (a : Announcement) : List Str :=
  a.command :: ((if a.cfg.alibicheck.truthy then [a.alibinick] else []) ++
    [a.category, a.release])

/-- What the hub is to read. -/
def text (a : Announcement) : Str := [space].intercalate a.words

/-- The command as it is sent. -/
def spoken (a : Announcement) : Str :=
  if a.cfg.alibicheck.truthy then a.command ++ lit " " ++ a.alibinick else a.command

def frame (a : Announcement) (sid : Sid) : Frame :=
  .bmsg sid.chars a.spoken a.category a.release

theorem commandOf_eq (a : Announcement) : commandOf a.cfg = .ok (.str a.spoken) := by
  unfold commandOf spoken
  rw [a.command_eq, a.alibinick_eq]
  split
  · rfl
  · rfl

/-- The text of the announcement, in the pieces in which the source concatenates it. -/
theorem spoken_append (a : Announcement) :
    a.spoken ++ lit " " ++ a.category ++ lit " " ++ a.release = a.text := by
  have hspace : lit " " = [space] := rfl
  unfold spoken text words
  rw [hspace]
  split
  · simp
  · simp

/-- A category without a space is one word of the text. -/
theorem splitOn_text (a : Announcement) (h : space ∉ a.category) :
    a.text.splitOn space = a.spoken.splitOn space ++ a.category :: a.release.splitOn space := by
  have hwords : a.text = a.spoken ++ space :: (a.category ++ space :: a.release) := by
    rw [← a.spoken_append]
    simp [lit, space]
  rw [hwords, List.splitOn_append_cons_self, List.splitOn_append_cons_self_of_not_mem h]

/-- Such a text has no zero byte in it, so `escape` takes the whole of it. -/
theorem whole_text (a : Announcement) : Whole a.text := by
  have hcommand := a.whole_command
  have halibinick := a.whole_alibinick
  have hcategory := a.whole_category
  have hrelease := a.whole_release
  unfold Whole at hcommand halibinick hcategory hrelease ⊢
  rw [← a.spoken_append]
  have hspace : 0 ∉ lit " " := by decide
  have hspoken : 0 ∉ a.spoken := by
    unfold spoken
    split
    · simp [hcommand, halibinick, hspace]
    · exact hcommand
  simp [hspoken, hcategory, hrelease, hspace]

/-- The frame that goes out for an announcement. -/
theorem wire_frame (a : Announcement) (sid : Sid) (settings : Settings) :
    (a.frame sid).wire settings =
      lit "BMSG" ++ space :: (sid.chars ++ space :: (escape a.text ++ [lf])) := by
  show lit "BMSG " ++ sid.chars ++ lit " " ++
    escape (a.spoken ++ lit " " ++ a.category ++ lit " " ++ a.release) ++ lit "\n" = _
  rw [a.spoken_append]
  simp [lit, space, lf]

end Announcement

/-- The frame is one line of three words, the last of which says `text`. -/
structure Says (sid text wire : Str) : Prop where
  one_lf : wire.count lf = 1
  lf_last : wire.getLast? = some lf
  words : ∃ word, wire.dropLast.splitOn space = [lit "BMSG", sid, word] ∧ unescape word = text

/-- A hub that reads the frame, unescapes it and looks for the words finds those of the
announcement. -/
theorem says_frame (settings : Settings) (sid : Sid) (a : Announcement) :
    Says sid.chars a.text ((a.frame sid).wire settings) := by
  have hline : (a.frame sid).wire settings =
      (lit "BMSG" ++ space :: (sid.chars ++ space :: escape a.text)) ++ [lf] := by
    rw [a.wire_frame sid settings]
    simp
  have hopen : lf ∉ lit "BMSG" ++ space :: (sid.chars ++ space :: escape a.text) := by
    have hbmsg : lf ∉ lit "BMSG" ++ [space] := by decide
    have hword : lf ∉ escape a.text := lf_notMem_escape a.text
    have hsep : lf ≠ space := by decide
    simp only [List.mem_append, List.mem_cons, not_or, List.not_mem_nil] at hbmsg ⊢
    exact ⟨hbmsg.1, hsep, sid.lf_notMem, hsep, hword⟩
  constructor
  · rw [hline, List.count_append, List.count_eq_zero_of_not_mem hopen, List.count_singleton_self]
  · rw [hline, List.getLast?_concat]
  · have hword : space ∉ escape a.text := space_notMem_escape a.text
    refine ⟨escape a.text, ?_, unescape_escape a.whole_text⟩
    rw [hline, List.dropLast_concat,
      List.splitOn_append_cons_self_of_not_mem (by decide),
      List.splitOn_append_cons_self_of_not_mem sid.space_notMem,
      List.splitOn_eq_singleton hword]

/-- A frame says one text only. -/
theorem says_unique {sid sid' text text' wire : Str} (h : Says sid text wire)
    (h' : Says sid' text' wire) : text = text' := by
  obtain ⟨word, hwords, htext⟩ := h.words
  obtain ⟨word', hwords', htext'⟩ := h'.words
  rw [hwords] at hwords'
  have hword : word = word' := by simpa using (List.cons.inj (List.cons.inj hwords').2).2
  rw [← htext, ← htext', hword]

/-- Not a send. -/
def Mute (e : Eff) : Prop := ∀ frame, e ≠ .send frame

/-- What the loop does when a frame is on its way. -/
def afterSend (c : Nat) (release : Str) : Except Str Unit → Act Nat
  | .error err => do
      log (lit "Fail: " ++ err)
      leave false
  | .ok () => do
      logRelease release
      return c + 1

theorem mute_afterSend (c : Nat) (release : Str) (reply : Except Str Unit) :
    (afterSend c release reply).Uses Mute := by
  cases reply with
  | error err => exact ⟨by simp [Mute], fun _ => trivial⟩
  | ok _ => exact ⟨by simp [Mute], fun _ => trivial⟩

/-- One turn of the announce loop sends this frame and does the rest behind it. -/
theorem announceOne_eq (sid : Sid) (c : Nat) (a : Announcement) :
    announceOne sid.chars c (a.release, a.cfg) =
      .perform (.send (a.frame sid)) (afterSend c a.release) := by
  unfold announceOne
  simp only
  rw [a.commandOf_eq, a.category_eq]
  refine congrArg (Prog.perform _) (funext ?_)
  rintro (err | _)
  · rfl
  · rfl

/-- **Announcements arrive as they are.**  The loop over `found` sends one
frame for a release; it is one line, of the three words `BMSG`, the SID and a
text, and unescaping the text gives back the words of the announcement; so two
announcements that differ in their words differ in their frames. -/
theorem announceOne_says (settings : Settings) (sid : Sid) (c : Nat) (a : Announcement) :
    (∃ next, announceOne sid.chars c (a.release, a.cfg) = .perform (.send (a.frame sid)) next ∧
      ∀ reply, (next reply).Uses Mute) ∧
    Says sid.chars a.text ((a.frame sid).wire settings) ∧
    ∀ (sid' : Sid) (a' : Announcement),
      (a'.frame sid').wire settings = (a.frame sid).wire settings → a'.text = a.text := by
  refine ⟨⟨_, announceOne_eq sid c a, mute_afterSend c a.release⟩, says_frame settings sid a, ?_⟩
  intro sid' a' hsame
  have hsays' : Says sid'.chars a'.text ((a.frame sid).wire settings) := by
    rw [← hsame]
    exact says_frame settings sid' a'
  exact says_unique hsays' (says_frame settings sid a)

end LuadchAnnouncer.Core.NetBmsg
