import LuadchAnnouncer.Core.Net

/-!
# What a broken rule costs

The loop over `found` looks at the type of a rule's command and category, and
leaves a release alone when they are not strings.  Before it looks it appends the
alibi nick to the command, where the rule asks for that, and there the types have
an effect already: a number becomes a text, and anything else raises, in the
middle of the round.

`Isolated` is the round as it should be, for a notion of what a usable string is,
and `isolates_iff` says for which releases it is one.

## Main results

* `spoken_eq_textOf_iff`, `spoken_eq_strOf_iff` — a rule's command and category, before
  the types are looked at.
* `isolates_of_spoken`, `spoken_of_isolates` — from one release to the loop, and back.
* `isolates_iff` — the round as it should be.
-/

namespace LuadchAnnouncer.Core.NetRules

open LuadchAnnouncer.Verified.Bytes
open LuadchAnnouncer.Verified.LuaValue
open LuadchAnnouncer.Verified.Program
open LuadchAnnouncer.Core.Announce (Rule)
open LuadchAnnouncer.Core.Net

/-! ## The account of a round -/

/-- What an observer of the round sees of it: the frames that are sent, the releases that
are recorded, and the lines in the log. -/
inductive Happened where
  | sent (frame : Frame) (failure : Option Str)
  /-- `log.release( name )` -/
  | released (name : Str)
  | logged (buf : Str)
  deriving DecidableEq, Repr

def observe (s : List Happened) : (e : Eff) → Reply e → List Happened
  | .send frame, .ok () => s ++ [.sent frame none]
  | .send frame, .error err => s ++ [.sent frame (some err)]
  | .release name, _ => s ++ [.released name]
  | .event buf, _ => s ++ [.logged buf]
  | _, _ => s

/-- Any hub, any network, any file system. -/
abbrev Watched : List Happened → (e : Eff) → Reply e → List Happened → Prop :=
  Observed observe fun _ _ => True

def brokenRule (release : Str) : Str :=
  lit "Your rules.lua is broken. No valid category/command given for release '" ++ release ++
    lit "' given."

/-- What is to happen for a release, where these are the command and the category
of its rule, if it has them. -/
def said (sid release : Str) : Option (Str × Str) → List Happened
  | some (command, category) =>
      [.sent (.bmsg sid command category release) none, .released release]
  | none => [.logged (brokenRule release)]

def account (words : Rule → Option (Str × Str)) (sid : Str) (found : List (Str × Rule)) :
    List Happened :=
  found.flatMap fun e => said sid e.1 (words e.2)

/-- A round in which every release is announced whose rule has the words for it,
and no other, up to the first that cannot be sent. -/
def Isolated (words : Rule → Option (Str × Str)) (sid : Str) (found : List (Str × Rule)) :
    Outcome LuaError Bool Nat → List Happened → Prop
  | .ret c, s =>
      s = account words sid found ∧ c = found.countP fun e => (words e.2).isSome
  | .exit b, s =>
      b = false ∧ ∃ before entry after command category err,
        found = before ++ entry :: after ∧ words entry.2 = some (command, category) ∧
        s = account words sid before ++
          [.sent (.bmsg sid command category entry.1) (some err), .logged (lit "Fail: " ++ err)]
  | .raise _, _ => False
  | .running, _ => True

/-- Every round over these releases is one: whatever the hub and the network do, it has
done with each release what its own rule says, and nothing else. -/
def Isolates (words : Rule → Option (Str × Str)) (sid : Str) (found : List (Str × Rule)) : Prop :=
  Ensures Watched (found.foldlM (announceOne sid) 0) [] (AtEnd (Isolated words sid found))

/-! ## The words of a rule -/

/-- The command, with the alibi nick behind it if the rule asks for that, and the
category; `text` says which values the two halves of the command may be. -/
def wordsBy (text : LuaVal → Option Str) (cfg : Rule) : Option (Str × Str) :=
  match cfg.category with
  | .str category =>
      if cfg.alibicheck.truthy then
        match text cfg.command, text cfg.alibinick with
        | some command, some alibinick => some (command ++ lit " " ++ alibinick, category)
        | _, _ => none
      else
        match cfg.command with
        | .str command => some (command, category)
        | _ => none
  | _ => none

/-- A string. -/
def strOf : LuaVal → Option Str
  | .str s => some s
  | _ => none

/-- A string, or a number, which can be used as one. -/
def textOf : LuaVal → Option Str
  | .str s => some s
  | .num n => some n.tostring
  | _ => none

/-- The words the loop finds. -/
def spoken (cfg : Rule) : Except LuaError (Option (Str × Str)) :=
  (commandOf cfg).map fun command =>
    match cfg.category, command with
    | .str category, .str command => some (command, category)
    | _, _ => none

/-- What the loop does for a release. -/
def announceWords (sid release : Str) (c : Nat) :
    Except LuaError (Option (Str × Str)) → Act Nat
  | .error err => .raise err
  | .ok none => do
      log (brokenRule release)
      return c
  | .ok (some (command, category)) => do
      match ← send (.bmsg sid command category release) with
      | .error err =>
          log (lit "Fail: " ++ err)
          leave false
      | .ok () =>
          logRelease release
          return c + 1

/-- One turn of the announce loop is about the words that a rule gives, or about the error
their concatenation raises. -/
theorem announceOne_eq (sid release : Str) (c : Nat) (cfg : Rule) :
    announceOne sid c (release, cfg) = announceWords sid release c (spoken cfg) := by
  unfold announceOne spoken
  simp only
  cases commandOf cfg with
  | error err => rfl
  | ok command =>
      cases cfg.category with
      | str category =>
          cases command with
          | str command =>
              refine congrArg (Prog.perform _) (funext ?_)
              rintro (err | _)
              · rfl
              · rfl
          | _ => rfl
      | _ => rfl

/-! ## When they are the ones to be used -/

/-- The two halves of the command can be put together, where they have to be. -/
def Concatenates (cfg : Rule) : Prop :=
  cfg.alibicheck.truthy = false ∨
    (textOf cfg.command).isSome = true ∧ (textOf cfg.alibinick).isSome = true

/-- They are strings, or the category is not one and all that is asked of them is
that they do no harm. -/
def Typed (cfg : Rule) : Prop :=
  cfg.alibicheck.truthy = false ∨
    (strOf cfg.command).isSome = true ∧ (strOf cfg.alibinick).isSome = true ∨
    (textOf cfg.command).isSome = true ∧ (textOf cfg.alibinick).isSome = true ∧
      strOf cfg.category = none

theorem concatText_eq (v : LuaVal) :
    v.concatText = match textOf v with
      | some s => .ok s
      | none => .error .concat := by
  cases v with
  | _ => rfl

/-- Without the alibi nick the loop looks before it does anything. -/
theorem spoken_of_unchecked {cfg : Rule} (h : cfg.alibicheck.truthy = false)
    (text : LuaVal → Option Str) : spoken cfg = .ok (wordsBy text cfg) := by
  unfold spoken commandOf wordsBy
  rw [h]
  cases cfg.category with
  | str category =>
      cases cfg.command with
      | _ => rfl
  | _ => rfl

/-- With it the values have to be texts. -/
theorem spoken_of_checked {cfg : Rule} (h : cfg.alibicheck.truthy = true) {command nick : Str}
    (hcommand : textOf cfg.command = some command) (hnick : textOf cfg.alibinick = some nick) :
    spoken cfg = .ok (wordsBy textOf cfg) := by
  unfold spoken commandOf wordsBy
  rw [h, concatText_eq, concatText_eq, hcommand, hnick]
  cases cfg.category with
  | _ => rfl

/-- Where a rule has words, they have been concatenated. -/
theorem concatenates_of_spoken {cfg : Rule} {words : Option (Str × Str)}
    (h : spoken cfg = .ok words) : Concatenates cfg := by
  by_contra hnot
  unfold Concatenates at hnot
  rw [not_or, Bool.not_eq_false] at hnot
  unfold spoken commandOf at h
  rw [hnot.1, concatText_eq, concatText_eq] at h
  cases hcommand : textOf cfg.command with
  | none => rw [hcommand] at h; cases h
  | some command =>
      cases hnick : textOf cfg.alibinick with
      | none => rw [hcommand, hnick] at h; cases h
      | some nick => exact hnot.2 ⟨by rw [hcommand]; rfl, by rw [hnick]; rfl⟩

/-- The words of a rule, if a number may be used as a string. -/
theorem spoken_eq_textOf_iff {cfg : Rule} :
    spoken cfg = .ok (wordsBy textOf cfg) ↔ Concatenates cfg := by
  constructor
  · exact concatenates_of_spoken
  · rintro (hunchecked | ⟨hcommand, hnick⟩)
    · exact spoken_of_unchecked hunchecked textOf
    · by_cases hchecked : cfg.alibicheck.truthy = true
      · obtain ⟨command, hcommand⟩ := Option.isSome_iff_exists.mp hcommand
        obtain ⟨nick, hnick⟩ := Option.isSome_iff_exists.mp hnick
        exact spoken_of_checked hchecked hcommand hnick
      · rw [Bool.not_eq_true] at hchecked
        exact spoken_of_unchecked hchecked textOf

theorem textOf_of_strOf {v : LuaVal} {s : Str} (h : strOf v = some s) : textOf v = some s := by
  cases v with
  | str t => exact h
  | _ => cases h

/-- Two strings are the same words for both notions. -/
theorem wordsBy_of_strings {cfg : Rule} {command nick : Str}
    (hcommand : strOf cfg.command = some command) (hnick : strOf cfg.alibinick = some nick) :
    wordsBy textOf cfg = wordsBy strOf cfg := by
  unfold wordsBy
  rw [hcommand, hnick, textOf_of_strOf hcommand, textOf_of_strOf hnick]

theorem wordsBy_of_category {cfg : Rule} (h : strOf cfg.category = none)
    (text : LuaVal → Option Str) : wordsBy text cfg = none := by
  unfold wordsBy
  cases hcategory : cfg.category with
  | str category => rw [hcategory] at h; cases h
  | _ => rfl

/-- The two notions agree about a rule that asks for the alibi nick only if it has
two strings, or no category. -/
theorem strings_of_wordsBy {cfg : Rule} (hchecked : cfg.alibicheck.truthy = true)
    {command nick : Str} (hcommand : textOf cfg.command = some command)
    (hnick : textOf cfg.alibinick = some nick) (h : wordsBy textOf cfg = wordsBy strOf cfg) :
    (strOf cfg.command).isSome = true ∧ (strOf cfg.alibinick).isSome = true ∨
      strOf cfg.category = none := by
  unfold wordsBy at h
  rw [hchecked, hcommand, hnick] at h
  cases hcategory : cfg.category with
  | str category =>
      left
      cases hcommand' : strOf cfg.command with
      | none => rw [hcategory, hcommand'] at h; cases h
      | some command' =>
          cases hnick' : strOf cfg.alibinick with
          | none => rw [hcategory, hcommand', hnick'] at h; cases h
          | some nick' => exact ⟨rfl, rfl⟩
  | _ => exact Or.inr rfl

/-- The words of a rule, if only a string is one. -/
theorem spoken_eq_strOf_iff {cfg : Rule} :
    spoken cfg = .ok (wordsBy strOf cfg) ↔ Typed cfg := by
  constructor
  · intro h
    by_cases hchecked : cfg.alibicheck.truthy = true
    case neg =>
      rw [Bool.not_eq_true] at hchecked
      exact Or.inl hchecked
    case pos =>
      have hconcatenates := concatenates_of_spoken h
      rw [spoken_eq_textOf_iff.mpr hconcatenates, Except.ok.injEq] at h
      unfold Concatenates at hconcatenates
      rw [hchecked, Bool.true_eq_false, false_or] at hconcatenates
      obtain ⟨command, hcommand⟩ := Option.isSome_iff_exists.mp hconcatenates.1
      obtain ⟨nick, hnick⟩ := Option.isSome_iff_exists.mp hconcatenates.2
      right
      rcases strings_of_wordsBy hchecked hcommand hnick h with hstrings | hcategory
      · exact Or.inl hstrings
      · exact Or.inr ⟨hconcatenates.1, hconcatenates.2, hcategory⟩
  · rintro (hunchecked | ⟨hcommand, hnick⟩ | ⟨hcommand, hnick, hcategory⟩)
    · exact spoken_of_unchecked hunchecked strOf
    · obtain ⟨command, hcommand⟩ := Option.isSome_iff_exists.mp hcommand
      obtain ⟨nick, hnick⟩ := Option.isSome_iff_exists.mp hnick
      rw [← wordsBy_of_strings hcommand hnick]
      apply spoken_eq_textOf_iff.mpr
      right
      rw [textOf_of_strOf hcommand, textOf_of_strOf hnick]
      exact ⟨rfl, rfl⟩
    · rw [wordsBy_of_category hcategory, ← wordsBy_of_category hcategory textOf]
      exact spoken_eq_textOf_iff.mpr (Or.inr ⟨hcommand, hnick⟩)

/-! ## The loop -/

theorem account_cons (words : Rule → Option (Str × Str)) (sid : Str) (entry : Str × Rule)
    (rest : List (Str × Rule)) :
    account words sid (entry :: rest) =
      said sid entry.1 (words entry.2) ++ account words sid rest := List.flatMap_cons

theorem account_append (words : Rule → Option (Str × Str)) (sid : Str)
    (before : List (Str × Rule)) (entry : Str × Rule) :
    account words sid (before ++ [entry]) =
      account words sid before ++ said sid entry.1 (words entry.2) := by
  unfold account
  rw [List.flatMap_append, List.flatMap_singleton]

/-- What the loop has done when it comes to `rest`: the account of the releases before,
one after the other.  This is its invariant. -/
def Handled (words : Rule → Option (Str × Str)) (sid : Str) (found : List (Str × Rule))
    (rest : List (Str × Rule)) (c : Nat) (s : List Happened) : Prop :=
  ∃ before, found = before ++ rest ∧ s = account words sid before ∧
    c = before.countP fun e => (words e.2).isSome

/-- One release. -/
theorem stage_announceOne {words : Rule → Option (Str × Str)} {sid : Str}
    {found rest : List (Str × Rule)} {entry : Str × Rule} {c : Nat} {s : List Happened}
    (hwords : spoken entry.2 = .ok (words entry.2))
    (h : Handled words sid found (entry :: rest) c s) :
    Ensures Watched (announceOne sid c entry) s
      (Outcome.andThen (AtEnd (Isolated words sid found)) (Handled words sid found rest)) := by
  obtain ⟨before, hfound, hs, hc⟩ := h
  obtain ⟨release, cfg⟩ := entry
  rw [announceOne_eq, hwords]
  have hnext : found = (before ++ [(release, cfg)]) ++ rest := by
    rw [List.append_assoc]
    exact hfound
  cases hcfg : words cfg with
  | none =>
      refine observed_effect fun _ _ => observed_ret ⟨before ++ [(release, cfg)], hnext, ?_, ?_⟩
      · rw [account_append, hs, hcfg]
        rfl
      · rw [List.countP_append, hc]
        simp [hcfg]
  | some spoken =>
      obtain ⟨command, category⟩ := spoken
      refine observed_effect ?_
      rintro (err | _) -
      · refine observed_effect fun _ _ => observed_exit ⟨rfl, ?_⟩
        refine ⟨before, (release, cfg), rest, command, category, err, hfound, hcfg, ?_⟩
        rw [hs]
        simp [observe]
      · refine observed_effect fun _ _ =>
          observed_ret ⟨before ++ [(release, cfg)], hnext, ?_, ?_⟩
        · rw [account_append, hs, hcfg]
          simp [observe, said]
        · rw [List.countP_append, hc]
          simp [hcfg]

/-- Where every rule of a round has words of its own, each release is announced with the
words of its own rule. -/
theorem isolates_of_spoken {words : Rule → Option (Str × Str)} {sid : Str}
    {found : List (Str × Rule)} (h : ∀ e ∈ found, spoken e.2 = .ok (words e.2)) :
    Isolates words sid found := by
  have hstart : Handled words sid found found 0 [] := ⟨[], rfl, rfl, rfl⟩
  refine ensures_of_stage (ensures_stage_foldlM (I := Handled words sid found)
    (fun _ _ s _ => atEnd_running s) ?_ hstart) ?_
  · intro entry rest c s hhandled
    obtain ⟨before, hfound, -⟩ := id hhandled
    have hmem : entry ∈ found := by simp [hfound]
    exact stage_announceOne (h entry hmem) hhandled
  · rintro c s ⟨before, hfound, hs, hc⟩ -
    rw [List.append_nil] at hfound
    rw [hfound]
    exact ⟨hs, hc⟩

/-! ## A round without a failure -/

/-- Nothing fails, and there is nothing to be had. -/
def smooth : (e : Eff) → Reply e
  | .event _ => ()
  | .status _ _ => ()
  | .tcp => .ok ()
  | .settimeout _ => ()
  | .connect => .ok ()
  | .sleep _ => ()
  | .wrap => .ok ()
  | .dohandshake => .ok ()
  | .fingerprint => none
  | .send _ => .ok ()
  | .receive => .ok []
  | .close => ()
  | .info => none
  | .keepalive => ()
  | .gettime => 0
  | .update => .ok []
  | .release _ => ()

def script (s : List Happened) (e : Eff) : Option (Reply e × List Happened) :=
  some (smooth e, observe s e (smooth e))

/-- What the script answers is what a watcher of the frames and of the log sees. -/
theorem watched_script {s s' : List Happened} {e : Eff} {reply : Reply e}
    (h : script s e = some (reply, s')) : Watched s e reply s' := by
  unfold script at h
  injection h with h
  injection h with hreply hs
  rw [← hreply, ← hs]
  exact ⟨trivial, rfl⟩

/-- The words the loop finds, where it does not raise. -/
def spokenWords (cfg : Rule) : Option (Str × Str) :=
  match spoken cfg with
  | .ok words => words
  | .error _ => none

/-- Against a hub that takes everything, an announcement says its words and is logged. -/
theorem run_announceWords (sid release : Str) (c : Nat) (words : Option (Str × Str))
    (s : List Happened) :
    ∃ c', (announceWords sid release c (.ok words)).run script s =
      (.ret c', s ++ said sid release words) := by
  cases words with
  | none => exact ⟨c, rfl⟩
  | some spoken =>
      obtain ⟨command, category⟩ := spoken
      refine ⟨c + 1, ?_⟩
      show (Outcome.ret (c + 1), (s ++ [Happened.sent _ none]) ++ [Happened.released release]) = _
      rw [List.append_assoc]
      rfl

/-- The loop raises, or it has found words for every release. -/
theorem run_foldlM (sid : Str) (found : List (Str × Rule)) :
    ∀ (c : Nat) (s : List Happened),
      (∃ err s', (found.foldlM (announceOne sid) c).run script s = (.raise err, s')) ∨
      (∀ e ∈ found, spoken e.2 = .ok (spokenWords e.2)) ∧
        ∃ c', (found.foldlM (announceOne sid) c).run script s =
          (.ret c', s ++ account spokenWords sid found) := by
  induction found with
  | nil =>
      intro c s
      refine Or.inr ⟨fun e he => absurd he List.not_mem_nil, c, ?_⟩
      show (Outcome.ret c, s) = _
      rw [account, List.flatMap_nil, List.append_nil]
  | cons entry rest ih =>
      intro c s
      obtain ⟨release, cfg⟩ := entry
      rw [List.foldlM_cons, Prog.bind_eq, run_bind, announceOne_eq]
      cases hspoken : spoken cfg with
      | error err => exact Or.inl ⟨err, s, rfl⟩
      | ok words =>
          obtain ⟨c', hrun⟩ := run_announceWords sid release c words s
          rw [hrun]
          have hwords : spokenWords cfg = words := by
            unfold spokenWords
            rw [hspoken]
          rcases ih c' (s ++ said sid release words) with hraise | ⟨hrest, c'', hret⟩
          · exact Or.inl hraise
          · right
            constructor
            · intro e he
              rcases List.mem_cons.mp he with rfl | he
              · rw [hspoken, hwords]
              · exact hrest e he
            · refine ⟨c'', ?_⟩
              show (rest.foldlM (announceOne sid) c').run script _ = _
              rw [hret, List.append_assoc, account_cons, hwords]

/-! ## The law -/

/-- What has been said for one release determines the words it was said with. -/
theorem said_append_inj {sid release : Str} {words words' : Option (Str × Str)}
    {s s' : List Happened} (h : said sid release words ++ s = said sid release words' ++ s') :
    words = words' ∧ s = s' := by
  cases words with
  | none =>
      cases words' with
      | none =>
          rw [List.append_cancel_left_eq] at h
          exact ⟨rfl, h⟩
      | some spoken => cases h
  | some spoken =>
      cases words' with
      | none => cases h
      | some spoken' =>
          obtain ⟨command, category⟩ := spoken
          obtain ⟨command', category'⟩ := spoken'
          simp only [said, List.cons_append, List.nil_append, List.cons.injEq,
            Happened.sent.injEq, Frame.bmsg.injEq, true_and, and_true] at h
          obtain ⟨⟨rfl, rfl⟩, rfl⟩ := h
          exact ⟨rfl, rfl⟩

/-- An account tells the words of every release. -/
theorem account_inj {words words' : Rule → Option (Str × Str)} {sid : Str}
    {found : List (Str × Rule)} (h : account words sid found = account words' sid found) :
    ∀ e ∈ found, words e.2 = words' e.2 := by
  induction found with
  | nil => exact fun e he => absurd he List.not_mem_nil
  | cons entry rest ih =>
      rw [account_cons, account_cons] at h
      obtain ⟨hwords, hrest⟩ := said_append_inj h
      intro e he
      rcases List.mem_cons.mp he with rfl | he
      · exact hwords
      · exact ih hrest e he

/-- So the words of a round tell those of every rule in it. -/
theorem spoken_of_isolates {words : Rule → Option (Str × Str)} {sid : Str}
    {found : List (Str × Rule)} (h : Isolates words sid found) :
    ∀ e ∈ found, spoken e.2 = .ok (words e.2) := by
  have hexec := exec_run_view script id (fun _ _ _ _ => watched_script)
    (found.foldlM (announceOne sid) 0) []
  rcases run_foldlM sid found 0 [] with ⟨err, s', hraise⟩ | ⟨hspoken, c', hret⟩
  · rw [hraise] at hexec
    exact (h _ _ hexec (by simp)).elim
  · rw [hret] at hexec
    have hdone := h _ _ hexec (by simp)
    intro e he
    rw [hspoken e he, account_inj hdone.1 e he]

/-- **What a broken rule costs, exactly.**  In every order of the releases and
whatever sends fail, the loop announces those that have a command and a category
to be announced with, and skips the others: for words that are strings, if and
only if the rules are `Typed`; and for words that may be numbers, if and only if
what it has to put together can be. -/
theorem isolates_iff (sid : Str) (found : List (Str × Rule)) :
    (Isolates (wordsBy strOf) sid found ↔ ∀ e ∈ found, Typed e.2) ∧
    (Isolates (wordsBy textOf) sid found ↔ ∀ e ∈ found, Concatenates e.2) := by
  have hiff : ∀ words : Rule → Option (Str × Str),
      Isolates words sid found ↔ ∀ e ∈ found, spoken e.2 = .ok (words e.2) :=
    fun _ => ⟨spoken_of_isolates, isolates_of_spoken⟩
  constructor
  · rw [hiff]
    exact forall₂_congr fun e _ => spoken_eq_strOf_iff
  · rw [hiff]
    exact forall₂_congr fun e _ => spoken_eq_textOf_iff

/-- A rule that asks for an alibi nick it does not have. -/
def nickless : Rule :=
  { command := .str (lit "+announcerel"), category := .str (lit "TV"), alibicheck := .bool true }

/-- It takes the releases of the other rules with it. -/
theorem not_isolates_nickless :
    ¬ ∀ (sid : Str) (found : List (Str × Rule)),
      Isolates (wordsBy strOf) sid found ∨ Isolates (wordsBy textOf) sid found := by
  intro hall
  have hbroken : spoken nickless = .error .concat := rfl
  have hnot : ∀ words : Rule → Option (Str × Str),
      ¬ Isolates words (lit "AAAA") [(lit "Rel-A", nickless)] := by
    intro words h
    have hspoken := spoken_of_isolates h (lit "Rel-A", nickless) List.mem_cons_self
    rw [hbroken] at hspoken
    cases hspoken
  rcases hall (lit "AAAA") [(lit "Rel-A", nickless)] with h | h
  · exact hnot _ h
  · exact hnot _ h

end LuadchAnnouncer.Core.NetRules
