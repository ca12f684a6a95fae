import LuadchAnnouncer.Frontends.ConfigTab

/-!
# The URL of a hub

`parse_address_input` takes what is typed into the address for a whole URL: a scheme, a host, a
port and, at the end, a keyprint.  This file is the patterns it does that with, and what they find.

## Main results

* `hostport_eq`, `host_eq` — the two patterns at the start: what stands before the first
  of their separators.
* `port_eq_some_iff`, `keyp_eq_some_iff` — the two at the end.
* `parseUrl_url` — a URL made of the four parts is taken apart into them.
-/

namespace LuadchAnnouncer.Frontends.HubUrl

open LuadchAnnouncer.Verified.Bytes
open LuadchAnnouncer.Verified.LuaPattern (Item digit noneOf char literal capture captures_start
  captures_behind behind behind_eq_some_iff matchAnchored matchHere findSome?_settled)
open LuadchAnnouncer.Verified.LuaLiteral
open LuadchAnnouncer.Verified
open LuadchAnnouncer.Frontends.ConfigTab (isNumber isNumber_iff)

/-! ## The patterns -/

/-- `[a-z0-9+]` -/
def schemeByte : LuaPattern.Class := fun c => (97 ≤ c && c ≤ 122) || digit c || c == 43

/-- `%w` -/
def alnum : LuaPattern.Class := fun c => (65 ≤ c && c ≤ 90) || (97 ≤ c && c ≤ 122) || digit c

/-- `url:match( "^([a-z0-9+]+://)" )` -/
def chunk (url : Str) : Option Str :=
  capture (matchAnchored [.openCapture, .plus schemeByte, .one (char ':'), .one (char '/'),
    .one (char '/'), .closeCapture] url)

/-- `url:match( "^([^/|?]+)" )` -/
def hostport (url : Str) : Option Str :=
  capture (matchAnchored [.openCapture, .plus (noneOf ['/', '|', '?']), .closeCapture] url)

/-- `hostport:match( "^([^:/]+)" )` -/
def host (hostport : Str) : Option Str :=
  capture (matchAnchored [.openCapture, .plus (noneOf [':', '/']), .closeCapture] hostport)

/-- `hostport:match( ":(%d+)$" )` -/
def port (hostport : Str) : Option Str :=
  capture (LuaPattern.match
    (literal [':'] ++ [.openCapture, .plus digit, .closeCapture, .atEnd]) hostport)

/-- `kp=SHA256/` -/
def keypName : List Char := ['k', 'p', '=', 'S', 'H', 'A', '2', '5', '6', '/']

/-- `url:match( "kp=SHA256/(%w+)$" )` -/
def keyp (url : Str) : Option Str :=
  capture (LuaPattern.match
    (literal keypName ++ [.openCapture, .plus alnum, .closeCapture, .atEnd]) url)

structure Parsed where
  host : Option Str
  port : Option Str
  keyp : Option Str
  deriving DecidableEq, Repr

/-- What `parse_address_input` finds in a text. -/
def parseUrl (value : Str) : Parsed :=
  let url := value.drop ((chunk value).elim 0 List.length)
  let hostport := hostport url
  { host := hostport.bind host
    port := hostport.bind port
    keyp := keyp (url.drop (hostport.elim 0 List.length)) }

/-! ## What they find -/

theorem hostport_eq (url : Str) : hostport url =
    if url.takeWhile (noneOf ['/', '|', '?']) = [] then none
    else some (url.takeWhile (noneOf ['/', '|', '?'])) :=
  (captures_start _ url).capture_eq

theorem host_eq (s : Str) : host s =
    if s.takeWhile (noneOf [':', '/']) = [] then none
    else some (s.takeWhile (noneOf [':', '/'])) :=
  (captures_start _ s).capture_eq

theorem port_eq_some_iff {s u : Str} :
    port s = some u ↔ u ≠ [] ∧ u.all digit = true ∧ lit ":" ++ u <:+ s := by
  rw [port, (captures_behind [':'] (by simp) digit s).capture_eq]
  have hiff : behind ([] ++ [58]) digit s = some u ↔
      u ≠ [] ∧ u.all digit = true ∧ [] ++ [58] ++ u <:+ s := behind_eq_some_iff (by decide)
  exact hiff

/-- A keyprint is found exactly at the end: letters and digits, with `kp=SHA256/` before
them. -/
theorem keyp_eq_some_iff {s u : Str} :
    keyp s = some u ↔ u ≠ [] ∧ u.all alnum = true ∧ lit "kp=SHA256/" ++ u <:+ s := by
  rw [keyp, (captures_behind keypName (by simp [keypName]) alnum s).capture_eq]
  have hiff : behind (lit "kp=SHA256" ++ [47]) alnum s = some u ↔
      u ≠ [] ∧ u.all alnum = true ∧ lit "kp=SHA256" ++ [47] ++ u <:+ s :=
    behind_eq_some_iff (by decide)
  exact hiff

/-- Where there is no colon there is no scheme. -/
theorem chunk_eq_none {s : Str} (h : 58 ∉ s) : chunk s = none := by
  rw [chunk, matchAnchored, matchHere]
  cases s with
  | nil => rfl
  | cons c s =>
      rw [matchHere]
      split
      case isFalse => rfl
      case isTrue =>
        have hnone : ∀ t : Str, 58 ∉ t → matchHere [.one (char ':'), .one (char '/'),
            .one (char '/'), .closeCapture] t (c :: s) [] = none := by
          intro t ht
          cases t with
          | nil => rfl
          | cons d t =>
              have hd : char ':' d = false := by
                rw [char, beq_eq_false_iff_ne]
                exact fun heq => ht (by rw [heq]; exact List.mem_cons_self)
              rw [matchHere, hd]
              rfl
        have hall : ((LuaPattern.stretches schemeByte s).reverse.findSome? fun t =>
            matchHere [.one (char ':'), .one (char '/'), .one (char '/'), .closeCapture] t
              (c :: s) []) = none := by
          rw [findSome?_settled]
          · apply hnone
            intro hmem
            exact h (List.mem_cons_of_mem c ((List.dropWhile_suffix schemeByte).subset hmem))
          · intro d t hd
            have hcolon : char ':' d = false := by
              rw [char, beq_eq_false_iff_ne]
              intro heq
              rw [heq] at hd
              revert hd
              decide
            rw [matchHere, hcolon]
            rfl
        rw [hall]
        rfl

/-- A scheme is found up to its slashes. -/
theorem chunk_scheme {scheme : Str} (hne : scheme ≠ []) (hscheme : scheme.all schemeByte = true)
    (rest : Str) : chunk (scheme ++ lit "://" ++ rest) = some (scheme ++ lit "://") := by
  obtain ⟨c, s, rfl⟩ := List.exists_cons_of_ne_nil hne
  rw [List.all_cons, Bool.and_eq_true] at hscheme
  have hdrop : (s ++ lit "://" ++ rest).dropWhile schemeByte = lit "://" ++ rest := by
    rw [List.append_assoc, List.dropWhile_append_of_pos (List.all_eq_true.mp hscheme.2)]
    rfl
  have htake : (c :: s ++ lit "://" ++ rest).take
      ((c :: s ++ lit "://" ++ rest).length - rest.length) = c :: s ++ lit "://" := by
    rw [List.length_append, Nat.add_sub_cancel, List.take_left]
  have hmatch : matchAnchored [.openCapture, .plus schemeByte, .one (char ':'), .one (char '/'),
      .one (char '/'), .closeCapture] (c :: s ++ lit "://" ++ rest) =
        some [c :: s ++ lit "://"] := by
    show (if schemeByte c = true then (LuaPattern.stretches schemeByte
      (s ++ lit "://" ++ rest)).reverse.findSome? _ else none) = _
    rw [if_pos hscheme.1]
    apply LuaPattern.findSome?_longest
    rw [hdrop]
    show some ([] ++ [(c :: s ++ lit "://" ++ rest).take
      ((c :: s ++ lit "://" ++ rest).length - rest.length)]) = _
    rw [htake, List.nil_append]
  rw [chunk, hmatch]
  rfl

/-- A name of a host: none of the separators of a URL is in it. -/
def IsHost (s : Str) : Prop := s ≠ [] ∧ ∀ c ∈ s, noneOf [':', '/', '|', '?'] c = true

theorem noneOf_host {c : UInt8} (h : noneOf [':', '/', '|', '?'] c = true) :
    noneOf ['/', '|', '?'] c = true ∧ noneOf [':', '/'] c = true := by
  simp only [noneOf, List.all_cons, Bool.and_eq_true] at h ⊢
  exact ⟨⟨h.2.1, h.2.2.1, h.2.2.2⟩, h.1, h.2.1, rfl⟩

theorem noneOf_digit : ∀ {c : UInt8}, digit c = true → noneOf ['/', '|', '?'] c = true := by
  intro c h
  have hall := forall_byte (p := fun c => digit c = true → noneOf ['/', '|', '?'] c = true)
    (by decide +kernel)
  exact hall c h

/-- **A whole URL is taken apart.** -/
theorem parseUrl_url {scheme name number print : Str} (hscheme : scheme ≠ [])
    (hall : scheme.all schemeByte = true) (hname : IsHost name) (hnumber : isNumber number = true)
    (hprint : print ≠ []) (halnum : print.all alnum = true) :
    parseUrl (scheme ++ lit "://" ++ (name ++ lit ":" ++ number ++ lit "/?kp=SHA256/" ++ print)) =
      { host := some name, port := some number, keyp := some print } := by
  obtain ⟨hdigits, hdigit⟩ := isNumber_iff.mp hnumber
  have hurl : (scheme ++ lit "://" ++ (name ++ lit ":" ++ number ++ lit "/?kp=SHA256/" ++
      print)).drop ((chunk (scheme ++ lit "://" ++ (name ++ lit ":" ++ number ++
        lit "/?kp=SHA256/" ++ print))).elim 0 List.length) =
      name ++ lit ":" ++ number ++ (lit "/?kp=SHA256/" ++ print) := by
    rw [chunk_scheme hscheme hall]
    show List.drop (scheme ++ lit "://").length _ = _
    rw [List.drop_left, List.append_assoc _ (lit "/?kp=SHA256/")]
  have htake : (name ++ lit ":" ++ number ++ (lit "/?kp=SHA256/" ++ print)).takeWhile
      (noneOf ['/', '|', '?']) = name ++ lit ":" ++ number := by
    rw [List.takeWhile_append_of_pos]
    · show name ++ lit ":" ++ number ++ [] = _
      rw [List.append_nil]
    · intro c hc
      simp only [List.mem_append] at hc
      rcases hc with (hc | hc) | hc
      · exact (noneOf_host (hname.2 c hc)).1
      · have hcolon : c = 58 := List.mem_singleton.mp hc
        rw [hcolon]
        decide
      · exact noneOf_digit (hdigit c hc)
  have hhostport : hostport (name ++ lit ":" ++ number ++ (lit "/?kp=SHA256/" ++ print)) =
      some (name ++ lit ":" ++ number) := by
    rw [hostport_eq, htake, if_neg]
    simp [hname.1]
  have hhost : host (name ++ lit ":" ++ number) = some name := by
    have hfirst : (name ++ lit ":" ++ number).takeWhile (noneOf [':', '/']) = name := by
      rw [List.append_assoc,
        List.takeWhile_append_of_pos fun c hc => (noneOf_host (hname.2 c hc)).2]
      show name ++ [] = name
      rw [List.append_nil]
    rw [host_eq, hfirst, if_neg hname.1]
  have hport : port (name ++ lit ":" ++ number) = some number := by
    rw [port_eq_some_iff, List.append_assoc]
    exact ⟨hdigits, List.all_eq_true.mpr hdigit, List.suffix_append _ _⟩
  have hkeyp : keyp (lit "/?kp=SHA256/" ++ print) = some print := by
    rw [keyp_eq_some_iff]
    refine ⟨hprint, halnum, lit "/?", ?_⟩
    rw [← List.append_assoc]
    rfl
  rw [parseUrl, hurl, hhostport]
  show Parsed.mk (host (name ++ lit ":" ++ number)) (port (name ++ lit ":" ++ number))
    (keyp (List.drop (name ++ lit ":" ++ number).length _)) = _
  rw [List.drop_left, hhost, hport, hkeyp]

/-- What is taken for the host is one, and a host is taken for nothing else. -/
theorem isHost_of_parseUrl {value name : Str} (h : (parseUrl value).host = some name) :
    IsHost name := by
  obtain ⟨text, htext, hname⟩ := Option.bind_eq_some_iff.mp h
  rw [hostport_eq] at htext
  rw [host_eq] at hname
  split at htext
  · cases htext
  · split at hname
    · cases hname
    · rename_i hne
      injection htext with htext
      injection hname with hname
      rw [← hname]
      refine ⟨hne, ?_⟩
      intro c hc
      have hfirst : noneOf [':', '/'] c = true := List.mem_takeWhile_imp hc
      have hsecond : noneOf ['/', '|', '?'] c = true := by
        have hmem : c ∈ text := (List.takeWhile_prefix _).subset hc
        rw [← htext] at hmem
        exact List.mem_takeWhile_imp hmem
      simp only [noneOf, List.all_cons, Bool.and_eq_true] at hfirst hsecond ⊢
      exact ⟨hfirst.1, hsecond.1, hsecond.2.1, hsecond.2.2.1, rfl⟩

/-- A host that is found is made of the bytes of the URL. -/
theorem subset_of_parseUrl {value name : Str} (h : (parseUrl value).host = some name) :
    name ⊆ value := by
  obtain ⟨text, htext, hname⟩ := Option.bind_eq_some_iff.mp h
  rw [hostport_eq] at htext
  rw [host_eq] at hname
  split at htext
  · cases htext
  · split at hname
    · cases hname
    · injection htext with htext
      injection hname with hname
      intro c hc
      rw [← hname] at hc
      have hmem : c ∈ text := (List.takeWhile_prefix _).subset hc
      rw [← htext] at hmem
      exact (List.drop_suffix _ _).subset ((List.takeWhile_prefix _).subset hmem)

/-- A host alone is its own host. -/
theorem parseUrl_host {name : Str} (h : IsHost name) : (parseUrl name).host = some name := by
  have hcolon : 58 ∉ name := by
    intro hmem
    have hc := h.2 58 hmem
    revert hc
    decide
  have htake : name.takeWhile (noneOf ['/', '|', '?']) = name :=
    List.takeWhile_eq_self_iff.mpr fun c hc => (noneOf_host (h.2 c hc)).1
  have hfirst : name.takeWhile (noneOf [':', '/']) = name :=
    List.takeWhile_eq_self_iff.mpr fun c hc => (noneOf_host (h.2 c hc)).2
  have hhost : host name = some name := by rw [host_eq, hfirst, if_neg h.1]
  rw [parseUrl, chunk_eq_none hcolon]
  show (hostport name).bind host = some name
  rw [hostport_eq, htake, if_neg h.1]
  exact hhost

/-- What is taken for a port is a number. -/
theorem isNumber_of_parseUrl {value number : Str} (h : (parseUrl value).port = some number) :
    isNumber number = true := by
  obtain ⟨text, -, hnumber⟩ := Option.bind_eq_some_iff.mp h
  obtain ⟨hne, hall, -⟩ := port_eq_some_iff.mp hnumber
  exact isNumber_iff.mpr ⟨hne, List.all_eq_true.mp hall⟩

end LuadchAnnouncer.Frontends.HubUrl
