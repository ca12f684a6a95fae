import Mathlib.Data.List.Basic

/-!
# Writing to a file

A program that writes a text piece by piece may raise between two pieces, and the
file may lose bytes of a piece, or of all of them when it is closed.  An `Output` is
what a program writes, with the error behind it if there is one; `text` forgets the
pieces.  A `Medium` says how much of each piece lands.

## Main results

* `text_seq` — a sequence of writes as a text, or an error.
* `landed_eq_iff` — what lands on a disk that may take less.
* `landed_sound` — nothing is lost on one that does not fail.
-/

namespace LuadchAnnouncer.Verified.Writing

/-- What is written, and the error that comes behind it. -/
structure Output (α ε : Type) where
  writes : List (List α)
  raised : Option ε

namespace Output

variable {α ε : Type}

def done : Output α ε := ⟨[], none⟩

def raise (e : ε) : Output α ε := ⟨[], some e⟩

def write (s : List α) : Output α ε := ⟨[s], none⟩

/-- One stream and then the other, if the first does not raise. -/
def andThen (s t : Output α ε) : Output α ε :=
  match s.raised with
  | some e => ⟨s.writes, some e⟩
  | none => ⟨s.writes ++ t.writes, t.raised⟩

def seq (ss : List (Output α ε)) : Output α ε := ss.foldr andThen done

/-- All of the text, or the error. -/
def text (s : Output α ε) : Except ε (List α) :=
  match s.raised with
  | some e => .error e
  | none => .ok s.writes.flatten

@[simp] theorem text_write (s : List α) : (write s : Output α ε).text = .ok s := by
  simp [text, write]

/-- Where both parts have a text, the whole has the two behind each other. -/
theorem text_andThen (s t : Output α ε) :
    (s.andThen t).text = s.text.bind fun x => t.text.bind fun y => .ok (x ++ y) := by
  unfold andThen text
  cases hs : s.raised with
  | some e => simp [Except.bind]
  | none =>
      cases ht : t.raised with
      | some e => simp [Except.bind]
      | none => simp [Except.bind]

/-- So it is with a list of parts. -/
theorem text_seq (ss : List (Output α ε)) :
    (seq ss).text = (ss.mapM text).bind fun xs => .ok xs.flatten := by
  induction ss with
  | nil => rfl
  | cons s ss ih =>
      show (s.andThen (seq ss)).text = _
      rw [text_andThen, ih, List.mapM_cons]
      cases s.text with
      | error e => rfl
      | ok x =>
          cases ss.mapM text with
          | error e => rfl
          | ok xs => rfl

theorem raised_andThen_iff {s t : Output α ε} :
    (s.andThen t).raised = none ↔ s.raised = none ∧ t.raised = none := by
  unfold andThen
  cases hs : s.raised with
  | some e => simp
  | none => simp

/-- Nothing is raised if no part raises. -/
theorem raised_seq_iff {ss : List (Output α ε)} :
    (seq ss).raised = none ↔ ∀ s ∈ ss, s.raised = none := by
  induction ss with
  | nil => exact iff_of_true rfl fun s hs => absurd hs List.not_mem_nil
  | cons s ss ih =>
      rw [List.forall_mem_cons, ← ih]
      exact raised_andThen_iff

theorem text_eq_ok {s : Output α ε} (h : s.raised = none) : s.text = .ok s.writes.flatten := by
  unfold text
  rw [h]

theorem text_eq_error {s : Output α ε} {e : ε} (h : s.raised = some e) : s.text = .error e := by
  unfold text
  rw [h]

end Output

/-- How many bytes land of each write that is cut short, and of the whole file if it
cannot be closed. -/
structure Medium where
  short : Nat → Option Nat
  close : Option Nat

namespace Medium

variable {α : Type}

/-- Nothing is lost. -/
def sound : Medium := ⟨fun _ => none, none⟩

def cut (n : Option Nat) (s : List α) : List α :=
  match n with
  | none => s
  | some n => s.take n

/-- What lands of the writes from this one on. -/
def landedFrom (m : Medium) : Nat → List (List α) → List α
  | _, [] => []
  | i, w :: ws => cut (m.short i) w ++ m.landedFrom (i + 1) ws

/-- What the file holds in the end. -/
def landed (m : Medium) (ws : List (List α)) : List α := cut m.close (m.landedFrom 0 ws)

/-- Nothing is lost of these writes. -/
def KeepsFrom (m : Medium) : Nat → List (List α) → Prop
  | _, [] => True
  | i, w :: ws => (∀ n, m.short i = some n → w.length ≤ n) ∧ m.KeepsFrom (i + 1) ws

def Keeps (m : Medium) (ws : List (List α)) : Prop :=
  m.KeepsFrom 0 ws ∧ ∀ n, m.close = some n → ws.flatten.length ≤ n

theorem length_cut_le (n : Option Nat) (s : List α) : (cut n s).length ≤ s.length := by
  cases n with
  | none => exact Nat.le_refl _
  | some n => exact List.length_take_le' n s

/-- A write that may be cut is whole where it fits. -/
theorem cut_eq_iff {n : Option Nat} {s : List α} :
    cut n s = s ↔ ∀ k, n = some k → s.length ≤ k := by
  cases n with
  | none => simp [cut]
  | some n =>
      show s.take n = s ↔ _
      constructor
      · intro h k hk
        have hlength := congrArg List.length h
        rw [List.length_take] at hlength
        obtain rfl : n = k := Option.some.inj hk
        omega
      · exact fun h => List.take_of_length_le (h n rfl)

/-- No more lands on a disk than is written. -/
theorem length_landedFrom_le (m : Medium) (i : Nat) (ws : List (List α)) :
    (m.landedFrom i ws).length ≤ ws.flatten.length := by
  induction ws generalizing i with
  | nil => exact Nat.le_refl _
  | cons w ws ih =>
      have hcut := length_cut_le (m.short i) w
      have hrest := ih (i + 1)
      rw [landedFrom, List.flatten_cons, List.length_append, List.length_append]
      omega

/-- A text that is not cut anywhere is there, and no other. -/
theorem landedFrom_eq_iff (m : Medium) (i : Nat) (ws : List (List α)) :
    m.landedFrom i ws = ws.flatten ↔ m.KeepsFrom i ws := by
  induction ws generalizing i with
  | nil => exact iff_of_true rfl trivial
  | cons w ws ih =>
      rw [landedFrom, KeepsFrom, ← ih, ← cut_eq_iff, List.flatten_cons]
      constructor
      · intro h
        have hlength := congrArg List.length h
        have hcut := length_cut_le (m.short i) w
        have hrest := m.length_landedFrom_le (i + 1) ws
        rw [List.length_append, List.length_append] at hlength
        exact List.append_inj h (by omega)
      · rintro ⟨hcut, hrest⟩
        rw [hcut, hrest]

/-- All of it lands exactly if nothing is lost at a write or at the close. -/
theorem landed_eq_iff (m : Medium) (ws : List (List α)) :
    m.landed ws = ws.flatten ↔ m.Keeps ws := by
  unfold landed Keeps
  rw [← landedFrom_eq_iff]
  constructor
  · intro h
    have hcut := length_cut_le m.close (m.landedFrom 0 ws)
    have hlanded := m.length_landedFrom_le 0 ws
    have hsame : cut m.close (m.landedFrom 0 ws) = m.landedFrom 0 ws := by
      apply cut_eq_iff.mpr
      intro n hn
      rw [hn] at h
      have hlength := congrArg List.length h
      rw [show cut (some n) (m.landedFrom 0 ws) = (m.landedFrom 0 ws).take n from rfl,
        List.length_take] at hlength
      omega
    rw [hsame] at h
    refine ⟨h, ?_⟩
    rw [h] at hsame
    exact cut_eq_iff.mp hsame
  · rintro ⟨h, hclose⟩
    rw [h]
    exact cut_eq_iff.mpr hclose

theorem keepsFrom_sound (i : Nat) (ws : List (List α)) : sound.KeepsFrom i ws := by
  induction ws generalizing i with
  | nil => trivial
  | cons w ws ih => exact ⟨fun n hn => absurd hn (by simp [sound]), ih (i + 1)⟩

@[simp] theorem landed_sound (ws : List (List α)) : sound.landed ws = ws.flatten :=
  (sound.landed_eq_iff ws).mpr ⟨keepsFrom_sound 0 ws, fun n hn => absurd hn (by simp [sound])⟩

end Medium

end LuadchAnnouncer.Verified.Writing
