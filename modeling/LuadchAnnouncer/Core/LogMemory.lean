import LuadchAnnouncer.Core.Log

/-!
# The announced names across a restart

`announced.txt` is the encoding of the table `releases`: one name a line,
appended, and read back by a line iterator when the next process starts.
Neither direction escapes anything, so the encoding is faithful only for names
without a line feed and only when the write starts a line of its own.  The
second condition concerns the very first write of a process: a file whose last
line was cut off swallows the name that is appended to it.

`release_remembers_iff` is the exact step, `releaseAll_remembers_iff` the exact
statement about a whole run.

## Main results

* `lines_append_eq_insert_iff` — when appending a record adds one line and no other.
* `release_remembers_iff` — one call.
* `releaseAll_returns_iff`, `releaseAll_remembers_iff` — a whole run.
-/

namespace LuadchAnnouncer.Core.LogMemory

open LuadchAnnouncer.Verified.Bytes
open LuadchAnnouncer.Verified.LuaValue
open LuadchAnnouncer.Core.Log

/-- A name a directory can hold: the two bytes a file system keeps for itself are not in
it, and any other may be, a line feed among them. -/
structure EntryName where
  bytes : Str
  nonempty : bytes ≠ []
  noSlash : (47 : UInt8) ∉ bytes
  noNul : (0 : UInt8) ∉ bytes

/-- One call `log.release( name )`, with the time stamp its marker would get. -/
structure Call where
  timestamp : Str
  name : EntryName

/-- A sequence of calls, up to the first that raises. -/
def releaseAll (st : LogState) (calls : List Call) : Except LuaError LogState :=
  calls.foldlM (fun st c => st.release c.timestamp c.name.bytes) st

/-- The lines of `announced.txt` are exactly the names in `releases`, so a process that
starts on the file knows what this one does. -/
def Remembers (st : LogState) : Prop :=
  ∃ content, st.announced = .linked content ∧ (lines content).toFinset = st.releases

/-- A process that starts on the files left behind holds the same names, as
long as `announced.txt` is not over the limit it is truncated at. -/
def Reloads (st : LogState) : Prop :=
  ∀ content logfile, st.announced = .linked content →
    (content.length : Int) ≤ st.maxlogsize →
      (load st.maxlogsize logfile (some content)).releases = st.releases

/-- What is in memory is what a new start would read: each name that is a whole line. -/
theorem Remembers.reloads {st : LogState} (h : Remembers st) : Reloads st := by
  intro content logfile hlink hsize
  obtain ⟨content', hlink', hlines⟩ := h
  rw [hlink] at hlink'
  injection hlink' with heq
  subst heq
  have hkeep : preRotate st.maxlogsize (some content) = some content := by
    simp [preRotate, Int.not_lt.mpr hsize]
  simp only [load, hkeep, Option.getD_some]
  exact hlines

/-! ## One call -/

/-- Appending `name` to `content` adds just the line `name`: either a new line
starts there, or the rest it is glued to, the name and the glued line are all
in the file already. -/
def StartsLine (content name : Str) : Prop :=
  Terminated content ∨
    ∃ init rest, content = init ++ rest ∧ Terminated init ∧ lf ∉ rest ∧ rest ≠ [] ∧
      name ∈ lines init ∧ rest ∈ lines init ∧ rest ++ name ∈ lines init

/-- The lines after an append when the last line was left open. -/
private theorem lines_glued {init rest name : Str} (hinit : Terminated init)
    (hrest : lf ∉ rest) (hname : lf ∉ name) :
    lines (init ++ rest ++ (name ++ [lf])) = lines init ++ [rest ++ name] := by
  have hglue : lf ∉ rest ++ name := by simp [hrest, hname]
  rw [List.append_assoc, ← List.append_assoc rest, lines_append_line init _ hinit hglue]

/-- Exchanging the open line `rest` for `rest ++ name` adds just `name` only
if nothing changes at all. -/
theorem glued_eq_insert_iff {old : List Str} {rest name : Str} (hopen : rest ≠ [])
    (hne : name ≠ []) :
    (old ++ [rest ++ name]).toFinset = insert name (old ++ [rest]).toFinset ↔
      name ∈ old ∧ rest ∈ old ∧ rest ++ name ∈ old := by
  have hne_name : rest ++ name ≠ name := by
    intro h
    exact hopen (List.append_left_eq_self.mp h)
  have hne_rest : rest ++ name ≠ rest := by
    intro h
    exact hne (List.append_right_eq_self.mp h)
  have hext : (old ++ [rest ++ name]).toFinset = insert name (old ++ [rest]).toFinset ↔
      ∀ l, (l ∈ old ∨ l = rest ++ name) ↔ (l = name ∨ l ∈ old ∨ l = rest) := by
    simp only [Finset.ext_iff, List.mem_toFinset, Finset.mem_insert, List.mem_append,
      List.mem_singleton]
  rw [hext]
  constructor
  · intro hmem
    have h1 := (hmem name).mpr (Or.inl rfl)
    have h2 := (hmem rest).mpr (Or.inr (Or.inr rfl))
    have h3 := (hmem (rest ++ name)).mp (Or.inr rfl)
    exact ⟨h1.resolve_right (Ne.symm hne_name), h2.resolve_right (Ne.symm hne_rest),
      (h3.resolve_left hne_name).resolve_right hne_rest⟩
  · rintro ⟨h1, h2, h3⟩ l
    constructor
    · rintro (h | rfl)
      · exact Or.inr (Or.inl h)
      · exact Or.inr (Or.inl h3)
    · rintro (rfl | h | rfl)
      · exact Or.inl h1
      · exact Or.inl h
      · exact Or.inl h2

/-- There is one way only to cut an open line off a text. -/
theorem startsLine_open_iff {init rest name : Str} (hinit : Terminated init)
    (hrest : lf ∉ rest) (hopen : rest ≠ []) :
    StartsLine (init ++ rest) name ↔
      name ∈ lines init ∧ rest ∈ lines init ∧ rest ++ name ∈ lines init := by
  constructor
  · rintro (hterm | ⟨init', rest', heq, hinit', hrest', hopen', h⟩)
    · exfalso
      have hlast : (init ++ rest).getLast? = some lf := by
        rcases hterm with hnil | hlast
        · exact absurd (List.append_eq_nil_iff.mp hnil).2 hopen
        · exact hlast
      rw [List.getLast?_append_of_ne_nil _ hopen] at hlast
      exact hrest (List.mem_of_getLast? hlast)
    · have hsame := congrArg lines heq
      rw [lines_append_open init rest hinit hrest hopen,
        lines_append_open init' rest' hinit' hrest' hopen'] at hsame
      obtain ⟨hinits, hrests⟩ := List.append_inj' hsame rfl
      rw [List.singleton_inj] at hrests
      subst hrests
      rwa [hinits]
  · intro h
    exact Or.inr ⟨init, rest, rfl, hinit, hrest, hopen, h⟩

/-- Set equality of the two texts is what `StartsLine` says. -/
theorem lines_append_eq_insert_iff (content name : Str) (hname : lf ∉ name)
    (hne : name ≠ []) :
    (lines (content ++ (name ++ [lf]))).toFinset = insert name (lines content).toFinset ↔
      StartsLine content name := by
  obtain ⟨init, rest, rfl, hinit, hrest⟩ := exists_terminated_append content
  by_cases hopen : rest = []
  · subst hopen
    rw [List.append_nil, lines_append_line init name hinit hname]
    have hstart : StartsLine init name := Or.inl hinit
    have hset : (lines init ++ [name]).toFinset = insert name (lines init).toFinset := by
      ext l
      simp only [List.mem_toFinset, List.mem_append, List.mem_singleton, Finset.mem_insert]
      exact or_comm
    exact iff_of_true hset hstart
  · rw [lines_glued hinit hrest hname, lines_append_open init rest hinit hrest hopen]
    rw [glued_eq_insert_iff hopen hne, startsLine_open_iff hinit hrest hopen]

/-- **One call, exactly.**  From a state whose file and table agree, they
agree after the call iff the name has no line feed and, unless the file was
truncated for it, the append starts a line. -/
theorem release_remembers_iff {st st' : LogState} {timestamp content : Str}
    {name : EntryName} (hlink : st.announced = .linked content)
    (hlines : (lines content).toFinset = st.releases)
    (h : st.release timestamp name.bytes = .ok st') :
    Remembers st' ↔
      lf ∉ name.bytes ∧ (st.Rotates content ∨ StartsLine content name.bytes) := by
  obtain ⟨hfile, hrel, -⟩ := LogState.release_linked hlink h
  by_cases hname : lf ∈ name.bytes
  · constructor
    · rintro ⟨content', hlink', hset⟩
      have hmem : name.bytes ∈ st'.releases := by rw [hrel]; simp
      rw [← hset, List.mem_toFinset] at hmem
      exact absurd hname (lf_notMem_of_mem_lines _ _ hmem)
    · intro hcond
      exact absurd hname hcond.1
  · have hfresh := lines_append_eq_insert_iff [] name.bytes hname name.nonempty
    have hgrown := lines_append_eq_insert_iff content name.bytes hname name.nonempty
    by_cases hrot : st.Rotates content
    · simp only [hrot, if_true] at hfile hrel
      constructor
      · intro _
        exact ⟨hname, Or.inl hrot⟩
      · intro _
        refine ⟨_, hfile, ?_⟩
        rw [hrel]
        exact hfresh.mpr (Or.inl (Or.inl rfl))
    · simp only [hrot, if_false, ← hlines] at hfile hrel
      constructor
      · rintro ⟨content', hlink', hset⟩
        rw [hfile] at hlink'
        injection hlink' with heq
        subst heq
        rw [hrel] at hset
        exact ⟨hname, Or.inr (hgrown.mp hset)⟩
      · rintro ⟨-, hstart⟩
        refine ⟨_, hfile, ?_⟩
        rw [hrel]
        exact hgrown.mpr (hstart.resolve_left hrot)

/-- Whatever the name, a call leaves a terminated file behind. -/
theorem release_terminated {st st' : LogState} {timestamp buf content : Str}
    (hlink : st.announced = .linked content)
    (h : st.release timestamp buf = .ok st') :
    ∃ content', st'.announced = .linked content' ∧ Terminated content' := by
  obtain ⟨hfile, -⟩ := LogState.release_linked hlink h
  refine ⟨_, hfile, ?_⟩
  rw [← List.append_assoc]
  exact terminated_append_lf _

/-- A call returns if the limit can be printed: a negative one is exceeded at
once, and the marker line for it cannot be built. -/
theorem release_returns_iff {st : LogState} {content : Str} (timestamp buf : Str)
    (hlink : st.announced = .linked content) (hopen : st.writable .announced = true) :
    (∃ st', st.release timestamp buf = .ok st') ↔ 0 ≤ st.maxlogsize := by
  have hlength : (0 : Int) ≤ content.length := Int.natCast_nonneg _
  unfold LogState.release
  rw [LogState.checkFilesize_announced hlink]
  by_cases hrot : st.Rotates content
  · have hsome := formatbytes_isSome_iff st.maxlogsize
    simp only [hrot, hopen, if_true, bind, Except.bind, LogState.clearedMarker]
    cases hsize : formatbytes st.maxlogsize with
    | none =>
        rw [hsize] at hsome
        simpa [LogState.write, LogState.setFile, hsize] using hsome
    | some size =>
        rw [hsize] at hsome
        simpa [LogState.write, LogState.setFile, hsize, pure, Except.pure] using hsome
  · have hle : (content.length : Int) ≤ st.maxlogsize := Int.not_lt.mp hrot
    have hpos : 0 ≤ st.maxlogsize := by omega
    simp [hrot, hpos, bind, Except.bind, pure, Except.pure]

/-! ## Whole runs -/

/-- A run of calls with one more at the end. -/
theorem releaseAll_snoc (st : LogState) (pre : List Call) (c : Call) :
    releaseAll st (pre ++ [c]) =
      (releaseAll st pre).bind fun st' => st'.release c.timestamp c.name.bytes := by
  unfold releaseAll
  rw [List.foldlM_append]
  congr 1
  funext st'
  simp only [List.foldlM_cons, List.foldlM_nil, bind_pure]

/-- The text of `announced.txt` when the module has been loaded. -/
def startText (maxlogsize : Int) (announced : Option Str) : Str :=
  (preRotate maxlogsize announced).getD []

theorem load_announced (maxlogsize : Int) (logfile announced : Option Str) :
    (load maxlogsize logfile announced).announced =
      .linked (startText maxlogsize announced) := rfl

theorem load_remembers (maxlogsize : Int) (logfile announced : Option Str) :
    Remembers (load maxlogsize logfile announced) :=
  ⟨_, load_announced maxlogsize logfile announced, rfl⟩

/-- A file that is over the limit right after loading is empty: `pre_rotate`
has seen it. -/
theorem startText_terminated_of_rotates (maxlogsize : Int) (logfile announced : Option Str)
    (h : (load maxlogsize logfile announced).Rotates (startText maxlogsize announced)) :
    Terminated (startText maxlogsize announced) := by
  cases announced with
  | none => exact Or.inl rfl
  | some there =>
      by_cases hrot : maxlogsize < (there.length : Int)
      · refine Or.inl ?_
        simp [startText, preRotate, hrot]
      · exfalso
        simp [startText, preRotate, hrot, LogState.Rotates, load] at h

/-- What a run of calls leaves alone. -/
theorem releaseAll_keeps {maxlogsize : Int} {logfile announced : Option Str}
    {calls : List Call} {st : LogState}
    (h : releaseAll (load maxlogsize logfile announced) calls = .ok st) :
    st.maxlogsize = maxlogsize ∧ st.writable .announced = true ∧
      ∃ content, st.announced = .linked content := by
  induction calls using List.reverseRecOn generalizing st with
  | nil =>
      simp only [releaseAll, List.foldlM_nil, pure, Except.pure, Except.ok.injEq] at h
      subst h
      exact ⟨rfl, rfl, _, rfl⟩
  | append_singleton pre c ih =>
      rw [releaseAll_snoc] at h
      cases hpre : releaseAll (load maxlogsize logfile announced) pre with
      | error err =>
          rw [hpre] at h
          cases h
      | ok st₁ =>
          rw [hpre] at h
          obtain ⟨hsize, hopen, content, hlink⟩ := ih hpre
          obtain ⟨hfile, -, hsame, -, -, hwritable⟩ := LogState.release_linked hlink h
          exact ⟨hsame.trans hsize, hwritable ▸ hopen, _, hfile⟩

/-- A run of calls goes through to its end, or stops at its first call. -/
theorem releaseAll_returns_iff (maxlogsize : Int) (logfile announced : Option Str)
    (calls : List Call) :
    (∃ st, releaseAll (load maxlogsize logfile announced) calls = .ok st) ↔
      (calls = [] ∨ 0 ≤ maxlogsize) := by
  induction calls using List.reverseRecOn with
  | nil => exact ⟨fun _ => Or.inl rfl, fun _ => ⟨_, rfl⟩⟩
  | append_singleton pre c ih =>
      have hne : pre ++ [c] ≠ [] := List.append_ne_nil_of_right_ne_nil _ (by simp)
      rw [releaseAll_snoc]
      constructor
      · rintro ⟨st, h⟩
        cases hpre : releaseAll (load maxlogsize logfile announced) pre with
        | error err =>
            rw [hpre] at h
            cases h
        | ok st₁ =>
            rw [hpre] at h
            obtain ⟨hsize, hopen, content, hlink⟩ := releaseAll_keeps hpre
            have hret := (release_returns_iff c.timestamp c.name.bytes hlink hopen).mp ⟨st, h⟩
            exact Or.inr (hsize ▸ hret)
      · intro hcalls
        have hpos : 0 ≤ maxlogsize := hcalls.resolve_left hne
        obtain ⟨st₁, hpre⟩ := ih.mpr (Or.inr hpos)
        obtain ⟨hsize, hopen, content, hlink⟩ := releaseAll_keeps hpre
        rw [hpre]
        exact (release_returns_iff c.timestamp c.name.bytes hlink hopen).mpr (hsize ▸ hpos)

/-- After at least one call the file ends in a line feed. -/
theorem releaseAll_terminated {maxlogsize : Int} {logfile announced : Option Str}
    {pre : List Call} {st : LogState} (hne : pre ≠ [])
    (h : releaseAll (load maxlogsize logfile announced) pre = .ok st) :
    ∃ content, st.announced = .linked content ∧ Terminated content := by
  obtain ⟨pre, c, rfl⟩ := List.eq_nil_or_concat' pre |>.resolve_left hne
  rw [releaseAll_snoc] at h
  cases hpre : releaseAll (load maxlogsize logfile announced) pre with
  | error err =>
      rw [hpre] at h
      cases h
  | ok st₁ =>
      rw [hpre] at h
      obtain ⟨-, -, content, hlink⟩ := releaseAll_keeps hpre
      exact release_terminated hlink h

/-- The runs the encoding is faithful for: no name with a line feed, and a
first append that starts a line.  With a negative limit not even the first call
returns. -/
def Faithful (maxlogsize : Int) (announced : Option Str) (calls : List Call) : Prop :=
  0 ≤ maxlogsize → (∀ c ∈ calls, lf ∉ c.name.bytes) ∧
    ∀ c ∈ calls.head?, StartsLine (startText maxlogsize announced) c.name.bytes

/-- What the agreement after one more call comes to in a run. -/
theorem remembers_snoc_iff {maxlogsize : Int} {logfile announced : Option Str}
    {pre : List Call} {c : Call} {st₁ st : LogState}
    (hpre : releaseAll (load maxlogsize logfile announced) pre = .ok st₁)
    (hrem : Remembers st₁) (h : st₁.release c.timestamp c.name.bytes = .ok st) :
    Remembers st ↔ lf ∉ c.name.bytes ∧
      (pre = [] → StartsLine (startText maxlogsize announced) c.name.bytes) := by
  obtain ⟨content, hlink, hlines⟩ := hrem
  rw [release_remembers_iff hlink hlines h]
  refine and_congr_right fun _ => ?_
  by_cases hnil : pre = []
  · subst hnil
    simp only [releaseAll, List.foldlM_nil, pure, Except.pure, Except.ok.injEq] at hpre
    subst hpre
    rw [load_announced] at hlink
    injection hlink with heq
    subst heq
    simp only [true_implies]
    constructor
    · rintro (hrot | hstart)
      · exact Or.inl (startText_terminated_of_rotates maxlogsize logfile announced hrot)
      · exact hstart
    · exact Or.inr
  · obtain ⟨content', hlink', hterm⟩ := releaseAll_terminated hnil hpre
    rw [hlink'] at hlink
    injection hlink with heq
    subst heq
    simp only [hnil, false_implies, iff_true]
    exact Or.inr (Or.inl hterm)

/-- **The dedupe memory, exactly.**  After every call of a run the lines of
`announced.txt` are the names in `releases`, and a process started on the file
holds the same names, iff the run is one the encoding is faithful for. -/
theorem releaseAll_remembers_iff (maxlogsize : Int) (logfile announced : Option Str)
    (calls : List Call) :
    (∀ pre st, pre <+: calls →
        releaseAll (load maxlogsize logfile announced) pre = .ok st →
          Remembers st ∧ Reloads st) ↔
      Faithful maxlogsize announced calls := by
  constructor
  · intro hall hpos
    have hcall : ∀ pre c, pre ++ [c] <+: calls → lf ∉ c.name.bytes ∧
        (pre = [] → StartsLine (startText maxlogsize announced) c.name.bytes) := by
      intro pre c hprefix
      have hshorter : pre <+: calls := (List.prefix_append pre [c]).trans hprefix
      obtain ⟨st₁, hpre⟩ := (releaseAll_returns_iff maxlogsize logfile announced pre).mpr
        (Or.inr hpos)
      obtain ⟨-, -, content, hlink⟩ := releaseAll_keeps hpre
      obtain ⟨st, h⟩ := (releaseAll_returns_iff maxlogsize logfile announced (pre ++ [c])).mpr
        (Or.inr hpos)
      have hafter := (hall _ _ hprefix h).1
      rw [releaseAll_snoc, hpre] at h
      exact (remembers_snoc_iff hpre (hall pre st₁ hshorter hpre).1 h).mp hafter
    constructor
    · intro c hc
      obtain ⟨pre, post, rfl⟩ := List.append_of_mem hc
      exact (hcall pre c ⟨post, by simp⟩).1
    · intro c hc
      obtain ⟨rest, rfl⟩ : ∃ rest, calls = c :: rest := List.head?_eq_some_iff.mp hc
      exact (hcall [] c ⟨rest, rfl⟩).2 rfl
  · intro hfaithful pre st hpre h
    have hrem : Remembers st := by
      induction pre using List.reverseRecOn generalizing st with
      | nil =>
          simp only [releaseAll, List.foldlM_nil, pure, Except.pure, Except.ok.injEq] at h
          subst h
          exact load_remembers maxlogsize logfile announced
      | append_singleton pre c ih =>
          have hne : pre ++ [c] ≠ [] := List.append_ne_nil_of_right_ne_nil _ (by simp)
          have hpos : 0 ≤ maxlogsize :=
            ((releaseAll_returns_iff maxlogsize logfile announced _).mp ⟨st, h⟩).resolve_left hne
          obtain ⟨hnames, hfirst⟩ := hfaithful hpos
          obtain ⟨post, rfl⟩ := hpre
          rw [releaseAll_snoc] at h
          cases hst : releaseAll (load maxlogsize logfile announced) pre with
          | error err =>
              rw [hst] at h
              cases h
          | ok st₁ =>
              rw [hst] at h
              have hbefore : Remembers st₁ := ih st₁ ⟨c :: post, by simp⟩ hst
              refine (remembers_snoc_iff hst hbefore h).mpr ⟨hnames c (by simp), ?_⟩
              rintro rfl
              exact hfirst c rfl
    exact ⟨hrem, hrem.reloads⟩

/-- A release directory whose name has a line feed in it. -/
def brokenName : EntryName where
  bytes := lit "Some.Release" ++ [lf] ++ lit "GROUP"
  nonempty := by decide
  noSlash := by decide
  noNul := by decide

/-- Announcing it leaves two lines in the file and one name in the table, so
after a restart the release counts as new. -/
theorem release_brokenName_forgotten :
    ¬ ∀ (maxlogsize : Int) (logfile announced : Option Str) (calls pre : List Call)
        (st : LogState), pre <+: calls →
      releaseAll (load maxlogsize logfile announced) pre = .ok st → Remembers st := by
  intro hall
  obtain ⟨st, hcall⟩ : ∃ st,
      (load 2097152 none none).release [] brokenName.bytes = .ok st := ⟨_, rfl⟩
  have hrun : releaseAll (load 2097152 none none) [⟨[], brokenName⟩] = .ok st := by
    rw [← List.nil_append [(⟨[], brokenName⟩ : Call)], releaseAll_snoc]
    exact hcall
  have hrem := hall 2097152 none none _ _ st (List.prefix_refl _) hrun
  have hname := ((release_remembers_iff rfl rfl hcall).mp hrem).1
  exact hname (by decide)

end LuadchAnnouncer.Core.LogMemory
