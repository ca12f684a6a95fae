import Mathlib.Logic.Function.Basic
import LuadchAnnouncer.Verified.Bytes

/-!
# The tag lists of the rules

A rule holds its blacklist and its whitelist as references to two tables.
`add_rule` makes two new ones, `clone_rule` copies the rule and with it the
references, and the two dialogs assign to the table they find.  `Own` is what the
lists are there for: every rule has two sets of tags, and an operation changes
the one it is addressed to.  `kept_iff_apart` says in which runs the tables are
these sets.

Rules are numbered from zero here.

## Main results

* `addTag_iff`, `delTag_iff` — the two dialogs on a rule.
* `owns_addRule`, `owns_cloneRule` — a new rule and a clone.
* `kept_iff_apart` — any run.
* `clone_shares` — a clone and its original.
-/

namespace LuadchAnnouncer.Frontends.RuleTags

open LuadchAnnouncer.Verified.Bytes

/-! ## The tables -/

inductive Field where
  | blacklist
  | whitelist
  deriving DecidableEq, Repr

/-- A reference to a table. -/
abbrev Ref := Nat

/-- A table of tags: what is true in it. -/
abbrev Tags := Str → Bool

/-- The two references of a rule. -/
structure Rule where
  blacklist : Ref
  whitelist : Ref

def Rule.ref (rule : Rule) : Field → Ref
  | .blacklist => rule.blacklist
  | .whitelist => rule.whitelist

/-- `tables[ "rules" ]`, the tables it refers to, and the first reference that is
still free. -/
structure Rules where
  heap : Ref → Tags
  rules : List Rule
  next : Ref
  allocated : ∀ rule ∈ rules, ∀ field, rule.ref field < next

/-- `table.hasKey( tables[ "rules" ], item, field )` -/
def hasKey (s : Rules) (item : Str) (field : Field) : Bool :=
  s.rules.any fun rule => s.heap (rule.ref field) item

/-- An assignment to a table. -/
def Rules.assign (s : Rules) (ref : Ref) (tag : Str) (value : Bool) : Rules :=
  { s with heap := Function.update s.heap ref (Function.update (s.heap ref) tag value) }

/-! ## The operations -/

/-- What `add_folder` says. -/
inductive Answer where
  /-- "Error: please enter a name for the TAG" -/
  | noName
  /-- "Error: TAG name .. already taken" -/
  | taken
  | added
  deriving DecidableEq, Repr

/-- `add_folder`, in the dialog of the rule `k`.  There is no dialog where there
is no rule. -/
def addFolder (s : Rules) (k : Nat) (field : Field) (folder : Str) : Answer × Rules :=
  if folder = [] then (.noName, s)
  else if hasKey s folder field then (.taken, s)
  else
    match s.rules[k]? with
    | none => (.added, s)
    | some rule => (.added, s.assign (rule.ref field) folder true)

/-- `del_folder`, with the tag that is selected, if there is one. -/
def delFolder (s : Rules) (k : Nat) (field : Field) (selected : Option Str) : Rules :=
  match selected, s.rules[k]? with
  | some folder, some rule => s.assign (rule.ref field) folder false
  | _, _ => s

/-- The blacklist of a new rule. -/
def newBlacklist : Tags := fun tag =>
  tag == lit "(incomplete)" || tag == lit "(no-sfv)" || tag == lit "(nuked)"

def newWhitelist : Tags := fun _ => false

/-- `add_rule` -/
def addRule (s : Rules) : Rules where
  heap := Function.update (Function.update s.heap s.next newBlacklist) (s.next + 1) newWhitelist
  rules := s.rules ++ [⟨s.next, s.next + 1⟩]
  next := s.next + 2
  allocated := by
    intro rule hrule field
    rcases List.mem_append.mp hrule with hrule | hrule
    · exact Nat.lt_add_right 2 (s.allocated rule hrule field)
    · rw [List.mem_singleton.mp hrule]
      cases field with
      | blacklist => exact Nat.lt_add_of_pos_right (by decide)
      | whitelist => exact Nat.lt_succ_self (s.next + 1)

/-- `clone_rule`: `table.copy` copies what the fields hold. -/
def cloneRule (s : Rules) (nr : Nat) : Rules where
  heap := s.heap
  rules := s.rules ++ (s.rules[nr]?).toList
  next := s.next
  allocated := by
    intro rule hrule field
    rcases List.mem_append.mp hrule with hrule | hrule
    · exact s.allocated rule hrule field
    · exact s.allocated rule (List.mem_of_getElem? (Option.mem_toList.mp hrule)) field

inductive Op where
  | addRule
  | cloneRule (nr : Nat)
  | addTag (k : Nat) (field : Field) (folder : Str)
  | delTag (k : Nat) (field : Field) (selected : Option Str)

def step (s : Rules) : Op → Rules
  | .addRule => addRule s
  | .cloneRule nr => cloneRule s nr
  | .addTag k field folder => (addFolder s k field folder).2
  | .delTag k field selected => delFolder s k field selected

/-! ## Sets of one's own -/

/-- The two sets of tags of a rule. -/
abbrev Own := Field → Tags

/-- One tag of one set. -/
def Own.set (own : Own) (field : Field) (tag : Str) (value : Bool) : Own :=
  Function.update own field (Function.update (own field) tag value)

/-- The sets of a new rule. -/
def newOwn : Own
  | .blacklist => newBlacklist
  | .whitelist => newWhitelist

/-- What an operation does where every rule has sets of its own. -/
def ownStep (owns : List Own) : Op → List Own
  | .addRule => owns ++ [newOwn]
  | .cloneRule nr => owns ++ (owns[nr]?).toList
  | .addTag k field folder =>
      if folder = [] then owns else owns.modify k fun own => own.set field folder true
  | .delTag k field (some folder) => owns.modify k fun own => own.set field folder false
  | .delTag _ _ none => owns

/-- What is in the tables a rule refers to. -/
def Rules.own (s : Rules) (rule : Rule) : Own := fun field => s.heap (rule.ref field)

def Rules.owns (s : Rules) : List Own := s.rules.map s.own

/-- A tag is refused only where the rule has it. -/
def refusedRightly (s : Rules) : Op → Prop
  | .addTag k field folder =>
      (addFolder s k field folder).1 = .taken →
        ∀ rule, s.rules[k]? = some rule → s.own rule field folder = true
  | _ => True

/-- Along a run, what is in the tables is what the operations addressed to each
rule have made of its sets, and tags are refused rightly. -/
def Kept (s : Rules) (owns : List Own) : List Op → Prop
  | [] => True
  | op :: ops =>
      ((step s op).owns = ownStep owns op ∧ refusedRightly s op) ∧
        Kept (step s op) (ownStep owns op) ops

/-! ## Runs in which rules do not meet -/

/-- No other rule refers to the table, and this one only once. -/
def Unshared (s : Rules) (k : Nat) (ref : Ref) (field : Field) : Prop :=
  ∀ j rule other, s.rules[j]? = some rule → rule.ref other = ref → j = k ∧ other = field

/-- A tag that is added to a rule is one no rule has in this list, or the rule
itself has it; and a table that is changed is not shared. -/
def Clear (s : Rules) : Op → Prop
  | .addTag k field folder =>
      folder ≠ [] → ∀ rule, s.rules[k]? = some rule →
        s.own rule field folder = true ∨
          (hasKey s folder field = false ∧ Unshared s k (rule.ref field) field)
  | .delTag k field (some folder) =>
      ∀ rule, s.rules[k]? = some rule →
        s.own rule field folder = false ∨ Unshared s k (rule.ref field) field
  | _ => True

/-- Every step of a run is of this kind. -/
def Apart (s : Rules) : List Op → Prop
  | [] => True
  | op :: ops => Clear s op ∧ Apart (step s op) ops

theorem owns_getElem? (s : Rules) (j : Nat) : s.owns[j]? = (s.rules[j]?).map s.own := by
  unfold Rules.owns
  rw [List.getElem?_map]

theorem own_assign_self (s : Rules) {rule : Rule} {field : Field} {ref : Ref}
    (h : rule.ref field = ref) (tag : Str) (value : Bool) :
    (s.assign ref tag value).own rule field = Function.update (s.heap ref) tag value := by
  show Function.update s.heap ref _ (rule.ref field) = _
  rw [h, Function.update_self]

theorem own_assign_of_ne (s : Rules) {rule : Rule} {field : Field} {ref : Ref}
    (h : rule.ref field ≠ ref) (tag : Str) (value : Bool) :
    (s.assign ref tag value).own rule field = s.own rule field := by
  show Function.update s.heap ref _ (rule.ref field) = _
  rw [Function.update_of_ne h]
  rfl

/-- If a change of a table is one to the set of one rule, no other set is kept in
that table. -/
theorem unshared_of_assign {s : Rules} {k : Nat} {rule : Rule} {field : Field} {tag : Str}
    {value : Bool} (hnew : s.own rule field tag ≠ value)
    (howns : (s.assign (rule.ref field) tag value).owns =
      s.owns.modify k (fun own => own.set field tag value)) :
    Unshared s k (rule.ref field) field := by
  have hchange : Function.update (s.heap (rule.ref field)) tag value ≠ s.heap (rule.ref field) := by
    intro heq
    apply hnew
    have htag := congrFun heq tag
    rw [Function.update_self] at htag
    exact htag.symm
  intro j other g hother hshared
  have hj := congrArg (fun l => l[j]?) howns
  simp only [owns_getElem?, List.getElem?_modify, Option.map_eq_map] at hj
  rw [show (s.assign (rule.ref field) tag value).rules = s.rules from rfl, hother] at hj
  simp only [Option.map_some, Option.some.injEq] at hj
  have hg := congrFun hj g
  rw [own_assign_self s hshared] at hg
  by_cases hjk : k = j
  case neg =>
    -- another rule sees the change
    simp only [if_neg hjk] at hg
    unfold Rules.own at hg
    rw [hshared] at hg
    exact absurd hg hchange
  case pos =>
    by_cases hfield : g = field
    case pos => exact ⟨hjk.symm, hfield⟩
    case neg =>
      simp only [if_pos hjk, Own.set, Function.update_of_ne hfield] at hg
      unfold Rules.own at hg
      rw [hshared] at hg
      exact absurd hg hchange

/-- A table that keeps one set. -/
theorem assign_of_unshared {s : Rules} {k : Nat} {rule : Rule} (hrule : s.rules[k]? = some rule)
    {field : Field} {tag : Str} {value : Bool} (hunshared : Unshared s k (rule.ref field) field) :
    (s.assign (rule.ref field) tag value).owns =
      s.owns.modify k (fun own => own.set field tag value) := by
  apply List.ext_getElem?
  intro j
  rw [owns_getElem?, List.getElem?_modify, owns_getElem?, Option.map_eq_map]
  show (s.rules[j]?).map _ = _
  cases hother : s.rules[j]? with
  | none => rfl
  | some other =>
      simp only [Option.map_some, Option.some.injEq]
      funext g
      by_cases hshared : other.ref g = rule.ref field
      case pos =>
        obtain ⟨rfl, rfl⟩ := hunshared j other g hother hshared
        rw [own_assign_self s hshared, if_pos rfl]
        unfold Own.set Rules.own
        rw [Function.update_self, hshared]
      case neg =>
        rw [own_assign_of_ne s hshared]
        by_cases hjk : k = j
        case neg => rw [if_neg hjk]
        case pos =>
          rw [← hjk, hrule] at hother
          injection hother with hother
          have hfield : g ≠ field := by
            intro hg
            rw [← hother, hg] at hshared
            exact hshared rfl
          rw [if_pos hjk]
          unfold Own.set
          rw [Function.update_of_ne hfield]

/-- An assignment that changes the table is one to the set of the rule exactly
if the table is its own. -/
theorem assign_owns_iff {s : Rules} {k : Nat} {rule : Rule} (hrule : s.rules[k]? = some rule)
    {field : Field} {tag : Str} (value : Bool) (hnew : s.own rule field tag ≠ value) :
    (s.assign (rule.ref field) tag value).owns =
        s.owns.modify k (fun own => own.set field tag value) ↔
      Unshared s k (rule.ref field) field :=
  ⟨unshared_of_assign hnew, assign_of_unshared hrule⟩

/-- Setting what is so already. -/
theorem set_same {own : Own} {field : Field} {tag : Str} {value : Bool}
    (h : own field tag = value) : own.set field tag value = own := by
  unfold Own.set
  rw [← h, Function.update_eq_self, Function.update_eq_self]

/-- An assignment of what is there already changes no set. -/
theorem owns_modify_same {s : Rules} (k : Nat) (field : Field) (tag : Str) (value : Bool)
    (h : ∀ rule, s.rules[k]? = some rule → s.own rule field tag = value) :
    s.owns.modify k (fun own => own.set field tag value) = s.owns := by
  apply List.ext_getElem?
  intro j
  rw [List.getElem?_modify, owns_getElem?, Option.map_eq_map]
  cases hother : s.rules[j]? with
  | none => rfl
  | some other =>
      by_cases hjk : k = j
      case neg => simp [hjk]
      case pos =>
        rw [← hjk] at hother
        simp [hjk, set_same (h other hother)]

theorem assign_same {s : Rules} {rule : Rule} {field : Field} {tag : Str} {value : Bool}
    (h : s.own rule field tag = value) : s.assign (rule.ref field) tag value = s := by
  have hheap : s.heap (rule.ref field) tag = value := h
  unfold Rules.assign
  rw [← hheap, Function.update_eq_self, Function.update_eq_self]

theorem hasKey_of_own {s : Rules} {k : Nat} {rule : Rule} (hrule : s.rules[k]? = some rule)
    {field : Field} {tag : Str} (h : s.own rule field tag = true) : hasKey s tag field = true :=
  List.any_eq_true.mpr ⟨rule, List.mem_of_getElem? hrule, h⟩

/-- Adding a tag does what it should, answer included, exactly where the tag is new to all
rules, or the rule's own, and the table is not shared. -/
theorem addTag_iff (s : Rules) (k : Nat) (field : Field) (folder : Str) :
    ((step s (.addTag k field folder)).owns = ownStep s.owns (.addTag k field folder) ∧
      refusedRightly s (.addTag k field folder)) ↔ Clear s (.addTag k field folder) := by
  unfold step ownStep refusedRightly Clear addFolder
  by_cases hname : folder = []
  case pos => simp [hname]
  case neg =>
    simp only [if_neg hname]
    cases hrule : s.rules[k]? with
    | none =>
        have hsame := owns_modify_same (s := s) k field folder true
          fun rule h => by rw [hrule] at h; cases h
        rw [hsame]
        split
        · simp
        · simp
    | some rule =>
        by_cases hown : s.own rule field folder = true
        case pos =>
          have hsame := owns_modify_same (s := s) k field folder true
            fun rule' h => by rw [hrule] at h; injection h with h; rw [← h, hown]
          simp [hasKey_of_own hrule hown, hsame, hown]
        case neg =>
          cases hkey : hasKey s folder field with
          | true => simp [hown, hname]
          | false =>
              have hiff := assign_owns_iff hrule true hown
              simp [hown, hname, hiff]

/-- Removing one does, exactly where the table is not shared or has no such tag. -/
theorem delTag_iff (s : Rules) (k : Nat) (field : Field) (selected : Option Str) :
    (step s (.delTag k field selected)).owns = ownStep s.owns (.delTag k field selected) ↔
      Clear s (.delTag k field selected) := by
  unfold step delFolder
  cases selected with
  | none => simp [ownStep, Clear]
  | some folder =>
      unfold ownStep Clear
      cases hrule : s.rules[k]? with
      | none =>
          have hsame := owns_modify_same (s := s) k field folder false
            fun rule h => by rw [hrule] at h; cases h
          simp [hrule, hsame]
      | some rule =>
          by_cases hown : s.own rule field folder = false
          case pos =>
            have hsame := owns_modify_same (s := s) k field folder false
              fun rule' h => by rw [hrule] at h; injection h with h; rw [← h, hown]
            simp [hrule, hsame, assign_same hown, hown]
          case neg =>
            have hiff := assign_owns_iff hrule false hown
            simp [hrule, hown, hiff]

/-- The other rules keep their sets when a rule is added: its tables are new. -/
theorem own_addRule (s : Rules) {rule : Rule} (hrule : rule ∈ s.rules) :
    (addRule s).own rule = s.own rule := by
  funext field
  have hlt := s.allocated rule hrule field
  show Function.update (Function.update s.heap s.next newBlacklist) (s.next + 1) newWhitelist
    (rule.ref field) = s.heap (rule.ref field)
  rw [Function.update_of_ne (Nat.ne_of_lt (Nat.lt_add_right 1 hlt)),
    Function.update_of_ne (Nat.ne_of_lt hlt)]

/-- And the new rule has the sets it is given. -/
theorem own_newRule (s : Rules) (field : Field) :
    (addRule s).own ⟨s.next, s.next + 1⟩ field = newOwn field := by
  cases field with
  | blacklist =>
      show Function.update (Function.update s.heap s.next newBlacklist) (s.next + 1) newWhitelist
        s.next = newBlacklist
      rw [Function.update_of_ne (Nat.ne_of_lt (Nat.lt_succ_self s.next)),
        Function.update_self]
  | whitelist => exact Function.update_self _ _ _

/-- Adding a rule appends its two sets. -/
theorem owns_addRule (s : Rules) : (addRule s).owns = s.owns ++ [newOwn] := by
  unfold Rules.owns
  have hnew : (addRule s).own ⟨s.next, s.next + 1⟩ = newOwn := by
    funext field
    exact own_newRule s field
  show (s.rules ++ [Rule.mk s.next (s.next + 1)]).map (addRule s).own = _
  rw [List.map_append, List.map_congr_left fun rule hrule => own_addRule s hrule,
    List.map_singleton, hnew]

/-- Cloning a rule appends those of the original; they are the same tables, which does not
show yet. -/
theorem owns_cloneRule (s : Rules) (nr : Nat) :
    (cloneRule s nr).owns = s.owns ++ (s.owns[nr]?).toList := by
  rw [owns_getElem?]
  unfold Rules.owns
  show (s.rules ++ (s.rules[nr]?).toList).map s.own = _
  rw [List.map_append]
  cases s.rules[nr]? with
  | none => rfl
  | some rule => rfl

/-- What one operation does. -/
theorem step_iff (s : Rules) (op : Op) :
    ((step s op).owns = ownStep s.owns op ∧ refusedRightly s op) ↔ Clear s op := by
  cases op with
  | addRule => simp [step, ownStep, owns_addRule, refusedRightly, Clear]
  | cloneRule nr => simp [step, ownStep, owns_cloneRule, refusedRightly, Clear]
  | addTag k field folder => exact addTag_iff s k field folder
  | delTag k field selected =>
      have hiff := delTag_iff s k field selected
      simp [refusedRightly, hiff]

/-- **Each rule's lists are its own.**  A run keeps them so exactly if none of its
steps changes a table that two rules share, and no tag is added that another
rule has and this one has not. -/
theorem kept_iff_apart (s : Rules) (ops : List Op) : Kept s s.owns ops ↔ Apart s ops := by
  induction ops generalizing s with
  | nil => exact Iff.rfl
  | cons op ops ih =>
      unfold Kept Apart
      rw [step_iff s op]
      constructor
      · rintro ⟨hclear, hrest⟩
        have howns := ((step_iff s op).mpr hclear).1
        rw [← howns] at hrest
        exact ⟨hclear, (ih (step s op)).mp hrest⟩
      · rintro ⟨hclear, hrest⟩
        have howns := ((step_iff s op).mpr hclear).1
        refine ⟨hclear, ?_⟩
        rw [← howns]
        exact (ih (step s op)).mpr hrest

/-- One rule of the kind `add_rule` makes. -/
def oneRule : Rules := addRule ⟨fun _ _ => false, [], 0, fun _ h => absurd h (by simp)⟩

/-- A clone that is given a tag of its own gives it to the rule it was made
from; and a rule cannot be given a tag another has. -/
theorem clone_shares :
    ¬ (∀ (s : Rules) (ops : List Op), Kept s s.owns ops) ∧
    ¬ Kept oneRule oneRule.owns [.cloneRule 0, .addTag 1 .blacklist (lit "x264")] ∧
    ¬ Kept oneRule oneRule.owns
      [.addRule, .delTag 0 .blacklist (some (lit "(nuked)")),
        .addTag 0 .blacklist (lit "(nuked)")] := by
  have hclone : ¬ Kept oneRule oneRule.owns
      [.cloneRule 0, .addTag 1 .blacklist (lit "x264")] := by
    rw [kept_iff_apart]
    rintro ⟨-, hclear, -⟩
    rcases hclear (by decide) ⟨0, 1⟩ rfl with hown | ⟨-, hunshared⟩
    · exact absurd hown (by decide)
    · exact absurd (hunshared 0 ⟨0, 1⟩ .blacklist rfl rfl).1 (by decide)
  refine ⟨fun hall => hclone (hall _ _), hclone, ?_⟩
  rw [kept_iff_apart]
  rintro ⟨-, -, hclear, -⟩
  rcases hclear (by decide) ⟨0, 1⟩ rfl with hown | ⟨hkey, -⟩
  · exact absurd hown (by decide)
  · exact absurd hkey (by decide)

end LuadchAnnouncer.Frontends.RuleTags
