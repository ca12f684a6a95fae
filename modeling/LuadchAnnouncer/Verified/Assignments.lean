import Mathlib.Logic.Equiv.Basic

/-!
# Assignments that can be undone

A block cipher is a sequence of assignments `x[j] op= g`, where `g` is computed
from the other variables.  Such an assignment loses nothing as long as `op` can be
undone, and then neither does a sequence of them.
-/

namespace LuadchAnnouncer.Verified.Assignments

variable {α β : Type} {n : Nat}

/-- `x[j] op= g( x )` -/
def assign (j : Fin n) (op : α → β → α) (g : Vector α n → β) (x : Vector α n) : Vector α n :=
  x.set j (op x[j] (g x))

/-- What `g` computes does not depend on the variable `j`. -/
def Apart (j : Fin n) (g : Vector α n → β) : Prop := ∀ x v, g (x.set j v) = g x

theorem apart_const (j : Fin n) (b : β) : Apart j fun _ : Vector α n => b := fun _ _ => rfl

/-- An operand that is read at another place is apart from the assigned one. -/
theorem apart_get {j k : Fin n} (h : j ≠ k) (f : α → β) :
    Apart j fun x : Vector α n => f x[k] := by
  intro x v
  have hne : (j : Nat) ≠ k := Fin.val_ne_of_ne h
  show f (x.set j v)[(k : Nat)] = f x[k]
  rw [Vector.getElem_set_ne j.isLt k.isLt hne]
  rfl

/-- So are two operands, each read at another place. -/
theorem apart_get₂ {j k l : Fin n} (hk : j ≠ k) (hl : j ≠ l) (f : α → α → β) :
    Apart j fun x : Vector α n => f x[k] x[l] := by
  intro x v
  have hfirst : (x.set j v)[k] = x[k] := apart_get hk id x v
  have hsecond : (x.set j v)[l] = x[l] := apart_get hl id x v
  show f (x.set j v)[k] (x.set j v)[l] = f x[k] x[l]
  rw [hfirst, hsecond]

/-- An assignment behind one that undoes it. -/
theorem assign_assign {j : Fin n} {op undo : α → β → α} {g : Vector α n → β} (hg : Apart j g)
    (hundo : ∀ a x, undo (op a (g x)) (g x) = a) (x : Vector α n) :
    assign j undo g (assign j op g x) = x := by
  have hself : (x.set j (op x[j] (g x)))[j] = op x[j] (g x) := Vector.getElem_set_self j.isLt
  rw [assign, assign, hg, hself, hundo, Vector.set_set]
  exact Vector.set_getElem_self j.isLt

theorem bijective_assign {j : Fin n} {op : α → β → α} (undo : α → β → α) {g : Vector α n → β}
    (hg : Apart j g) (hundo : ∀ a x, undo (op a (g x)) (g x) = a)
    (hredo : ∀ a x, op (undo a (g x)) (g x) = a) : Function.Bijective (assign j op g) :=
  Function.bijective_iff_has_inverse.mpr
    ⟨assign j undo g, assign_assign hg hundo, assign_assign hg hredo⟩

end LuadchAnnouncer.Verified.Assignments
