import Mathlib.Data.List.Nodup
import Mathlib.Data.Set.Card

/-!
# Walks of bounded length

A graph is given by the edges that leave each vertex; an edge leads to another vertex,
or it is a leaf, or it is neither.  `walks n p` enumerates the walks from `p` that take
fewer than `n` edges to other vertices before they end on a leaf, cycles and shared
vertices or not.

`length_filter_walks` says that it counts each of them once, and `IsWalk.length_le` how
long a walk gets where the vertices have a rank.

## Main results

* `mem_walks` — the enumeration and the walks.
* `nodup_walks` — it has none twice.
* `length_filter_walks` — so it can be counted.
-/

namespace LuadchAnnouncer.Verified.Walks

structure LeafGraph (ν κ : Type) where
  edges : ν → List κ
  next : ν → κ → Option ν
  leaf : ν → κ → Bool

namespace LeafGraph

variable {ν κ : Type} (g : LeafGraph ν κ)

/-- The edges lead from one vertex to the other. -/
def Leads : ν → List κ → ν → Prop
  | p, [], q => p = q
  | p, k :: ks, q => k ∈ g.edges p ∧ ∃ p', g.next p k = some p' ∧ Leads p' ks q

/-- A walk: the edges to other vertices, and the leaf it ends on. -/
def IsWalk (p : ν) (w : List κ × κ) : Prop :=
  ∃ q, g.Leads p w.1 q ∧ w.2 ∈ g.edges q ∧ g.leaf q w.2 = true

def walks : Nat → ν → List (List κ × κ)
  | 0, _ => []
  | n + 1, p => (g.edges p).flatMap fun k =>
      (if g.leaf p k then [([], k)] else []) ++
        match g.next p k with
        | none => []
        | some p' => (walks n p').map fun w => (k :: w.1, w.2)

theorem walks_succ (n : Nat) (p : ν) :
    g.walks (n + 1) p = (g.edges p).flatMap fun k =>
      (if g.leaf p k then [([], k)] else []) ++
        match g.next p k with
        | none => []
        | some p' => (g.walks n p').map fun w => (k :: w.1, w.2) := rfl

variable {g}

/-- The shortest walk is the edge to a leaf. -/
theorem isWalk_nil {p : ν} {k : κ} : g.IsWalk p ([], k) ↔ k ∈ g.edges p ∧ g.leaf p k = true := by
  constructor
  · intro h
    obtain ⟨q, rfl, hk, hleaf⟩ := h
    exact ⟨hk, hleaf⟩
  · intro h
    exact ⟨p, rfl, h.1, h.2⟩

/-- Any other begins with an edge to a vertex, and goes on from there. -/
theorem isWalk_cons {p : ν} {k l : κ} {ks : List κ} :
    g.IsWalk p (k :: ks, l) ↔
      k ∈ g.edges p ∧ ∃ p', g.next p k = some p' ∧ g.IsWalk p' (ks, l) := by
  constructor
  · intro h
    obtain ⟨q, ⟨hk, p', hnext, hleads⟩, hl, hleaf⟩ := h
    exact ⟨hk, p', hnext, q, hleads, hl, hleaf⟩
  · intro h
    obtain ⟨hk, p', hnext, q, hleads, hl, hleaf⟩ := h
    exact ⟨q, ⟨hk, p', hnext, hleads⟩, hl, hleaf⟩

/-- The walks of one edge more. -/
theorem mem_walks_succ {n : Nat} {p : ν} {w : List κ × κ} :
    w ∈ g.walks (n + 1) p ↔ ∃ k ∈ g.edges p, (g.leaf p k = true ∧ w = ([], k)) ∨
      ∃ p', g.next p k = some p' ∧ ∃ w' ∈ g.walks n p', w = (k :: w'.1, w'.2) := by
  rw [walks_succ, List.mem_flatMap]
  apply exists_congr
  intro k
  apply and_congr_right
  intro _
  rw [List.mem_append]
  apply or_congr
  · cases g.leaf p k with
    | true => simp
    | false => simp
  · cases g.next p k with
    | none => simp
    | some p' =>
        rw [List.mem_map]
        constructor
        · intro h
          obtain ⟨w', hw', heq⟩ := h
          exact ⟨p', rfl, w', hw', heq.symm⟩
        · intro h
          obtain ⟨p'', heq, w', hw', hw⟩ := h
          obtain rfl : p' = p'' := Option.some.inj heq
          exact ⟨w', hw', hw.symm⟩

/-- The enumeration lists the walks up to its depth, and nothing else. -/
theorem mem_walks {n : Nat} {p : ν} {w : List κ × κ} :
    w ∈ g.walks n p ↔ g.IsWalk p w ∧ w.1.length < n := by
  induction n generalizing p w with
  | zero =>
      apply iff_of_false
      · exact List.not_mem_nil
      · exact fun h => Nat.not_lt_zero _ h.2
  | succ n ih =>
      rw [mem_walks_succ]
      obtain ⟨ks, l⟩ := w
      cases ks with
      | nil =>
          rw [isWalk_nil]
          constructor
          · intro h
            obtain ⟨k, hk, hleaf | hnext⟩ := h
            · obtain ⟨hleaf, heq⟩ := hleaf
              obtain rfl : l = k := (Prod.mk.inj heq).2
              exact ⟨⟨hk, hleaf⟩, Nat.succ_pos n⟩
            · obtain ⟨p', -, w', -, heq⟩ := hnext
              cases (Prod.mk.inj heq).1
          · intro h
            exact ⟨l, h.1.1, Or.inl ⟨h.1.2, rfl⟩⟩
      | cons k ks =>
          rw [isWalk_cons]
          constructor
          · intro h
            obtain ⟨k', hk, hleaf | hnext⟩ := h
            · cases (Prod.mk.inj hleaf.2).1
            · obtain ⟨p', hnext, w', hw', heq⟩ := hnext
              obtain ⟨hks, rfl⟩ := Prod.mk.inj heq
              obtain ⟨rfl, rfl⟩ := List.cons.inj hks
              have hwalk := ih.mp hw'
              exact ⟨⟨hk, p', hnext, hwalk.1⟩, Nat.succ_lt_succ hwalk.2⟩
          · intro h
            obtain ⟨⟨hk, p', hnext, hwalk⟩, hlength⟩ := h
            refine ⟨k, hk, Or.inr ⟨p', hnext, (ks, l), ?_, rfl⟩⟩
            exact ih.mpr ⟨hwalk, Nat.lt_of_succ_lt_succ hlength⟩

/-- The first edge, or the leaf where there is none. -/
def first (w : List κ × κ) : κ := w.1.headD w.2

/-- It lists none twice, where no vertex has an edge twice. -/
theorem nodup_walks (hedges : ∀ p, (g.edges p).Nodup) (n : Nat) (p : ν) :
    (g.walks n p).Nodup := by
  induction n generalizing p with
  | zero => exact List.nodup_nil
  | succ n ih =>
      have hfirst : ∀ k, ∀ w ∈ (if g.leaf p k then [([], k)] else []) ++
          (match g.next p k with
          | none => []
          | some p' => (g.walks n p').map fun w => (k :: w.1, w.2)), first w = k := by
        intro k w hw
        rcases List.mem_append.mp hw with hleaf | hnext
        · split at hleaf
          · rw [List.mem_singleton] at hleaf
            rw [hleaf]
            rfl
          · exact absurd hleaf List.not_mem_nil
        · split at hnext
          · exact absurd hnext List.not_mem_nil
          · obtain ⟨w', -, rfl⟩ := List.mem_map.mp hnext
            rfl
      rw [walks_succ, List.nodup_flatMap]
      constructor
      · intro k _
        apply List.Nodup.append
        · split
          · exact List.nodup_singleton _
          · exact List.nodup_nil
        · split
          · exact List.nodup_nil
          · apply (ih _).map
            intro w w' heq
            obtain ⟨hks, hl⟩ := Prod.mk.inj heq
            exact Prod.ext (List.cons.inj hks).2 hl
        · intro w hleaf hnext
          split at hleaf
          · rw [List.mem_singleton] at hleaf
            subst hleaf
            split at hnext
            · exact absurd hnext List.not_mem_nil
            · obtain ⟨w', -, heq⟩ := List.mem_map.mp hnext
              cases (Prod.mk.inj heq).1
          · exact absurd hleaf List.not_mem_nil
      · apply (hedges p).imp
        intro k k' hne w hw hw'
        exact hne ((hfirst k w hw).symm.trans (hfirst k' w hw'))

/-- **The enumeration counts each walk once.** -/
theorem length_filter_walks (hedges : ∀ p, (g.edges p).Nodup) (n : Nat) (p : ν)
    (P : List κ × κ → Bool) :
    ((g.walks n p).filter P).length =
      {w | g.IsWalk p w ∧ w.1.length < n ∧ P w = true}.ncard := by
  classical
  have hnodup : ((g.walks n p).filter P).Nodup := (nodup_walks hedges n p).filter P
  rw [← List.toFinset_card_of_nodup hnodup, ← Set.ncard_coe_finset]
  congr 1
  ext w
  rw [List.coe_toFinset, Set.mem_ofPred_eq, Set.mem_ofPred_eq, List.mem_filter, mem_walks,
    and_assoc]

theorem finite_walks (n : Nat) (p : ν) : {w | g.IsWalk p w ∧ w.1.length < n}.Finite := by
  apply (g.walks n p).finite_toSet.subset
  intro w hw
  exact mem_walks.mpr hw

/-- Where each edge leads to a higher rank, a walk is no longer than the ranks of the
vertices that have edges. -/
theorem IsWalk.length_le (rank : ν → Nat) {bound : Nat}
    (hnext : ∀ p k p', g.next p k = some p' → rank p < rank p')
    (hbound : ∀ p, g.edges p ≠ [] → rank p ≤ bound) {p : ν} {w : List κ × κ}
    (h : g.IsWalk p w) : w.1.length ≤ bound := by
  obtain ⟨q, hleads, hl, -⟩ := h
  have hrank : ∀ (ks : List κ) (p : ν), g.Leads p ks q → rank p + ks.length ≤ rank q := by
    intro ks
    induction ks with
    | nil =>
        intro p hp
        rw [show p = q from hp, List.length_nil]
        omega
    | cons k ks ih =>
        intro p hp
        obtain ⟨-, p', hstep, hrest⟩ := hp
        have hlt := hnext p k p' hstep
        have hle := ih p' hrest
        rw [List.length_cons]
        omega
  have hle := hrank w.1 p hleads
  have hq := hbound q (List.ne_nil_of_mem hl)
  omega

end LeafGraph

end LuadchAnnouncer.Verified.Walks
