/-
Cutting a list at a separator.

`List.splitOn` cuts a list into the pieces between the separators.  A reader that works
through the list from the front does not see the pieces, it sees the next separator, so what
is needed is an induction that goes the same way: a list is one piece, or a piece, a
separator and a list.

The pieces are then read one by one.  Where two readers give lists, and one of them never
gives fewer on a piece, they can only give the same on the whole if they do on every piece
(`flatMap_append_eq_iff`).
-/
import Mathlib.Data.List.Basic

namespace Pieces

variable {α β : Type*}

/-- **Induction from cut to cut**: the last piece, and a piece with a separator after it. -/
theorem splitOn_induction {a : α} {motive : List α → Prop} (last : ∀ xs, a ∉ xs → motive xs)
    (cut : ∀ xs rest, a ∉ xs → motive rest → motive (xs ++ a :: rest)) (xs : List α) :
    motive xs := by
  by_cases h : a ∈ xs
  · obtain ⟨init, rest, hxs, hinit⟩ := List.eq_append_cons_of_mem h
    rw [hxs]
    exact cut init rest hinit (splitOn_induction last cut rest)
  · exact last xs h
termination_by xs.length
decreasing_by
  rw [hxs]
  simp only [List.length_append, List.length_cons]
  omega

section

variable [BEq α] {a : α}

theorem not_mem_of_mem_splitOn [LawfulBEq α] {xs piece : List α} (h : piece ∈ xs.splitOn a) :
    a ∉ piece := by
  induction xs using splitOn_induction (a := a) with
  | last xs hxs =>
      rw [List.splitOn_eq_singleton hxs] at h
      exact List.mem_singleton.mp h ▸ hxs
  | cut xs rest hxs ih =>
      rw [List.splitOn_append_cons_self_of_not_mem hxs] at h
      rcases List.mem_cons.mp h with rfl | h
      · exact hxs
      · exact ih h

/-- The piece after the last separator. -/
def lastPiece (a : α) (xs : List α) : List α := (xs.splitOn a).getLast (List.splitOn_ne_nil a xs)

theorem lastPiece_of_not_mem [LawfulBEq α] {xs : List α} (h : a ∉ xs) : lastPiece a xs = xs := by
  simp only [lastPiece, List.splitOn_eq_singleton h, List.getLast_singleton]

theorem lastPiece_cut [LawfulBEq α] {xs : List α} (h : a ∉ xs) (rest : List α) :
    lastPiece a (xs ++ a :: rest) = lastPiece a rest := by
  simp only [lastPiece, List.splitOn_append_cons_self_of_not_mem h]
  exact List.getLast_cons (List.splitOn_ne_nil a rest)

/-- The pieces that have a separator after them. -/
def closedPieces (a : α) (xs : List α) : List (List α) := (xs.splitOn a).dropLast

theorem closedPieces_of_not_mem [LawfulBEq α] {xs : List α} (h : a ∉ xs) :
    closedPieces a xs = [] := by
  rw [closedPieces, List.splitOn_eq_singleton h]
  rfl

theorem closedPieces_cut [LawfulBEq α] {xs : List α} (h : a ∉ xs) (rest : List α) :
    closedPieces a (xs ++ a :: rest) = xs :: closedPieces a rest := by
  rw [closedPieces, List.splitOn_append_cons_self_of_not_mem h,
    List.dropLast_cons_of_ne_nil (List.splitOn_ne_nil a rest)]
  rfl

theorem lastPiece_mem (a : α) (xs : List α) : lastPiece a xs ∈ xs.splitOn a := List.getLast_mem _

theorem mem_splitOn_of_mem_closedPieces {xs piece : List α} (h : piece ∈ closedPieces a xs) :
    piece ∈ xs.splitOn a :=
  List.dropLast_subset _ h

end

/-- Nothing can be made up for from piece to piece. -/
theorem flatMap_append_eq_iff {f g : α → List β} (h : ∀ x, (g x).length ≤ (f x).length)
    (xs : List α) (t : List β) :
    xs.flatMap f ++ t = xs.flatMap g ↔ (∀ x ∈ xs, f x = g x) ∧ t = [] := by
  have hlength : ∀ ys : List α, (ys.flatMap g).length ≤ (ys.flatMap f).length := by
    intro ys
    induction ys with
    | nil => exact Nat.le_refl _
    | cons y ys ih =>
        rw [List.flatMap_cons, List.flatMap_cons, List.length_append, List.length_append]
        exact Nat.add_le_add (h y) ih
  induction xs with
  | nil => simp
  | cons x xs ih =>
      rw [List.flatMap_cons, List.flatMap_cons, List.append_assoc, List.forall_mem_cons, and_assoc]
      refine Iff.trans ⟨fun heq => ?_, fun heq => by rw [heq.1, heq.2]⟩ (and_congr_right' ih)
      have htotal := congrArg List.length heq
      simp only [List.length_append] at htotal
      have hx := h x
      have hxs := hlength xs
      exact List.append_inj heq (by omega)

end Pieces
