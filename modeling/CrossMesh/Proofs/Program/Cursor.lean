import CrossMesh.Program.Basic
import Mathlib.Data.List.Basic

/-!
# The insertion point as a cut of the execution order

The insertion point cuts the execution order into the operations before it and those behind it.  An insertion puts
its operation at the end of the first part and leaves the second part alone (`left_place`, `right_place`).
-/

namespace CrossMesh

namespace Program

/-- How many operations stand before the insertion point. -/
def cut (p : Program) : Nat := p.cursor.getD p.order.length

/-- The operations before the insertion point. -/
def left (p : Program) : List OpId := p.order.take p.cut

/-- The operations behind the insertion point. -/
def right (p : Program) : List OpId := p.order.drop p.cut

/-- The insertion point lies within the execution order. -/
def CursorInside (p : Program) : Prop := ∀ c, p.cursor = some c → c ≤ p.order.length

theorem left_append_right (p : Program) : p.left ++ p.right = p.order := List.take_append_drop ..

theorem cut_le {p : Program} (h : p.CursorInside) : p.cut ≤ p.order.length := by
  unfold cut
  cases hc : p.cursor with
  | none => exact Nat.le_refl _
  | some c => exact h c hc

theorem length_left {p : Program} (h : p.CursorInside) : p.left.length = p.cut := by
  unfold left
  rw [List.length_take, Nat.min_eq_left (cut_le h)]

private theorem insertIdx_eq_take_append_cons_drop {l : List OpId} {i : Nat} (h : i ≤ l.length) (op : OpId) :
    l.insertIdx i op = l.take i ++ op :: l.drop i := by
  induction l generalizing i with
  | nil =>
    obtain rfl := Nat.le_zero.1 h
    rfl
  | cons a l ih =>
    cases i with
    | zero => rfl
    | succ i =>
      rw [List.insertIdx_succ_cons, ih (Nat.le_of_succ_le_succ h)]
      rfl

/-- An inserted operation stands right before the insertion point. -/
theorem order_place {p : Program} (h : p.CursorInside) (d : Draft) :
    (p.place d).order = p.left ++ p.nextOp :: p.right := by
  unfold place left right cut
  cases hc : p.cursor with
  | none => simp
  | some c => exact insertIdx_eq_take_append_cons_drop (h c hc) _

theorem cut_place {p : Program} (h : p.CursorInside) (d : Draft) : (p.place d).cut = p.cut + 1 := by
  have hlen := congrArg List.length (order_place h d)
  rw [List.length_append, List.length_cons] at hlen
  unfold cut place
  cases hc : p.cursor with
  | none => simp
  | some c => rfl

theorem left_place {p : Program} (h : p.CursorInside) (d : Draft) : (p.place d).left = p.left ++ [p.nextOp] := by
  rw [left, cut_place h, order_place h, List.append_cons, ← length_left h]
  exact List.take_left' (by simp)

theorem right_place {p : Program} (h : p.CursorInside) (d : Draft) : (p.place d).right = p.right := by
  rw [right, cut_place h, order_place h, List.append_cons, ← length_left h]
  exact List.drop_left' (by simp)

/-- The insertion point moves back over an operation that is removed before it. -/
theorem cut_eraseIdx {p : Program} {i : Nat} (h : i < p.order.length) (ops : Array (Option Operation)) :
    cut { p with ops, order := p.order.eraseIdx i, cursor := p.cursor.map fun c => if i < c then c - 1 else c } =
      if i < p.cut then p.cut - 1 else p.cut := by
  unfold cut
  cases p.cursor with
  | none => simp [List.length_eraseIdx, h]
  | some c => rfl

theorem cursorInside_place {p : Program} (h : p.CursorInside) (d : Draft) : (p.place d).CursorInside := by
  intro c hc
  have hcut : (p.place d).cut = c := by rw [cut, hc]; rfl
  rw [← hcut, cut_place h, order_place h, List.length_append, List.length_cons, length_left h]
  omega

end Program

end CrossMesh
