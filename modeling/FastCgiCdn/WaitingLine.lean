import Mathlib.Data.List.Nodup

/-! Places in a queue without repetitions. An element stays ahead of another one
while elements are appended behind them, erased anywhere, or taken from the front,
and what is taken from the front is never the one behind. -/

namespace FastCgiCdn.WaitingLine

variable {α : Type*} {x y h : α} {queue : List α}

/-- `x` stands once in the queue, and `y` is not in front of it. -/
def Ahead (x y : α) (queue : List α) : Prop :=
  ∃ front back, queue = front ++ x :: back ∧ x ∉ front ∧ x ∉ back ∧ y ∉ front

theorem ahead_of_sublist (once : queue.Nodup) (order : [x, y].Sublist queue) :
    Ahead x y queue := by
  induction queue with
  | nil => cases order
  | cons h queue ih =>
    rw [List.nodup_cons] at once
    cases order with
    | cons _ order =>
      obtain ⟨front, back, rfl, before, behind, last⟩ := ih once.2 order
      refine ⟨h :: front, back, rfl, ?_, behind, ?_⟩
      · rw [List.mem_cons, not_or]
        refine ⟨?_, before⟩
        rintro rfl
        exact once.1 (by simp)
      · rw [List.mem_cons, not_or]
        refine ⟨?_, last⟩
        rintro rfl
        exact once.1 (order.subset (by simp))
    | cons_cons _ order => exact ⟨[], queue, rfl, List.not_mem_nil, once.1, List.not_mem_nil⟩

theorem Ahead.append (a : Ahead x y queue) (other : x ≠ h) : Ahead x y (queue ++ [h]) := by
  obtain ⟨front, back, rfl, before, behind, last⟩ := a
  refine ⟨front, back ++ [h], by simp, before, ?_, last⟩
  rw [List.mem_append, List.mem_singleton, not_or]
  exact ⟨behind, other⟩

theorem Ahead.erase [DecidableEq α] (a : Ahead x y queue) (stays : x ∈ queue.erase h) :
    Ahead x y (queue.erase h) := by
  obtain ⟨front, back, rfl, before, behind, last⟩ := a
  by_cases inFront : h ∈ front
  · rw [List.erase_append_left _ inFront]
    exact ⟨front.erase h, back, rfl, fun member => before (List.mem_of_mem_erase member), behind,
      fun member => last (List.mem_of_mem_erase member)⟩
  · rw [List.erase_append_right _ inFront] at stays ⊢
    by_cases own : h = x
    · subst own
      rw [List.erase_cons_head, List.mem_append] at stays
      exact absurd stays (not_or.mpr ⟨before, behind⟩)
    · rw [List.erase_cons_tail (by simpa using Ne.symm own)]
      exact ⟨front, back.erase h, rfl, before, fun member => behind (List.mem_of_mem_erase member),
        last⟩

theorem Ahead.head_ne (a : Ahead x y (h :: queue)) (other : x ≠ y) : h ≠ y := by
  obtain ⟨front, back, split, -, -, last⟩ := a
  rintro rfl
  cases front with
  | nil => exact other (List.cons.inj split).1.symm
  | cons c front => exact last ((List.cons.inj split).1 ▸ List.mem_cons_self)

end FastCgiCdn.WaitingLine
