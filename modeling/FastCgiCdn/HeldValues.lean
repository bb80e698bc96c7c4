import Mathlib.Logic.Function.Basic
import Mathlib.Tactic.Common

/-! What it means that a list of values stands in a memory from a place on, with no
word said of the rest of the memory. -/

namespace FastCgiCdn.HeldValues

variable {α : Type*} (memory : ℕ → α)

/-- The values stand in the memory from a position on. -/
def Holds : ℕ → List α → Prop
  | _, [] => True
  | pos, v :: vs => memory pos = v ∧ Holds (pos + 1) vs

theorem holds_append (pos : ℕ) (vs ws : List α) : Holds memory pos (vs ++ ws) ↔
    Holds memory pos vs ∧ Holds memory (pos + vs.length) ws := by
  induction vs generalizing pos with
  | nil => simp [Holds]
  | cons v vs ih =>
    simp only [List.cons_append, Holds, ih, List.length_cons, and_assoc]
    rw [show pos + 1 + vs.length = pos + (vs.length + 1) by omega]

theorem holds_update (pos place : ℕ) (v : α) (vs : List α)
    (apart : place < pos ∨ pos + vs.length ≤ place) :
    Holds (Function.update memory place v) pos vs ↔ Holds memory pos vs := by
  induction vs generalizing pos with
  | nil => exact Iff.rfl
  | cons w vs ih =>
    simp only [List.length_cons] at apart
    have other : pos ≠ place := by omega
    simp only [Holds, Function.update_of_ne other, ih (pos + 1) (by omega)]

theorem holds_getElem (pos : ℕ) (vs : List α)
    (same : ∀ i (inside : i < vs.length), memory (pos + i) = vs[i]) : Holds memory pos vs := by
  induction vs generalizing pos with
  | nil => trivial
  | cons v vs ih =>
    refine ⟨same 0 (Nat.succ_pos _), ih (pos + 1) fun i inside => ?_⟩
    rw [Nat.add_assoc, Nat.add_comm 1 i]
    exact same (i + 1) (Nat.succ_lt_succ inside)

theorem getElem_of_holds {pos : ℕ} {vs : List α} (holds : Holds memory pos vs) {i : ℕ}
    (inside : i < vs.length) : memory (pos + i) = vs[i] := by
  induction vs generalizing pos i with
  | nil => exact absurd inside (Nat.not_lt_zero i)
  | cons v vs ih =>
    cases i with
    | zero => exact holds.1
    | succ i =>
      have next := ih holds.2 (Nat.lt_of_succ_lt_succ inside)
      rw [List.getElem_cons_succ, ← next]
      exact congrArg memory (by omega)

end FastCgiCdn.HeldValues
