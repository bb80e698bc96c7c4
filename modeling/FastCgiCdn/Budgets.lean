import FastCgiCdn.GuardedRuns
import Mathlib.Algebra.BigOperators.Group.List.Basic
import Mathlib.Algebra.GroupWithZero.Nat
import Mathlib.Data.List.AList

/-! Runs with a cost for each step, the rules that compare the cost of a run with a
potential of its states, and the potential that a table of weighted entries is. -/

namespace FastCgiCdn.Budgets

open GuardedRuns

section Runs

variable {ι σ : Type*} {step : ι → σ → σ → Prop} {cost : ι → σ → ℕ} {ok : ι → σ → Prop}
  {init : σ → Prop} {n : ℕ} {s : σ}

/-- The states reached at a cost. -/
inductive Counted (step : ι → σ → σ → Prop) (cost : ι → σ → ℕ) (ok : ι → σ → Prop)
    (init : σ → Prop) : ℕ → σ → Prop
  | start {s : σ} : init s → Counted step cost ok init 0 s
  | next {n : ℕ} {s t : σ} {e : ι} : Counted step cost ok init n s → ok e s → step e s t →
      Counted step cost ok init (n + cost e s) t

/-- What each step pays for, the run pays for. -/
theorem Counted.paid {potential : σ → ℕ} (price : ℕ)
    (base : ∀ s, init s → potential s = 0)
    (pays : ∀ e s t, ok e s → step e s t → potential t ≤ potential s + price * cost e s)
    (run : Counted step cost ok init n s) : potential s ≤ price * n := by
  induction run with
  | start first => exact Nat.le_of_eq (base _ first)
  | next _ admitted taken ih =>
    have more := pays _ _ _ admitted taken
    rw [Nat.mul_add]
    omega

/-- What each step yields beside an invariant, the run yields. -/
theorem Counted.yields {potential : σ → ℕ} {P : σ → Prop} {before : ℕ}
    (base : ∀ s, init s → P s ∧ before ≤ potential s)
    (keeps : ∀ e s t, P s → ok e s → step e s t → P t ∧ potential s + cost e s ≤ potential t)
    (run : Counted step cost ok init n s) : P s ∧ before + n ≤ potential s := by
  induction run with
  | start first => exact base _ first
  | next _ admitted taken ih =>
    obtain ⟨kept, more⟩ := keeps _ _ _ ih.1 admitted taken
    refine ⟨kept, ?_⟩
    have enough := ih.2
    omega

end Runs

section Tables

variable {κ : Type*} [DecidableEq κ] {β : Type*} {weight : β → ℕ} {k : κ} {b c : β}
  {table : AList fun _ : κ => β}

def total (weight : β → ℕ) (table : AList fun _ : κ => β) : ℕ :=
  (table.entries.map fun entry => weight entry.2).sum

theorem total_erase (found : table.lookup k = some b) :
    total weight (table.erase k) + weight b = total weight table := by
  have member : k ∈ table.entries.keys := AList.lookup_isSome.mp (by rw [found]; rfl)
  obtain ⟨b', front, back, fresh, entries, erased⟩ := List.exists_of_kerase member
  have same : b' = b := by
    have stands : (⟨k, b'⟩ : Sigma fun _ : κ => β) ∈ table.entries := by
      rw [entries]
      exact List.mem_append_right _ (List.mem_cons_self ..)
    exact Option.some.inj ((AList.mem_lookup_iff.mpr stands).symm.trans found)
  subst same
  change ((table.entries.kerase k).map _).sum + weight b' = _
  rw [total, erased, entries]
  simp only [List.map_append, List.map_cons, List.sum_append, List.sum_cons]
  omega

theorem total_erase_le (k : κ) : total weight (table.erase k) ≤ total weight table := by
  cases found : table.lookup k with
  | none =>
    have same : table.entries.kerase k = table.entries :=
      List.kerase_of_notMem_keys (AList.lookup_eq_none.mp found)
    exact Nat.le_of_eq (congrArg (fun l => (l.map fun entry => weight entry.2).sum) same)
  | some b =>
    have split : total weight (table.erase k) + weight b = total weight table := total_erase found
    omega

theorem total_insert :
    total weight (table.insert k c) = weight c + total weight (table.erase k) := by
  rw [total, AList.entries_insert, List.map_cons, List.sum_cons]
  rfl

theorem total_insert_le : total weight (table.insert k c) ≤ weight c + total weight table := by
  rw [total_insert]
  exact Nat.add_le_add_left (total_erase_le k) _

theorem total_replace (found : table.lookup k = some b) :
    total weight (table.insert k c) + weight b = total weight table + weight c := by
  rw [total_insert, ← total_erase found]
  omega

/-- Each entry of the second table has come from the entry of its key in the first. -/
def Carried (R : β → β → Prop) (table table' : AList fun _ : κ => β) : Prop :=
  ∀ k b', table'.lookup k = some b' → ∃ b, table.lookup k = some b ∧ R b b'

variable {R : β → β → Prop} {table' table'' : AList fun _ : κ => β}

theorem Carried.refl (self : ∀ b, R b b) (table : AList fun _ : κ => β) :
    Carried R table table :=
  fun _ b found => ⟨b, found, self b⟩

theorem Carried.trans (composes : ∀ a b c, R a b → R b c → R a c)
    (first : Carried R table table') (second : Carried R table' table'') :
    Carried R table table'' := by
  intro k c last
  obtain ⟨b, between, older⟩ := second k c last
  obtain ⟨a, before, old⟩ := first k b between
  exact ⟨a, before, composes a b c old older⟩

theorem Carried.replace (self : ∀ b, R b b) (found : table.lookup k = some b) (changed : R b c) :
    Carried R table (table.insert k c) := by
  intro other last looked
  by_cases here : other = k
  · subst here
    rw [AList.lookup_insert] at looked
    obtain rfl := Option.some.inj looked
    exact ⟨b, found, changed⟩
  · rw [AList.lookup_insert_ne here] at looked
    exact ⟨last, looked, self last⟩

theorem Carried.erase (self : ∀ b, R b b) (k : κ) : Carried R table (table.erase k) := by
  intro other last looked
  by_cases here : other = k
  · subst here
    rw [AList.lookup_erase] at looked
    cases looked
  · rw [AList.lookup_erase_ne here] at looked
    exact ⟨last, looked, self last⟩

end Tables

end FastCgiCdn.Budgets
