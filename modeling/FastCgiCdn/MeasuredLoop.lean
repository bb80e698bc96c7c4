import Mathlib.Data.List.Basic

/-! Loops with an early exit that carry their own termination argument: a body,
a measure, and the proof that the measure falls with every round. A loop is run
by recursion on its measure, so that it evaluates in the kernel, and its one
unfolding equation says that the measure is never what stops it. -/

namespace FastCgiCdn.MeasuredLoop

variable {σ ρ : Type*}

inductive Outcome (σ ρ : Type*)
  | again (s : σ)
  | stop (r : ρ)

structure Loop (σ ρ : Type*) where
  body : σ → Outcome σ ρ
  measure : σ → ℕ
  decreases : ∀ s t, body s = .again t → measure t < measure s

namespace Loop

def runFrom (l : Loop σ ρ) : (rounds : ℕ) → (s : σ) → l.measure s < rounds → ρ
  | 0, _, short => absurd short (Nat.not_lt_zero _)
  | rounds + 1, s, short =>
    match taken : l.body s with
    | .again t => l.runFrom rounds t (Nat.lt_of_lt_of_le (l.decreases s t taken)
        (Nat.le_of_lt_succ short))
    | .stop r => r

def run (l : Loop σ ρ) (s : σ) : ρ :=
  l.runFrom (l.measure s + 1) s (Nat.lt_succ_self _)

theorem runFrom_irrelevant (l : Loop σ ρ) (n m : ℕ) (s : σ) (hn : l.measure s < n)
    (hm : l.measure s < m) : l.runFrom n s hn = l.runFrom m s hm := by
  induction n generalizing m s with
  | zero => exact absurd hn (Nat.not_lt_zero _)
  | succ n ih =>
    cases m with
    | zero => exact absurd hm (Nat.not_lt_zero _)
    | succ m =>
      unfold runFrom
      split
      · apply ih
      · rfl

theorem run_again (l : Loop σ ρ) {s t : σ} (taken : l.body s = .again t) :
    l.run s = l.run t := by
  have falls := l.decreases s t taken
  unfold run
  rw [runFrom]
  split
  · rename_i u same
    obtain rfl : t = u := by simpa [taken] using same
    apply runFrom_irrelevant
  · rename_i r same
    rw [taken] at same
    cases same

theorem run_stop (l : Loop σ ρ) {s : σ} {r : ρ} (taken : l.body s = .stop r) :
    l.run s = r := by
  unfold run
  rw [runFrom]
  split
  · rename_i u same
    rw [taken] at same
    cases same
  · rename_i u same
    simpa [taken] using same.symm

/-- What holds of the result of every round that stops, and is handed back by
every round that goes on, holds of the loop. -/
theorem run_induct (l : Loop σ ρ) {P : σ → ρ → Prop}
    (stops : ∀ s r, l.body s = .stop r → P s r)
    (goes : ∀ s t, l.body s = .again t → P t (l.run t) → P s (l.run t)) (s : σ) :
    P s (l.run s) := by
  generalize size : l.measure s = n
  induction n using Nat.strongRecOn generalizing s with
  | ind n ih =>
    cases taken : l.body s with
    | stop r =>
      rw [l.run_stop taken]
      exact stops s r taken
    | again t =>
      have falls := l.decreases s t taken
      rw [l.run_again taken]
      exact goes s t taken (ih _ (by omega) t rfl)

/-- The states with which the rounds of a run begin. -/
inductive Visits (l : Loop σ ρ) : σ → σ → Prop
  | here (s : σ) : Visits l s s
  | again {s t u : σ} (taken : l.body s = .again t) (later : Visits l t u) : Visits l s u

end Loop

/-- A loop with no measure, given up after so many rounds. -/
def rounds (body : σ → Outcome σ ρ) : ℕ → σ → Option ρ
  | 0, _ => none
  | n + 1, s =>
    match body s with
    | .again t => rounds body n t
    | .stop r => some r

def Leads (body : σ → Outcome σ ρ) (n : ℕ) (s t : σ) : Prop :=
  ∀ k, rounds body (n + k) s = rounds body k t

theorem rounds_again {body : σ → Outcome σ ρ} {s t : σ} (taken : body s = .again t) (n : ℕ) :
    rounds body (n + 1) s = rounds body n t := by
  rw [rounds, taken]

theorem rounds_stop {body : σ → Outcome σ ρ} {s : σ} {r : ρ} (taken : body s = .stop r) (n : ℕ) :
    rounds body (n + 1) s = some r := by
  rw [rounds, taken]

theorem rounds_mono {body : σ → Outcome σ ρ} {n m : ℕ} (le : n ≤ m) {s : σ} {r : ρ}
    (returned : rounds body n s = some r) : rounds body m s = some r := by
  induction n generalizing s m with
  | zero => cases returned
  | succ n ih =>
    obtain ⟨k, rfl⟩ : ∃ k, m = k + 1 := ⟨m - 1, by omega⟩
    unfold rounds at returned ⊢
    split at returned
    · exact ih (by omega) returned
    · exact returned

/-- What every round keeps and every last round turns into a property of the
result holds of a loop with no measure. -/
theorem rounds_invariant {body : σ → Outcome σ ρ} {P : σ → Prop} {Q : ρ → Prop}
    (goes : ∀ s t, P s → body s = .again t → P t) (stops : ∀ s r, P s → body s = .stop r → Q r)
    (n : ℕ) {s : σ} {r : ρ} (start : P s) (returned : rounds body n s = some r) : Q r := by
  induction n generalizing s with
  | zero => cases returned
  | succ n ih =>
    cases taken : body s with
    | again t =>
      rw [rounds_again taken] at returned
      exact ih (goes s t start taken) returned
    | stop u =>
      rw [rounds_stop taken] at returned
      rw [← Option.some.inj returned]
      exact stops s u start taken

theorem rounds_run (l : Loop σ ρ) {n : ℕ} {s : σ} (enough : l.measure s < n) :
    rounds l.body n s = some (l.run s) := by
  induction n generalizing s with
  | zero => omega
  | succ n ih =>
    cases taken : l.body s with
    | again t =>
      have falls := l.decreases s t taken
      rw [rounds_again taken, l.run_again taken]
      exact ih (by omega)
    | stop r => rw [rounds_stop taken, l.run_stop taken]

theorem Loop.Visits.keeps {l : Loop σ ρ} {P : σ → Prop}
    (goes : ∀ s t, P s → l.body s = .again t → P t) {s t : σ} (visits : l.Visits s t)
    (start : P s) : P t := by
  induction visits with
  | here s => exact start
  | again taken _ ih => exact ih (goes _ _ start taken)

namespace Leads

variable {body : σ → Outcome σ ρ} {s t u : σ} {r : ρ} {n m : ℕ}

theorem refl (s : σ) : Leads body 0 s s := by
  intro k
  rw [Nat.zero_add]

theorem one (taken : body s = .again t) : Leads body 1 s t := by
  intro k
  rw [Nat.add_comm, rounds_again taken]

theorem trans (first : Leads body n s t) (second : Leads body m t u) :
    Leads body (n + m) s u := by
  intro k
  rw [Nat.add_assoc, first, second]

theorem stop (leads : Leads body n s t) (taken : body t = .stop r) :
    rounds body (n + 1) s = some r := by
  rw [leads, rounds_stop taken]

/-- A loop that comes back to a state it has been in goes round for ever. -/
theorem circle (leads : Leads body (n + 1) s s) (k : ℕ) : rounds body k s = none := by
  induction k using Nat.strongRecOn with
  | ind k ih =>
    by_cases enough : n + 1 ≤ k
    · rw [show k = n + 1 + (k - (n + 1)) by omega, leads]
      exact ih _ (by omega)
    · cases returned : rounds body k s with
      | none => rfl
      | some r =>
        have later := rounds_mono (show k ≤ n + 1 + 0 by omega) returned
        rw [leads] at later
        cases later

end Leads

theorem rounds_end {body : σ → Outcome σ ρ} (measure : σ → ℕ)
    (falls : ∀ s t, body s = .again t → measure t < measure s) (s : σ) :
    ∃ n r, rounds body n s = some r := by
  let l : Loop σ ρ := ⟨body, measure, falls⟩
  apply l.run_induct (P := fun s _ => ∃ n r, rounds body n s = some r)
  case stops =>
    intro s r taken
    exact ⟨1, r, rounds_stop taken 0⟩
  case goes =>
    intro s t taken later
    obtain ⟨n, r, returned⟩ := later
    exact ⟨n + 1, r, (rounds_again taken n).trans returned⟩

end FastCgiCdn.MeasuredLoop
