import Mathlib.Logic.Basic
import Mathlib.Data.List.Basic

/-! Runs of a labelled transition relation whose steps each meet a condition on
the label and on the state before the step, and the rules that carry an
invariant along them. Nothing here knows what the states or the labels are. -/

namespace FastCgiCdn.GuardedRuns

variable {ι σ : Type*} {step : ι → σ → σ → Prop} {ok ok' : ι → σ → Prop} {init : σ → Prop}

/-- The states reached from `init` by steps that each meet `ok`. -/
inductive Reach (step : ι → σ → σ → Prop) (ok : ι → σ → Prop) (init : σ → Prop) : σ → Prop
  | start {s : σ} : init s → Reach step ok init s
  | next {s t : σ} {e : ι} : Reach step ok init s → ok e s → step e s t → Reach step ok init t

def anyStep : ι → σ → Prop := fun _ _ => True

/-- A property of the initial states that every admitted step preserves holds
in every state reached. -/
theorem Reach.invariant {P : σ → Prop} (base : ∀ s, init s → P s)
    (preserved : ∀ e s t, P s → ok e s → step e s t → P t)
    {s : σ} (reached : Reach step ok init s) : P s := by
  induction reached with
  | start first => exact base _ first
  | next _ admitted taken ih => exact preserved _ _ _ ih admitted taken

theorem Reach.mono (weaker : ∀ e s, ok e s → ok' e s) {s : σ}
    (reached : Reach step ok init s) : Reach step ok' init s := by
  induction reached with
  | start first => exact .start first
  | next _ admitted taken ih => exact .next ih (weaker _ _ admitted) taken

/-- Following a list of labels with a step function. -/
def follow (next : ι → σ → Option σ) : List ι → σ → Option σ
  | [], s => some s
  | e :: es, s => (next e s).bind (follow next es)

theorem reach_follow {next : ι → σ → Option σ} {s t : σ} (es : List ι)
    (reached : Reach (fun e s t => next e s = some t) anyStep init s)
    (followed : follow next es s = some t) :
    Reach (fun e s t => next e s = some t) anyStep init t := by
  induction es generalizing s with
  | nil =>
    obtain rfl : s = t := by simpa [follow] using followed
    exact reached
  | cons e es ih =>
    obtain ⟨middle, taken, rest⟩ := Option.bind_eq_some_iff.mp followed
    exact ih (.next reached trivial taken) rest

/-- Each step along the labels satisfies `Q`. -/
def Along (step : ι → σ → σ → Prop) (Q : ι → σ → σ → Prop) : List ι → σ → Prop
  | [], _ => True
  | e :: es, s => ∀ t, step e s t → Q e s t ∧ Along step Q es t

theorem along_iff_of_invariant {I P : σ → Prop} (keeps : ∀ e s t, I s → step e s t → I t)
    (exact : ∀ e s t, I s → P s → step e s t → (P t ↔ ok e s)) (es : List ι) {s : σ}
    (invariant : I s) (base : P s) :
    Along step (fun _ _ t => P t) es s ↔ Along step (fun e s _ => ok e s) es s := by
  induction es generalizing s with
  | nil => rfl
  | cons e es ih =>
    constructor
    · intro held t taken
      have here := (held t taken).1
      have rest := ih (keeps e s t invariant taken) here
      exact ⟨(exact e s t invariant base taken).mp here, rest.mp (held t taken).2⟩
    · intro admitted t taken
      have here := (exact e s t invariant base taken).mpr (admitted t taken).1
      have rest := ih (keeps e s t invariant taken) here
      exact ⟨here, rest.mpr (admitted t taken).2⟩

theorem along_states {Q : ι → σ → σ → Prop} {es : List ι} {s : ℕ → σ}
    (unique : ∀ e s t t', step e s t → step e s t' → t' = t)
    (steps : ∀ n e, es[n]? = some e → step e (s n) (s (n + 1))) :
    Along step Q es (s 0) ↔ ∀ n e, es[n]? = some e → Q e (s n) (s (n + 1)) := by
  induction es generalizing s with
  | nil => simp [Along]
  | cons e es ih =>
    have first := steps 0 e rfl
    have rest := ih (s := fun n => s (n + 1)) fun n e' found => steps (n + 1) e' found
    constructor
    · intro along n e' found
      obtain ⟨here, later⟩ := along _ first
      cases n with
      | zero =>
        obtain rfl := Option.some_inj.mp found
        exact here
      | succ n => exact rest.mp later n e' found
    · intro holds t taken
      obtain rfl := unique _ _ _ _ first taken
      exact ⟨holds 0 e rfl, rest.mpr fun n e' found => holds (n + 1) e' found⟩

end FastCgiCdn.GuardedRuns
