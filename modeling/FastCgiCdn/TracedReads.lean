import FastCgiCdn.MeasuredLoop

/-! Computations that look into a buffer, with the places they have looked at. The code of
a parser is written a second time with these reads, and what it returns is shown to be
what the plain code returns. -/

namespace FastCgiCdn.TracedReads

open MeasuredLoop

variable {α β σ ρ : Type*} {n : ℕ}

structure Traced (α : Type*) where
  val : α
  seen : List ℕ

namespace Traced

def bind (x : Traced α) (f : α → Traced β) : Traced β := ⟨(f x.val).val, x.seen ++ (f x.val).seen⟩

instance : Monad Traced where
  pure a := ⟨a, []⟩
  bind := bind

def Inside (n : ℕ) (x : Traced α) : Prop := ∀ i ∈ x.seen, i < n

end Traced

open Traced

universe u

section Basic

variable {γ δ : Type u}

@[simp] theorem val_pure (a : γ) : (pure a : Traced γ).val = a := rfl

@[simp] theorem val_bind (x : Traced γ) (f : γ → Traced δ) : (x >>= f).val = (f x.val).val := rfl

@[simp] theorem val_ite (c : Prop) [Decidable c] (x y : Traced γ) :
    (if c then x else y).val = if c then x.val else y.val :=
  apply_ite _ _ _ _

theorem inside_pure (a : γ) : (pure a : Traced γ).Inside n :=
  fun _ member => absurd member List.not_mem_nil

theorem inside_bind (x : Traced γ) (f : γ → Traced δ) :
    (x >>= f).Inside n ↔ x.Inside n ∧ (f x.val).Inside n :=
  List.forall_mem_append

theorem inside_then {x : Traced γ} {f : γ → Traced δ} (first : x.Inside n)
    (rest : (f x.val).Inside n) : (x >>= f).Inside n :=
  (inside_bind x f).mpr ⟨first, rest⟩

theorem inside_bind_left {x : Traced γ} (f : γ → Traced δ) (first : x.Inside n) :
    (x >>= f).Inside n ↔ (f x.val).Inside n :=
  (inside_bind x f).trans (and_iff_right first)

def bindSome (x : Traced (Option γ)) (f : γ → Traced (Option δ)) : Traced (Option δ) := do
  let read ← x
  match read with
  | none => pure none
  | some a => f a

theorem val_bindSome (x : Traced (Option γ)) (f : γ → Traced (Option δ)) :
    (bindSome x f).val = x.val.bind fun a => (f a).val := by
  unfold bindSome
  rw [val_bind]
  cases x.val <;> rfl

theorem inside_bindSome {x : Traced (Option γ)} {f : γ → Traced (Option δ)} (first : x.Inside n)
    (rest : ∀ a, (f a).Inside n) : (bindSome x f).Inside n := by
  refine inside_then first ?_
  split
  · exact inside_pure _
  · exact rest _

end Basic

def look (buffer : ℕ → α) (pos count : ℕ) : Traced (List α) :=
  ⟨(List.range' pos count).map buffer, List.range' pos count⟩

theorem inside_look {buffer : ℕ → α} {pos count : ℕ} (some_read : 0 < count) :
    (look buffer pos count).Inside n ↔ pos + count ≤ n := by
  constructor
  · intro inside
    have last := inside (pos + (count - 1)) (List.mem_range'_1.mpr (by omega))
    omega
  · intro fits i member
    have bounds := List.mem_range'_1.mp member
    omega

theorem inside_look_front {buffer : ℕ → α} {pos count : ℕ} (front : pos ≤ n) :
    (look buffer pos count).Inside n ↔ pos + count ≤ n := by
  cases count with
  | zero => exact iff_of_true (fun _ member => absurd member List.not_mem_nil) front
  | succ count => exact inside_look (Nat.succ_pos count)

def peek (buffer : ℕ → α) (pos : ℕ) : Traced α := ⟨buffer pos, [pos]⟩

theorem inside_peek {buffer : ℕ → α} {pos : ℕ} : (peek buffer pos).Inside n ↔ pos < n :=
  List.forall_mem_singleton

/-- Nothing but the places that are told matters for what is returned. -/
def Honest (f : (ℕ → α) → Traced β) : Prop :=
  ∀ buffer other, (∀ i ∈ (f buffer).seen, other i = buffer i) → f other = f buffer

theorem honest_look (pos count : ℕ) : Honest fun buffer : ℕ → α => look buffer pos count := by
  intro buffer other same
  exact congrArg (Traced.mk · _) (List.map_congr_left same)

theorem honest_peek (pos : ℕ) : Honest fun buffer : ℕ → α => peek buffer pos := by
  intro buffer other same
  exact congrArg (Traced.mk · _) (same pos (List.mem_singleton.mpr rfl))

theorem honest_const (x : Traced β) : Honest fun _ : ℕ → α => x := fun _ _ _ => rfl

theorem honest_ite {f g : (ℕ → α) → Traced β} (c : Prop) [Decidable c] (first : Honest f)
    (second : Honest g) : Honest fun buffer => if c then f buffer else g buffer := by
  split
  · exact first
  · exact second

theorem honest_bind {γ δ : Type u} {f : (ℕ → α) → Traced γ} {g : (ℕ → α) → γ → Traced δ}
    (first : Honest f) (rest : ∀ a, Honest fun buffer => g buffer a) :
    Honest fun buffer => f buffer >>= g buffer := by
  intro buffer other same
  have members := List.forall_mem_append.mp same
  have begun : f other = f buffer := first buffer other members.1
  have ended : g other (f buffer).val = g buffer (f buffer).val :=
    rest (f buffer).val buffer other members.2
  change f other >>= g other = f buffer >>= g buffer
  rw [begun]
  exact congrArg (fun last => Traced.mk last.val ((f buffer).seen ++ last.seen)) ended

theorem honest_bindSome {γ δ : Type u} {f : (ℕ → α) → Traced (Option γ)}
    {g : (ℕ → α) → γ → Traced (Option δ)} (first : Honest f) (rest : ∀ a, Honest fun buffer => g buffer a) :
    Honest fun buffer => bindSome (f buffer) (g buffer) := by
  refine honest_bind first fun read => ?_
  cases read with
  | none => exact honest_const _
  | some a => exact rest a

theorem Honest.agrees {f : (ℕ → α) → Traced β} (honest : Honest f) {buffer other : ℕ → α}
    (inside : (f buffer).Inside n) (same : ∀ i < n, other i = buffer i) : f other = f buffer :=
  honest buffer other fun i member => same i (inside i member)

structure TracedLoop (σ ρ : Type*) where
  body : σ → Traced (Outcome σ ρ)
  measure : σ → ℕ
  decreases : ∀ s t, (body s).val = .again t → measure t < measure s

namespace TracedLoop

variable (l : TracedLoop σ ρ) {s t : σ}

def plain : Loop σ ρ := ⟨fun s => (l.body s).val, l.measure, l.decreases⟩

def seenFrom : ℕ → σ → List ℕ
  | 0, _ => []
  | rounds + 1, s => (l.body s).seen ++
      match (l.body s).val with
      | .again t => seenFrom rounds t
      | .stop _ => []

def run (s : σ) : Traced ρ := ⟨l.plain.run s, l.seenFrom (l.measure s + 1) s⟩

theorem plain_eq {k : Loop σ ρ} (bodies : ∀ s, (l.body s).val = k.body s)
    (measures : l.measure = k.measure) : l.plain = k := by
  have same : (fun s => (l.body s).val) = k.body := funext bodies
  cases k
  subst same measures
  rfl

theorem seenFrom_enough {rounds more : ℕ} (enough : l.measure s < rounds)
    (sufficient : l.measure s < more) : l.seenFrom rounds s = l.seenFrom more s := by
  induction rounds generalizing s more with
  | zero => exact absurd enough (Nat.not_lt_zero _)
  | succ rounds ih =>
    cases more with
    | zero => exact absurd sufficient (Nat.not_lt_zero _)
    | succ more =>
      rw [seenFrom, seenFrom]
      cases taken : (l.body s).val with
      | stop r => rfl
      | again t =>
        have falls := l.decreases s t taken
        dsimp only
        rw [ih (by omega) (show l.measure t < more by omega)]

theorem run_again (taken : (l.body s).val = .again t) :
    l.run s = ⟨(l.run t).val, (l.body s).seen ++ (l.run t).seen⟩ := by
  have falls := l.decreases s t taken
  unfold run
  rw [l.plain.run_again taken, seenFrom, taken]
  dsimp only
  rw [l.seenFrom_enough falls (Nat.lt_succ_self _)]

theorem run_stop {r : ρ} (taken : (l.body s).val = .stop r) : l.run s = ⟨r, (l.body s).seen⟩ := by
  unfold run
  rw [l.plain.run_stop taken, seenFrom, taken]
  dsimp only
  rw [List.append_nil]

theorem inside_run : (l.run s).Inside n ↔ ∀ t, l.plain.Visits s t → (l.body t).Inside n := by
  induction size : l.measure s using Nat.strongRecOn generalizing s with
  | ind size ih =>
    cases taken : (l.body s).val with
    | again t =>
      have falls := l.decreases s t taken
      have later := ih (l.measure t) (by omega) rfl
      rw [l.run_again taken]
      constructor
      · intro inside u visited
        have split := List.forall_mem_append.mp inside
        cases visited with
        | here => exact split.1
        | again taken' visited =>
          obtain rfl := Outcome.again.inj (taken.symm.trans taken')
          exact later.mp split.2 u visited
      · intro rounds
        exact List.forall_mem_append.mpr
          ⟨rounds s (.here s), later.mpr fun u visited => rounds u (.again taken visited)⟩
    | stop r =>
      rw [l.run_stop taken]
      constructor
      · intro inside u visited
        cases visited with
        | here => exact inside
        | again taken' visited => cases taken.symm.trans taken'
      · exact fun rounds => rounds s (.here s)

theorem honest_run {l : (ℕ → α) → TracedLoop σ ρ}
    (bodies : ∀ s, Honest fun buffer => (l buffer).body s) (s : σ) :
    Honest fun buffer => (l buffer).run s := by
  intro buffer other
  induction size : (l buffer).measure s using Nat.strongRecOn generalizing s with
  | ind size ih =>
    intro same
    dsimp only at same ⊢
    cases taken : ((l buffer).body s).val with
    | again t =>
      rw [(l buffer).run_again taken] at same ⊢
      have split := List.forall_mem_append.mp same
      have round : (l other).body s = (l buffer).body s := bodies s buffer other split.1
      have falls := (l buffer).decreases s t taken
      have later : (l other).run t = (l buffer).run t := ih _ (by omega) t rfl split.2
      rw [(l other).run_again ((congrArg Traced.val round).trans taken), round, later]
    | stop r =>
      rw [(l buffer).run_stop taken] at same ⊢
      have round : (l other).body s = (l buffer).body s := bodies s buffer other same
      rw [(l other).run_stop ((congrArg Traced.val round).trans taken), round]

end TracedLoop

end FastCgiCdn.TracedReads
