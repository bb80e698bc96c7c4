import FastCgiCdn.RangeFor
import Mathlib.Data.List.TakeDrop

/-! A range-for over a vector of pointers whose rounds edit the vector: a round may
take the visited element out and append one in its stead. The end of the loop is
taken before its first round, and a call that erases before it appends never leaves
the memory, so behind the new end of the vector lies what lay there before. -/

namespace FastCgiCdn.Sweep

open RangeFor

variable {α σ : Type}

/-- The vector a call has left behind within its memory. -/
def rewritten (v : Slots α) (live : List α) : Slots α := ⟨live, v.cells.drop live.length⟩

section rewriting

variable {v : Slots α} {new : List α} {a b x : α} {k i : ℕ}

theorem rewritten_same : rewritten v v.live = v := by
  rw [rewritten, Slots.cells, List.drop_left]

theorem rewritten_cells (j : ℕ) : (rewritten v new).cells[j]? =
    if j < new.length then new[j]? else v.cells[j]? := by
  rw [Slots.cells, rewritten]
  dsimp only
  by_cases front : j < new.length
  · rw [if_pos front, List.getElem?_append_left front]
  · rw [if_neg front, List.getElem?_append_right (by omega), List.getElem?_drop]
    congr 1
    omega

theorem le_rewritten_cells : v.cells.length ≤ (rewritten v new).cells.length := by
  have size : (rewritten v new).cells.length = new.length + (v.cells.length - new.length) := by
    rw [rewritten, Slots.cells, List.length_append, List.length_drop]
  omega

variable [DecidableEq α]

/-- What a visit may do: nothing, or take the element out and append a new one at most. -/
def Edits (a : α) (old new : List α) : Prop :=
  new = old ∨ a ∈ old ∧ ∃ added, added.length ≤ 1 ∧ (∀ c ∈ added, c ∉ old) ∧
    new = old.erase a ++ added

theorem Edits.mem (edits : Edits a v.live new) (other : b ≠ a) (member : b ∈ v.live) :
    b ∈ new := by
  obtain rfl | ⟨-, added, -, -, rfl⟩ := edits
  · exact member
  · exact List.mem_append_left _ ((List.mem_erase_of_ne other).mpr member)

theorem Edits.ahead (edits : Edits a v.live new) (distinct : v.live.Nodup)
    (member : x ∈ (rewritten v new).cells.drop (k + 1)) :
    x ∈ v.cells.drop k ∨ x ∈ new ∧ x ∉ v.live := by
  obtain ⟨d, at_d⟩ := List.getElem?_of_mem member
  rw [List.getElem?_drop, rewritten_cells] at at_d
  have old : ∀ {j}, k ≤ j → v.live[j]? = some x → x ∈ v.cells.drop k := by
    intro j low at_j
    have inside := (List.getElem?_eq_some_iff.mp at_j).1
    apply mem_drop_of_getElem? low
    rw [Slots.cells, List.getElem?_append_left inside, at_j]
  split at at_d
  · obtain rfl | ⟨here, added, -, fresh, rfl⟩ := edits
    · exact .inl (old (by omega) at_d)
    · obtain ⟨i, inside, rfl⟩ := List.mem_iff_getElem.mp here
      rw [distinct.erase_getElem i inside] at at_d ⊢
      by_cases front : k + 1 + d < (v.live.eraseIdx i).length
      · rw [List.getElem?_append_left front, List.getElem?_eraseIdx] at at_d
        split at at_d
        · exact .inl (old (by omega) at_d)
        · exact .inl (old (by omega) at_d)
      · rw [List.getElem?_append_right (by omega)] at at_d
        have new := List.mem_of_getElem? at_d
        exact .inr ⟨List.mem_append_right _ new, fresh x new⟩
  · exact .inl (mem_drop_of_getElem? (by omega) at_d)

/-- The element behind one that is taken out moves behind the walk, unless it is the
last and nothing is appended. -/
theorem Edits.passed {old : List α} (edits : Edits a old new) (distinct : old.Nodup)
    (here : old[k]? = some a) (next : old[k + 1]? = some b) (leaves : new ≠ old)
    (early : k + 2 = old.length → old.length ≤ new.length) :
    b ∉ (rewritten ⟨old, []⟩ new).cells.drop (k + 1) := by
  obtain same | ⟨-, added, few, fresh, rfl⟩ := edits
  · exact absurd same leaves
  · have inside := (List.getElem?_eq_some_iff.mp next).1
    have only : ∀ j, old[j]? = some b → j = k + 1 := by
      intro j at_j
      have bound := (List.getElem?_eq_some_iff.mp at_j).1
      exact (List.getElem?_inj bound distinct).mp (at_j.trans next.symm)
    obtain ⟨_, rfl⟩ := List.getElem?_eq_some_iff.mp here
    intro member
    obtain ⟨d, at_d⟩ := List.getElem?_of_mem member
    rw [distinct.erase_getElem] at early at_d
    have size : (old.eraseIdx k).length = old.length - 1 := by
      rw [List.length_eraseIdx, if_pos (by omega)]
    rw [List.length_append, size] at early
    rw [List.getElem?_drop, rewritten_cells, List.length_append, size] at at_d
    split at at_d
    · by_cases front : k + 1 + d < old.length - 1
      · rw [List.getElem?_append_left (by omega), List.getElem?_eraseIdx, if_neg (by omega)] at at_d
        have wrong := only _ at_d
        omega
      · rw [List.getElem?_append_right (by omega)] at at_d
        exact fresh b (List.mem_of_getElem? at_d) (List.mem_of_getElem? next)
    · rw [Slots.cells, List.append_nil] at at_d
      have wrong := only _ at_d
      omega

end rewriting

section rounds

variable (live : σ → List α) (turn : ℕ → α → σ → Option σ)

def sweep : (rounds k : ℕ) → List α → σ → Option (List α × σ)
  | 0, _, _, s => some ([], s)
  | rounds + 1, k, stale, s =>
    (live s ++ stale)[k]?.bind fun a => (turn k a s).bind fun t =>
      (sweep rounds (k + 1) (rewritten ⟨live s, stale⟩ (live t)).stale t).map
        fun (seen, u) => (a :: seen, u)

variable {live turn}

variable {rounds k : ℕ} {stale seen : List α} {s t u : σ} {a b : α}

theorem sweep_succ : sweep live turn (rounds + 1) k stale s = some (seen, u) ↔
    ∃ a t rest, (live s ++ stale)[k]? = some a ∧ turn k a s = some t ∧
      sweep live turn rounds (k + 1) (rewritten ⟨live s, stale⟩ (live t)).stale t =
        some (rest, u) ∧ seen = a :: rest := by
  rw [sweep]
  simp only [Option.bind_eq_some_iff, Option.map_eq_some_iff, Prod.mk.injEq, Prod.exists]
  constructor
  · rintro ⟨a, at_k, t, taken, rest, u, run, rfl, rfl⟩
    exact ⟨a, t, rest, at_k, taken, run, rfl⟩
  · rintro ⟨a, t, rest, at_k, taken, run, rfl⟩
    exact ⟨a, at_k, t, taken, rest, u, run, rfl, rfl⟩

theorem sweep_returns {P : σ → Prop}
    (returns : ∀ k a s, P s → ∃ t, turn k a s = some t ∧ P t) (start : P s)
    (inside : k + rounds ≤ (live s ++ stale).length) :
    ∃ seen u, sweep live turn rounds k stale s = some (seen, u) ∧ P u := by
  induction rounds generalizing k stale s with
  | zero => exact ⟨[], s, rfl, start⟩
  | succ rounds ih =>
    have at_k := List.getElem?_eq_getElem (l := live s ++ stale) (i := k) (by omega)
    obtain ⟨t, taken, still⟩ := returns k (live s ++ stale)[k] s start
    have memory : (live s ++ stale).length ≤
        (rewritten ⟨live s, stale⟩ (live t)).cells.length :=
      le_rewritten_cells (v := ⟨live s, stale⟩)
    obtain ⟨seen, u, run, ends⟩ := ih (k := k + 1) still (Nat.le_trans (by omega) memory)
    exact ⟨_, u, sweep_succ.mpr ⟨_, t, seen, at_k, taken, run, rfl⟩, ends⟩

theorem sweep_keeps {P : σ → Prop} (keeps : ∀ k a s t, P s → turn k a s = some t → P t)
    (start : P s) (run : sweep live turn rounds k stale s = some (seen, u)) : P u := by
  induction rounds generalizing k stale s seen with
  | zero =>
    rw [sweep, Option.some.injEq, Prod.mk.injEq] at run
    exact run.2 ▸ start
  | succ rounds ih =>
    obtain ⟨a, t, rest, -, taken, later, -⟩ := sweep_succ.mp run
    exact ih (keeps k a s t start taken) later

/-- What the elements that may be visited have in common limits what a sweep changes. -/
theorem sweep_frame {P : σ → Prop} {C : α → σ → Prop} {R : σ → σ → Prop}
    (refl : ∀ s, R s s) (trans : ∀ s t u, R s t → R t u → R s u)
    (keeps : ∀ k a s t, P s → C a s → turn k a s = some t → P t ∧ R s t)
    (mono : ∀ a s t, P s → R s t → C a s → C a t) (members : ∀ s, P s → ∀ a ∈ live s, C a s)
    (start : P s) (behind : ∀ a ∈ stale, C a s)
    (run : sweep live turn rounds k stale s = some (seen, u)) :
    P u ∧ R s u ∧ ∀ a ∈ seen, C a u := by
  induction rounds generalizing k stale s seen with
  | zero =>
    rw [sweep, Option.some.injEq, Prod.mk.injEq] at run
    obtain ⟨rfl, rfl⟩ := run
    exact ⟨start, refl s, by simp⟩
  | succ rounds ih =>
    obtain ⟨a, t, rest, at_k, taken, later, rfl⟩ := sweep_succ.mp run
    have cells : ∀ b ∈ live s ++ stale, C b s := by
      intro b member
      exact (List.mem_append.mp member).elim (members s start b) (behind b)
    have own := cells a (List.mem_of_getElem? at_k)
    obtain ⟨still, moved⟩ := keeps k a s t start own taken
    obtain ⟨ends, moves, seen⟩ := ih still (fun b member =>
      mono b s t start moved (cells b (List.mem_of_mem_drop member))) later
    refine ⟨ends, trans s t u moved moves, fun b member => ?_⟩
    obtain rfl | visited := List.mem_cons.mp member
    · exact mono b t u still moves (mono b s t start moved own)
    · exact seen b visited

section once

variable [DecidableEq α]

/-- What the rounds rely on: `next` is what a round makes of the vector, told from the
state before it. A round that leaves the vector alone changes no other's, and no round
keeps another element from leaving. -/
structure Orderly (live : σ → List α) (turn : ℕ → α → σ → Option σ)
    (next : ℕ → α → σ → List α) (P : σ → Prop) : Prop where
  distinct : ∀ s, P s → (live s).Nodup
  keeps : ∀ k a s t, P s → turn k a s = some t → P t
  moves : ∀ k a s t, P s → turn k a s = some t → live t = next k a s
  edits : ∀ k a s, P s → Edits a (live s) (next k a s)
  apart : ∀ k a s t, P s → a ∈ live s → turn k a s = some t → next k a s = live s →
    ∀ j b, b ≠ a → next j b t = next j b s
  leaves : ∀ k a s t, P s → turn k a s = some t → ∀ j b, b ≠ a → b ∈ live s →
    next j b s ≠ live s → next j b t ≠ live t

/-- An element taken out is the last or the one before it, and that one is not replaced. -/
def Regular (live : σ → List α) (next : ℕ → α → σ → List α) (k : ℕ) (s : σ) : Prop :=
  ∀ j a, k ≤ j → (live s)[j]? = some a → j + 2 ≤ (live s).length → next j a s ≠ live s →
    j + 2 = (live s).length ∧ (next j a s).length < (live s).length

variable {next : ℕ → α → σ → List α} {P : σ → Prop}

theorem Orderly.misses (o : Orderly live turn next P) (start : P s) (here : b ∈ live s)
    (passed : b ∉ (live s ++ stale).drop k)
    (run : sweep live turn rounds k stale s = some (seen, u)) : b ∉ seen ∧ b ∈ live u := by
  induction rounds generalizing k stale s seen with
  | zero =>
    rw [sweep, Option.some.injEq, Prod.mk.injEq] at run
    obtain ⟨rfl, rfl⟩ := run
    exact ⟨List.not_mem_nil, here⟩
  | succ rounds ih =>
    obtain ⟨a, t, rest, at_k, taken, later, rfl⟩ := sweep_succ.mp run
    have other : b ≠ a := by
      rintro rfl
      exact passed (mem_drop_of_getElem? (Nat.le_refl k) at_k)
    have edits : Edits a (live s) (live t) := by
      rw [o.moves k a s t start taken]
      exact o.edits k a s start
    have still : b ∈ live t := Edits.mem (v := ⟨live s, stale⟩) edits other here
    have ahead : b ∉ (live t ++ (rewritten ⟨live s, stale⟩ (live t)).stale).drop (k + 1) := by
      intro member
      have before := Edits.ahead (v := ⟨live s, stale⟩) edits (o.distinct s start) member
      exact before.elim passed fun new => new.2 here
    obtain ⟨unseen, ends⟩ := ih (o.keeps k a s t start taken) still ahead later
    rw [List.mem_cons, not_or]
    exact ⟨⟨other, unseen⟩, ends⟩

theorem Orderly.stays (o : Orderly live turn next P) (start : P s) (here : b ∈ live s)
    (run : sweep live turn rounds k stale s = some (seen, u)) (unseen : b ∉ seen) :
    b ∈ live u := by
  induction rounds generalizing k stale s seen with
  | zero =>
    rw [sweep, Option.some.injEq, Prod.mk.injEq] at run
    exact run.2 ▸ here
  | succ rounds ih =>
    obtain ⟨a, t, rest, -, taken, later, rfl⟩ := sweep_succ.mp run
    rw [List.mem_cons, not_or] at unseen
    have edits : Edits a (live s) (live t) := by
      rw [o.moves k a s t start taken]
      exact o.edits k a s start
    exact ih (o.keeps k a s t start taken)
      (Edits.mem (v := ⟨live s, stale⟩) edits unseen.1 here) later unseen.2

theorem Orderly.next_round (o : Orderly live turn next P) (start : P s)
    (run : sweep live turn (rounds + 1) k [] s = some (seen, u)) :
    ∃ a t rest, (live s)[k]? = some a ∧ turn k a s = some t ∧ P t ∧ live t = next k a s ∧
      sweep live turn rounds (k + 1) (rewritten ⟨live s, []⟩ (next k a s)).stale t =
        some (rest, u) ∧ seen = a :: rest := by
  obtain ⟨a, t, rest, at_k, taken, later, rfl⟩ := sweep_succ.mp run
  have moved := o.moves k a s t start taken
  rw [List.append_nil] at at_k
  rw [moved] at later
  exact ⟨a, t, rest, at_k, taken, o.keeps k a s t start taken, moved, later, rfl⟩

theorem Orderly.regular_succ (o : Orderly live turn next P) (start : P s)
    (at_k : (live s)[k]? = some a) (taken : turn k a s = some t) (same : next k a s = live s) :
    Regular live next k s ↔ Regular live next (k + 1) t := by
  have moved : live t = live s := (o.moves k a s t start taken).trans same
  have apart := o.apart k a s t start (List.mem_of_getElem? at_k) taken same
  have bound := (List.getElem?_eq_some_iff.mp at_k).1
  have others : ∀ j b, k + 1 ≤ j → (live s)[j]? = some b → b ≠ a := by
    rintro j b low at_j rfl
    have wrong := (List.getElem?_inj bound (o.distinct s start)).mp (at_k.trans at_j.symm)
    omega
  constructor
  · intro regular j b low at_j early leaves
    rw [moved] at at_j early leaves ⊢
    rw [apart j b (others j b low at_j)] at leaves ⊢
    exact regular j b (by omega) at_j early leaves
  · intro regular j b low at_j early leaves
    rcases Nat.eq_or_lt_of_le low with rfl | later
    · obtain rfl := Option.some_inj.mp (at_k.symm.trans at_j)
      exact absurd same leaves
    · have step := regular j b later
      rw [moved, apart j b (others j b later at_j)] at step
      exact step at_j early leaves

theorem Orderly.visits (o : Orderly live turn next P) (start : P s)
    (span : k + rounds = (live s).length) (regular : Regular live next k s)
    (run : sweep live turn rounds k [] s = some (seen, u)) : seen = (live s).drop k := by
  induction rounds generalizing k s seen with
  | zero =>
    rw [sweep, Option.some.injEq, Prod.mk.injEq] at run
    rw [← run.1, List.drop_eq_nil_of_le (by omega)]
  | succ rounds ih =>
    obtain ⟨a, t, rest, at_k, taken, still, moved, later, rfl⟩ := o.next_round start run
    obtain ⟨inside, rfl⟩ := List.getElem?_eq_some_iff.mp at_k
    rw [List.drop_eq_getElem_cons inside]
    congr 1
    by_cases same : next k (live s)[k] s = live s
    · have settled : live t = live s := moved.trans same
      rw [same, rewritten_same (v := ⟨live s, []⟩)] at later
      rw [← settled]
      exact ih still (by rw [settled]; omega)
        ((o.regular_succ start at_k taken same).mp regular) later
    · cases rounds with
      | zero =>
        rw [sweep, Option.some.injEq, Prod.mk.injEq] at later
        rw [← later.1, List.drop_eq_nil_of_le (by omega)]
      | succ rounds =>
        obtain ⟨last, shorter⟩ := regular k _ (Nat.le_refl k) at_k (by omega) same
        -- One round is left, behind the new end, where the last element still lies.
        obtain rfl : rounds = 0 := by omega
        obtain ⟨b, _, nothing, behind, -, done, rfl⟩ := sweep_succ.mp later
        rw [sweep, Option.some.injEq, Prod.mk.injEq] at done
        have cell : (rewritten ⟨live s, []⟩ (next k (live s)[k] s)).cells[k + 1]? = some b := by
          rw [← behind, moved]
          rfl
        rw [rewritten_cells, if_neg (by omega), Slots.cells, List.append_nil] at cell
        change (live s)[k + 1]? = some b at cell
        obtain ⟨second, rfl⟩ := List.getElem?_eq_some_iff.mp cell
        rw [List.drop_eq_getElem_cons second, ← done.1, List.drop_eq_nil_of_le (by omega)]

/-- Where it is not, one of the elements is never visited. -/
theorem Orderly.passes (o : Orderly live turn next P) (start : P s)
    (span : k + rounds = (live s).length) (irregular : ¬Regular live next k s)
    (run : sweep live turn rounds k [] s = some (seen, u)) :
    ∃ b ∈ (live s).drop k, b ∉ seen := by
  induction rounds generalizing k s seen with
  | zero =>
    exfalso
    apply irregular
    intro j a low at_j early
    omega
  | succ rounds ih =>
    obtain ⟨a, t, rest, at_k, taken, still, moved, later, rfl⟩ := o.next_round start run
    have distinct := o.distinct s start
    obtain ⟨inside, rfl⟩ := List.getElem?_eq_some_iff.mp at_k
    have gone := getElem_notMem_drop distinct inside
    by_cases same : next k (live s)[k] s = live s
    · have settled : live t = live s := moved.trans same
      rw [same, rewritten_same (v := ⟨live s, []⟩)] at later
      obtain ⟨b, member, unseen⟩ := ih still (by rw [settled]; omega)
        (mt (o.regular_succ start at_k taken same).mpr irregular) later
      rw [settled] at member
      refine ⟨b, ?_, ?_⟩
      · rw [List.drop_eq_getElem_cons inside]
        exact List.mem_cons_of_mem _ member
      · rw [List.mem_cons, not_or]
        exact ⟨fun own => gone (own ▸ member), unseen⟩
    · -- The next element moves to the place that the walk has just left.
      have two : k + 2 ≤ (live s).length := by
        by_contra last
        apply irregular
        intro j a low at_j early
        omega
      have full : k + 2 = (live s).length →
          (live s).length ≤ (next k (live s)[k] s).length := by
        intro last
        by_contra shorter
        apply irregular
        intro j a low at_j early leaves
        obtain rfl : j = k := by omega
        obtain rfl := Option.some_inj.mp (at_k.symm.trans at_j)
        exact ⟨last, by omega⟩
      have second : (live s)[k + 1]? = some (live s)[k + 1] := List.getElem?_eq_getElem (by omega)
      have ahead : (live s)[k + 1] ∈ (live s).drop (k + 1) :=
        mem_drop_of_getElem? (Nat.le_refl _) second
      have other : (live s)[k + 1] ≠ (live s)[k] := by
        intro own
        exact gone (own ▸ ahead)
      have edits := o.edits k (live s)[k] s start
      have here : (live s)[k + 1] ∈ live t := by
        rw [moved]
        exact Edits.mem (v := ⟨live s, []⟩) edits other (List.mem_of_getElem? second)
      have unseen := (o.misses still here (by
        rw [moved]
        exact edits.passed distinct at_k second same full) later).1
      refine ⟨(live s)[k + 1], ?_, ?_⟩
      · rw [List.drop_eq_getElem_cons inside]
        exact List.mem_cons_of_mem _ ahead
      · rw [List.mem_cons, not_or]
        exact ⟨other, unseen⟩

theorem Orderly.once_iff (o : Orderly live turn next P) (start : P s)
    (run : sweep live turn (live s).length 0 [] s = some (seen, u)) :
    (∀ b ∈ live s, seen.count b = 1) ↔ Regular live next 0 s := by
  constructor
  · intro once
    by_contra irregular
    obtain ⟨b, member, unseen⟩ := o.passes start (Nat.zero_add _) irregular run
    have count := once b member
    rw [List.count_eq_zero.mpr unseen] at count
    cases count
  · intro regular b member
    rw [o.visits start (Nat.zero_add _) regular run]
    exact List.count_eq_one_of_mem (o.distinct s start) member

theorem Orderly.settles (o : Orderly live turn next P) {Q : σ → Prop}
    (stable : ∀ j b s t, P s → Q s → turn j b s = some t → Q t) {j : ℕ}
    (settles : ∀ s t, P s → next j a s ≠ live s → turn j a s = some t → Q t)
    (start : P s) (span : k + rounds = (live s).length) (regular : Regular live next k s)
    (low : k ≤ j) (at_j : (live s)[j]? = some a) (leaves : next j a s ≠ live s)
    (run : sweep live turn rounds k [] s = some (seen, u)) : Q u := by
  have both : ∀ j b s t, P s ∧ Q s → turn j b s = some t → P t ∧ Q t :=
    fun j b s t held taken => ⟨o.keeps j b s t held.1 taken, stable j b s t held.1 held.2 taken⟩
  have bound := (List.getElem?_eq_some_iff.mp at_j).1
  induction rounds generalizing k s seen with
  | zero => omega
  | succ rounds ih =>
    obtain ⟨b, t, rest, at_k, taken, still, moved, later, rfl⟩ := o.next_round start run
    rcases Nat.eq_or_lt_of_le low with rfl | higher
    · obtain rfl := Option.some_inj.mp (at_k.symm.trans at_j)
      exact (sweep_keeps both ⟨still, settles s t start leaves taken⟩ later).2
    · have other : a ≠ b := by
        rintro rfl
        have wrong := (List.getElem?_inj bound (o.distinct s start)).mp (at_j.trans at_k.symm)
        omega
      have leaves' := o.leaves k b s t start taken j a other (List.mem_of_getElem? at_j) leaves
      by_cases same : next k b s = live s
      · have settled : live t = live s := moved.trans same
        rw [same, rewritten_same (v := ⟨live s, []⟩)] at later
        exact ih still (by rw [settled]; omega) ((o.regular_succ start at_k taken same).mp regular)
          higher (by rw [settled]; exact at_j) leaves' later (by rw [settled]; exact bound)
      · obtain ⟨last, shorter⟩ := regular k b (Nat.le_refl k) at_k (by omega) same
        obtain rfl : j = k + 1 := by omega
        obtain rfl : rounds = 1 := by omega
        obtain ⟨c, t', _, behind, taken', done, -⟩ := sweep_succ.mp later
        have cell : (rewritten ⟨live s, []⟩ (next k b s)).cells[k + 1]? = some c := by
          rw [← behind, moved]
          rfl
        rw [rewritten_cells, if_neg (by omega), Slots.cells, List.append_nil] at cell
        obtain rfl := Option.some_inj.mp (at_j.symm.trans cell)
        rw [sweep, Option.some.injEq, Prod.mk.injEq] at done
        rw [← done.2]
        exact settles t t' still leaves' taken'

end once

end rounds

end FastCgiCdn.Sweep
