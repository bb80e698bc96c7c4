import Mathlib.Data.List.Nodup
import Mathlib.Logic.Function.Basic

/-! A range-for over a vector of pointers from which the visited objects take
themselves out. The end of the loop is taken before its first round. An erasure
moves the elements behind it one place down and leaves the last place as it was,
so the memory between the first element and the old end is never short of a
value to read. A walk by index that erases where it stands passes over every
second element. -/

namespace FastCgiCdn.RangeFor

variable {α τ : Type}

theorem getElem_notMem_drop {l : List α} {k : ℕ} (unique : l.Nodup) (inside : k < l.length) :
    l[k] ∉ l.drop (k + 1) := by
  have rest := unique.sublist (List.drop_sublist k l)
  rw [List.drop_eq_getElem_cons inside] at rest
  exact (List.nodup_cons.mp rest).1

theorem mem_drop_of_getElem? {l : List α} {k j : ℕ} {a : α} (low : k ≤ j)
    (at_j : l[j]? = some a) : a ∈ l.drop k := by
  apply List.mem_of_getElem? (i := j - k)
  rw [List.getElem?_drop, Nat.add_sub_cancel' low]
  exact at_j

/-- A vector, and what lies in its memory behind the last element. -/
structure Slots (α : Type) where
  live : List α
  stale : List α

namespace Slots

variable (v : Slots α)

def cells : List α := v.live ++ v.stale

def erase (i : ℕ) : Slots α :=
  if i < v.live.length then ⟨v.live.eraseIdx i, v.live.getLast?.toList ++ v.stale⟩ else v

def clear : Slots α := ⟨[], v.cells⟩

def push (a : α) : Slots α := ⟨v.live ++ [a], v.stale.tail⟩

theorem erase_live {i : ℕ} (inside : i < v.live.length) : (v.erase i).live = v.live.eraseIdx i := by
  simp [erase, inside]

theorem erase_size_le (i : ℕ) : (v.erase i).live.length ≤ v.live.length := by
  unfold erase
  split
  · exact List.length_eraseIdx_le _ _
  · exact Nat.le_refl _

theorem erase_cells {i : ℕ} (inside : i < v.live.length) (j : ℕ) :
    (v.erase i).cells[j]? =
      if i ≤ j ∧ j + 1 < v.live.length then v.cells[j + 1]? else v.cells[j]? := by
  have last : v.live.getLast? = some (v.live[v.live.length - 1]) := by
    rw [List.getLast?_eq_getElem?, List.getElem?_eq_getElem (by omega)]
  have size : (v.live.eraseIdx i).length = v.live.length - 1 := by
    rw [List.length_eraseIdx, if_pos inside]
  simp only [erase, inside, if_true, cells, last, Option.toList_some]
  by_cases front : j < v.live.length - 1
  · rw [List.getElem?_append_left (by omega), List.getElem?_eraseIdx]
    by_cases before : j < i
    · rw [if_pos before, if_neg (by omega), List.getElem?_append_left (by omega)]
    · rw [if_neg before, if_pos (by omega), List.getElem?_append_left (by omega)]
  · rw [if_neg (by omega), List.getElem?_append_right (by omega), size]
    by_cases behind : j = v.live.length - 1
    · subst behind
      have kept : (v.live ++ v.stale)[v.live.length - 1]? = some v.live[v.live.length - 1] := by
        rw [List.getElem?_append_left (by omega), List.getElem?_eq_getElem (by omega)]
      rw [kept]
      simp
    · obtain ⟨d, rfl⟩ : ∃ d, j = v.live.length + d := ⟨j - v.live.length, by omega⟩
      have kept : (v.live ++ v.stale)[v.live.length + d]? = v.stale[d]? := by
        rw [List.getElem?_append_right (by omega), Nat.add_sub_cancel_left]
      have place : v.live.length + d - (v.live.length - 1) = d + 1 := by omega
      rw [kept, place]
      simp

theorem erase_cells_back {i j : ℕ} (back : v.live.length ≤ j + 1) :
    (v.erase i).cells[j]? = v.cells[j]? := by
  by_cases inside : i < v.live.length
  · rw [v.erase_cells inside, if_neg (by omega)]
  · simp [erase, inside]

theorem erase_nodup {i : ℕ} (distinct : v.live.Nodup) : (v.erase i).live.Nodup := by
  unfold erase
  split
  · exact distinct.sublist (List.eraseIdx_sublist _ _)
  · exact distinct

section Remove

variable [DecidableEq α] (a : α)

/-- Erases every place that holds the value, from a place on. -/
def removeFrom : (rounds i : ℕ) → Slots α → Slots α
  | 0, _, v => v
  | rounds + 1, i, v =>
    if v.live[i]? = some a then removeFrom rounds i (v.erase i) else removeFrom rounds (i + 1) v

def remove : Slots α := removeFrom a v.live.length 0 v

variable {v} {a}

theorem removeFrom_absent {i : ℕ} (absent : ∀ j, i ≤ j → v.live[j]? ≠ some a) (rounds : ℕ) :
    removeFrom a rounds i v = v := by
  induction rounds generalizing i with
  | zero => rfl
  | succ rounds ih =>
    unfold removeFrom
    rw [if_neg (absent i (Nat.le_refl i))]
    apply ih
    intro j le
    exact absent j (by omega)

theorem removeFrom_present {p : ℕ} (distinct : v.live.Nodup) (found : v.live[p]? = some a)
    {rounds i : ℕ} (before : i ≤ p) (enough : p < i + rounds) :
    removeFrom a rounds i v = v.erase p := by
  induction rounds generalizing i with
  | zero => omega
  | succ rounds ih =>
    have inside : p < v.live.length := (List.getElem?_eq_some_iff.mp found).1
    have unique : ∀ j, v.live[j]? = some a → j = p := by
      intro j same
      have bound := (List.getElem?_eq_some_iff.mp same).1
      exact (List.getElem?_inj bound distinct).mp (same.trans found.symm)
    unfold removeFrom
    by_cases here : i = p
    · subst here
      rw [if_pos found]
      apply removeFrom_absent
      intro j _
      rw [v.erase_live inside, List.getElem?_eraseIdx]
      split
      · rename_i lt
        intro same
        exact absurd (unique j same) (by omega)
      · intro same
        exact absurd (unique _ same) (by omega)
    · rw [if_neg fun same => here (unique i same)]
      exact ih (by omega) (by omega)

theorem remove_absent (absent : a ∉ v.live) : v.remove a = v := by
  apply removeFrom_absent
  intro j _ same
  exact absent (List.mem_of_getElem? same)

theorem remove_present {p : ℕ} (distinct : v.live.Nodup) (found : v.live[p]? = some a) :
    v.remove a = v.erase p := by
  apply removeFrom_present distinct found (Nat.zero_le p)
  have inside := (List.getElem?_eq_some_iff.mp found).1
  omega

theorem remove_cases (a : α) (distinct : v.live.Nodup) :
    v.remove a = v ∨ ∃ p, v.live[p]? = some a ∧ v.remove a = v.erase p := by
  by_cases here : a ∈ v.live
  · obtain ⟨p, found⟩ := List.getElem?_of_mem here
    exact .inr ⟨p, found, remove_present distinct found⟩
  · exact .inl (remove_absent here)

end Remove

end Slots

structure Fan (α τ : Type) where
  slots : Slots α
  state : α → τ

section Loop

variable [DecidableEq α] (linked : τ → Bool) (f : α → τ → τ)

/-- A round. An object that lets go of its link takes itself out of the vector. -/
def visit (a : α) (w : Fan α τ) : Fan α τ :=
  { slots := if linked (w.state a) && !linked (f a (w.state a)) then w.slots.remove a else w.slots
    state := Function.update w.state a (f a (w.state a)) }

/-- The rounds from a place on, with what they visit. -/
def walk : (rounds k : ℕ) → Fan α τ → Fan α τ × List α
  | 0, _, w => (w, [])
  | rounds + 1, k, w =>
    match w.slots.cells[k]? with
    | none => (w, [])
    | some a =>
      let r := walk rounds (k + 1) (visit linked f a w)
      (r.1, a :: r.2)

def loop (w : Fan α τ) : Fan α τ × List α := walk linked f w.slots.live.length 0 w

/-- Every object before the last two keeps its link in its own round. -/
def Steady (w : Fan α τ) : Prop :=
  ∀ k a, w.slots.live[k]? = some a → k + 2 < w.slots.live.length →
    linked (f a (w.state a)) = true

variable {linked} {f} {a b : α} {w : Fan α τ}

theorem walk_some {k rounds : ℕ} (here : w.slots.cells[k]? = some a) :
    walk linked f (rounds + 1) k w =
      ((walk linked f rounds (k + 1) (visit linked f a w)).1,
        a :: (walk linked f rounds (k + 1) (visit linked f a w)).2) := by
  simp only [walk, here]

theorem visit_slots_cases (distinct : w.slots.live.Nodup) :
    (visit linked f a w).slots = w.slots ∨
      ∃ p, w.slots.live[p]? = some a ∧ (visit linked f a w).slots = w.slots.erase p := by
  simp only [visit]
  split
  · exact Slots.remove_cases a distinct
  · exact .inl rfl

theorem visit_distinct (distinct : w.slots.live.Nodup) :
    (visit linked f a w).slots.live.Nodup := by
  rcases visit_slots_cases (f := f) (a := a) distinct with same | ⟨p, -, erased⟩
  · rw [same]
    exact distinct
  · rw [erased]
    exact w.slots.erase_nodup distinct

theorem visit_size_le (distinct : w.slots.live.Nodup) :
    (visit linked f a w).slots.live.length ≤ w.slots.live.length := by
  rcases visit_slots_cases (f := f) (a := a) distinct with same | ⟨p, -, erased⟩
  · exact Nat.le_of_eq (congrArg (fun v => v.live.length) same)
  · rw [erased]
    exact w.slots.erase_size_le p

theorem visit_cells_back (distinct : w.slots.live.Nodup) {j : ℕ}
    (back : w.slots.live.length ≤ j + 1) :
    (visit linked f a w).slots.cells[j]? = w.slots.cells[j]? := by
  rcases visit_slots_cases (f := f) (a := a) distinct with same | ⟨p, -, erased⟩
  · rw [same]
  · rw [erased]
    exact w.slots.erase_cells_back back

theorem visit_stays (stays : linked (f a (w.state a)) = true) :
    (visit linked f a w).slots = w.slots := by
  simp [visit, stays]

theorem visit_state_ne (other : b ≠ a) : (visit linked f a w).state b = w.state b := by
  simp [visit, other]

theorem walk_misses {rounds k n : ℕ} (span : k + rounds = n) (distinct : w.slots.live.Nodup)
    (size : w.slots.live.length ≤ n)
    (absent : ∀ j, k ≤ j → j < n → w.slots.cells[j]? ≠ some b) :
    b ∉ (walk linked f rounds k w).2 ∧ (walk linked f rounds k w).1.state b = w.state b := by
  induction rounds generalizing k w with
  | zero => simp [walk]
  | succ rounds ih =>
    cases here : w.slots.cells[k]? with
    | none => simp [walk, here]
    | some a =>
      have other : b ≠ a := by
        rintro rfl
        exact absent k (Nat.le_refl k) (by omega) here
      have still : ∀ j, k + 1 ≤ j → j < n → (visit linked f a w).slots.cells[j]? ≠ some b := by
        intro j low high
        rcases visit_slots_cases (f := f) (a := a) distinct with same | ⟨p, found, erased⟩
        · rw [same]
          exact absent j (by omega) high
        · have inside : p < w.slots.live.length := (List.getElem?_eq_some_iff.mp found).1
          rw [erased, w.slots.erase_cells inside]
          split
          · exact absent (j + 1) (by omega) (by omega)
          · exact absent j (by omega) high
      obtain ⟨missed, same⟩ := ih (w := visit linked f a w) (k := k + 1) (by omega)
        (visit_distinct distinct) (Nat.le_trans (visit_size_le distinct) size) still
      rw [walk_some here]
      refine ⟨?_, ?_⟩
      · simp only [List.mem_cons, not_or]
        exact ⟨other, missed⟩
      · rw [same]
        exact visit_state_ne other

theorem walk_steady {l : List α} {rounds k : ℕ} (span : k + rounds = l.length) (unique : l.Nodup)
    (distinct : w.slots.live.Nodup) (size : w.slots.live.length ≤ l.length)
    (places : ∀ j, k ≤ j → j < l.length → w.slots.cells[j]? = l[j]?)
    (stay : ∀ j a, k ≤ j → l[j]? = some a → j + 2 < l.length → linked (f a (w.state a)) = true) :
    (walk linked f rounds k w).2 = l.drop k ∧
      ∀ b, (walk linked f rounds k w).1.state b =
        if b ∈ l.drop k then f b (w.state b) else w.state b := by
  induction rounds generalizing k w with
  | zero =>
    have behind : l.length ≤ k := by omega
    simp [walk, List.drop_eq_nil_of_le behind]
  | succ rounds ih =>
    have inside : k < l.length := by omega
    have here : w.slots.cells[k]? = some l[k] := by
      rw [places k (Nat.le_refl k) inside, List.getElem?_eq_getElem inside]
    have later : ∀ j, k + 1 ≤ j → j < l.length →
        (visit linked f l[k] w).slots.cells[j]? = l[j]? := by
      intro j low high
      rw [← places j (by omega) high]
      by_cases early : k + 2 < l.length
      · rw [visit_stays (stay k l[k] (Nat.le_refl k) (List.getElem?_eq_getElem inside) early)]
      · exact visit_cells_back distinct (by omega)
    have gone : l[k] ∉ l.drop (k + 1) := getElem_notMem_drop unique inside
    have others : ∀ j a, k + 1 ≤ j → l[j]? = some a → a ≠ l[k] := by
      intro j a low at_j same
      exact gone (same ▸ mem_drop_of_getElem? low at_j)
    obtain ⟨visited, states⟩ := ih (k := k + 1) (w := visit linked f l[k] w) (by omega)
      (visit_distinct distinct) (Nat.le_trans (visit_size_le distinct) size) later (by
        intro j a low at_j early
        rw [visit_state_ne (others j a low at_j)]
        exact stay j a (by omega) at_j early)
    rw [walk_some here, List.drop_eq_getElem_cons inside]
    refine ⟨?_, ?_⟩
    · rw [visited]
    · intro b
      rw [states b]
      by_cases self : b = l[k]
      · subst self
        rw [if_neg gone, if_pos List.mem_cons_self]
        simp [visit]
      · rw [visit_state_ne self]
        simp only [List.mem_cons, self, false_or]

theorem loop_steady (distinct : w.slots.live.Nodup) (steady : Steady linked f w) :
    (loop linked f w).2 = w.slots.live ∧
      ∀ b, (loop linked f w).1.state b =
        if b ∈ w.slots.live then f b (w.state b) else w.state b := by
  have places : ∀ j, 0 ≤ j → j < w.slots.live.length → w.slots.cells[j]? = w.slots.live[j]? := by
    intro j _ inside
    exact List.getElem?_append_left inside
  have stay : ∀ j a, 0 ≤ j → w.slots.live[j]? = some a → j + 2 < w.slots.live.length →
      linked (f a (w.state a)) = true := by
    intro j a _ at_j early
    exact steady j a at_j early
  exact walk_steady (Nat.zero_add _) distinct distinct (Nat.le_refl _) places stay

/-- One that leaves with two more behind it makes the loop pass over the next. -/
theorem walk_skips {rounds k : ℕ} (span : k + (rounds + 1) = w.slots.live.length)
    (distinct : w.slots.live.Nodup) (here : w.slots.live[k]? = some a)
    (next : w.slots.live[k + 1]? = some b) (early : k + 2 < w.slots.live.length)
    (was : linked (w.state a) = true) (leaves : linked (f a (w.state a)) = false) :
    b ∉ (walk linked f (rounds + 1) k w).2 ∧
      (walk linked f (rounds + 1) k w).1.state b = w.state b := by
  have cells : ∀ j, j < w.slots.live.length → w.slots.cells[j]? = w.slots.live[j]? :=
    fun j inside => List.getElem?_append_left inside
  have only : ∀ j, w.slots.live[j]? = some b → j = k + 1 := by
    intro j at_j
    have bound := (List.getElem?_eq_some_iff.mp at_j).1
    exact (List.getElem?_inj bound distinct).mp (at_j.trans next.symm)
  have erased : (visit linked f a w).slots = w.slots.erase k := by
    simp only [visit, was, leaves, Bool.not_false, Bool.and_true, if_true]
    exact Slots.remove_present distinct here
  have other : b ≠ a := by
    rintro rfl
    have wrong := only k here
    omega
  have absent : ∀ j, k + 1 ≤ j → j < w.slots.live.length →
      (visit linked f a w).slots.cells[j]? ≠ some b := by
    intro j low high at_j
    rw [erased, w.slots.erase_cells (by omega)] at at_j
    split at at_j
    · rw [cells _ (by omega)] at at_j
      have wrong := only _ at_j
      omega
    · rw [cells _ high] at at_j
      have wrong := only _ at_j
      omega
  have rest : b ∉ (walk linked f rounds (k + 1) (visit linked f a w)).2 ∧
      (walk linked f rounds (k + 1) (visit linked f a w)).1.state b =
        (visit linked f a w).state b :=
    walk_misses (n := w.slots.live.length) (by omega) (visit_distinct distinct)
      (visit_size_le distinct) absent
  obtain ⟨missed, same⟩ := rest
  rw [walk_some (by rw [cells k (by omega), here])]
  refine ⟨?_, ?_⟩
  · simp only [List.mem_cons, not_or]
    exact ⟨other, missed⟩
  · rw [same]
    exact visit_state_ne other

theorem walk_all {rounds k : ℕ} (span : k + rounds = w.slots.live.length)
    (distinct : w.slots.live.Nodup) (was : ∀ a ∈ w.slots.live.drop k, linked (w.state a) = true)
    (all : ∀ a ∈ w.slots.live.drop k, a ∈ (walk linked f rounds k w).2) (j : ℕ) (c : α)
    (low : k ≤ j) (at_j : w.slots.live[j]? = some c) (early : j + 2 < w.slots.live.length) :
    linked (f c (w.state c)) = true := by
  induction rounds generalizing k w with
  | zero => omega
  | succ rounds ih =>
    have inside : k < w.slots.live.length := by omega
    have here : w.slots.live[k]? = some w.slots.live[k] := List.getElem?_eq_getElem inside
    have first : w.slots.live[k] ∈ w.slots.live.drop k := by
      rw [List.drop_eq_getElem_cons inside]
      exact List.mem_cons_self
    have stays : linked (f w.slots.live[k] (w.state w.slots.live[k])) = true := by
      by_contra leaves
      have next : k + 1 < w.slots.live.length := by omega
      have second : w.slots.live[k + 1] ∈ w.slots.live.drop k := by
        rw [List.drop_eq_getElem_cons inside, List.drop_eq_getElem_cons next]
        exact List.mem_cons_of_mem _ List.mem_cons_self
      exact (walk_skips span distinct here (List.getElem?_eq_getElem next) (by omega)
        (was _ first) (by simpa using leaves)).1 (all _ second)
    have same := visit_stays stays
    have gone := getElem_notMem_drop distinct inside
    have others : ∀ a ∈ w.slots.live.drop (k + 1), a ≠ w.slots.live[k] := by
      rintro a later rfl
      exact gone later
    have tail : ∀ a ∈ w.slots.live.drop (k + 1), a ∈ w.slots.live.drop k := by
      intro a later
      rw [List.drop_eq_getElem_cons inside]
      exact List.mem_cons_of_mem _ later
    rcases Nat.eq_or_lt_of_le low with rfl | lower
    · obtain rfl : w.slots.live[k] = c := Option.some.inj (here.symm.trans at_j)
      exact stays
    · have later := mem_drop_of_getElem? lower at_j
      have stepped := ih (w := visit linked f w.slots.live[k] w) (k := k + 1)
        (by rw [same]; omega) (by rw [same]; exact distinct)
        (by
          rw [same]
          intro a listed
          rw [visit_state_ne (others a listed)]
          exact was a (tail a listed))
        (by
          rw [same]
          intro a listed
          have found := all a (tail a listed)
          rw [walk_some (by rw [Slots.cells, List.getElem?_append_left inside, here])] at found
          exact (List.mem_cons.mp found).resolve_left (others a listed))
        lower (by rw [same]; exact at_j) (by rw [same]; exact early)
      rwa [visit_state_ne (others c later)] at stepped

/-- Each object is visited once exactly when none before the last two leaves. -/
theorem loop_visits_iff (distinct : w.slots.live.Nodup)
    (was : ∀ a ∈ w.slots.live, linked (w.state a) = true) :
    (∀ a ∈ w.slots.live, (loop linked f w).2.count a = 1) ↔ Steady linked f w := by
  constructor
  · intro once k a here early
    refine walk_all (Nat.zero_add _) distinct was ?_ k a (Nat.zero_le k) here early
    intro b listed
    have positive : 0 < (loop linked f w).2.count b := by
      rw [once b listed]
      exact Nat.one_pos
    exact List.count_pos_iff.mp positive
  · intro steady a listed
    rw [(loop_steady distinct steady).1]
    exact List.count_eq_one_of_mem distinct listed

theorem walk_keeps {P : τ → Prop} (keeps : ∀ t, P t → P (f b t)) (rounds k : ℕ)
    (start : P (w.state b)) : P ((walk linked f rounds k w).1.state b) := by
  induction rounds generalizing k w with
  | zero => exact start
  | succ rounds ih =>
    cases here : w.slots.cells[k]? with
    | none => simpa [walk, here] using start
    | some a =>
      rw [walk_some here]
      apply ih
      by_cases self : b = a
      · subst self
        simpa [visit] using keeps _ start
      · rw [visit_state_ne self]
        exact start

/-- The vector holds the objects that have a link, each once. -/
structure Tied (linked : τ → Bool) (w : Fan α τ) : Prop where
  distinct : w.slots.live.Nodup
  back : ∀ b, b ∈ w.slots.live ↔ linked (w.state b) = true

theorem Tied.push (tied : Tied linked w) (free : linked (w.state a) = false) {t : τ}
    (linked_t : linked t = true) :
    Tied linked ⟨w.slots.push a, Function.update w.state a t⟩ where
  distinct := by
    have absent : a ∉ w.slots.live := by
      intro listed
      rw [(tied.back a).mp listed] at free
      cases free
    change (w.slots.live ++ [a]).Nodup
    rw [List.nodup_append_comm]
    exact List.nodup_cons.mpr ⟨absent, tied.distinct⟩
  back b := by
    change b ∈ w.slots.live ++ [a] ↔ _
    by_cases self : b = a
    · subst self
      simp [linked_t]
    · simp [self, tied.back]

theorem Tied.visit (tied : Tied linked w)
    (never : ∀ t, linked t = false → linked (f a t) = false) :
    Tied linked (visit linked f a w) where
  distinct := visit_distinct tied.distinct
  back b := by
    cases was : linked (w.state a) with
    | false =>
      have same : (RangeFor.visit linked f a w).slots = w.slots := by
        simp [RangeFor.visit, was]
      rw [same, tied.back]
      by_cases self : b = a
      · subst self
        simp [RangeFor.visit, was, never _ was]
      · rw [visit_state_ne self]
    | true =>
      cases left : linked (f a (w.state a)) with
      | true =>
        rw [visit_stays left, tied.back]
        by_cases self : b = a
        · subst self
          simp [RangeFor.visit, was, left]
        · rw [visit_state_ne self]
      | false =>
        obtain ⟨p, found⟩ := List.getElem?_of_mem ((tied.back a).mpr was)
        obtain ⟨inside, at_p⟩ := List.getElem?_eq_some_iff.mp found
        have live : (RangeFor.visit linked f a w).slots.live = w.slots.live.erase a := by
          simp only [RangeFor.visit, was, left, Bool.not_false, Bool.and_true, if_true]
          rw [Slots.remove_present tied.distinct found, w.slots.erase_live inside, ← at_p,
            tied.distinct.erase_getElem]
        rw [live, tied.distinct.mem_erase_iff, tied.back]
        by_cases self : b = a
        · subst self
          simp [RangeFor.visit, left]
        · rw [visit_state_ne self]
          simp [self]

theorem Tied.walk (tied : Tied linked w)
    (never : ∀ a t, linked t = false → linked (f a t) = false) (rounds k : ℕ) :
    Tied linked (walk linked f rounds k w).1 := by
  induction rounds generalizing k w with
  | zero => exact tied
  | succ rounds ih =>
    cases here : w.slots.cells[k]? with
    | none => simpa [RangeFor.walk, here] using tied
    | some a =>
      rw [walk_some here]
      exact ih (tied.visit (never a)) (k + 1)

/-- When each object lets go of its link in its round, all of them do exactly when
there are at most two. -/
theorem loop_empties_iff (tied : Tied linked w) (leaves : ∀ a t, linked (f a t) = false) :
    (∀ b, linked ((loop linked f w).1.state b) = false) ↔ w.slots.live.length ≤ 2 := by
  constructor
  · intro free
    by_contra many
    have first : 0 < w.slots.live.length := by omega
    have second : 1 < w.slots.live.length := by omega
    obtain ⟨rounds, size⟩ : ∃ rounds, w.slots.live.length = rounds + 1 :=
      ⟨w.slots.live.length - 1, by omega⟩
    have skipped : (RangeFor.walk linked f (rounds + 1) 0 w).1.state w.slots.live[1] =
        w.state w.slots.live[1] :=
      (walk_skips (by omega) tied.distinct (List.getElem?_eq_getElem first)
        (List.getElem?_eq_getElem second) (by omega)
        ((tied.back _).mp (List.getElem_mem first)) (leaves _ _)).2
    have still := free w.slots.live[1]
    rw [loop, size, skipped, (tied.back _).mp (List.getElem_mem second)] at still
    cases still
  · intro few b
    have steady : Steady linked f w := by
      intro k a _ early
      omega
    rw [(loop_steady tied.distinct steady).2]
    split
    · exact leaves _ _
    · rename_i absent
      simpa using mt (tied.back b).mpr absent

theorem loop_live_eq_nil (tied : Tied linked w) (leaves : ∀ a t, linked (f a t) = false)
    (few : w.slots.live.length ≤ 2) : (loop linked f w).1.slots.live = [] := by
  have after : Tied linked (loop linked f w).1 := tied.walk (fun a t _ => leaves a t) _ _
  apply List.eq_nil_iff_forall_not_mem.mpr
  intro b listed
  have free := (loop_empties_iff tied leaves).mpr few b
  rw [(after.back b).mp listed] at free
  cases free

end Loop

section Passing

/-- What a walk by index passes over when each element it stands at is erased. -/
def skipped : List α → List α
  | [] => []
  | [_] => []
  | _ :: b :: rest => b :: skipped rest

theorem skipped_length (l : List α) : (skipped l).length = l.length / 2 := by
  induction l using skipped.induct with
  | case1 => simp [skipped]
  | case2 a => simp [skipped]
  | case3 a b rest ih =>
    simp only [skipped, List.length_cons, ih]
    omega

theorem skipped_sublist (l : List α) : (skipped l).Sublist l := by
  induction l using skipped.induct with
  | case1 => exact .slnil
  | case2 a => exact List.nil_sublist _
  | case3 a b rest ih => exact (ih.cons_cons b).cons a

theorem skipped_eq_nil_iff (l : List α) : skipped l = [] ↔ l.length ≤ 1 := by
  rw [← List.length_eq_zero_iff, skipped_length]
  omega

theorem skipped_eraseIdx {l : List α} {i : ℕ} (inside : i < l.length) :
    (l.eraseIdx i).take (i + 1) ++ skipped ((l.eraseIdx i).drop (i + 1)) =
      l.take i ++ skipped (l.drop i) := by
  have front : (l.take i).length = i := List.length_take_of_le (Nat.le_of_lt inside)
  rw [List.eraseIdx_eq_take_drop_succ, List.drop_eq_getElem_cons inside]
  cases l.drop (i + 1) with
  | nil =>
    rw [List.append_nil, List.take_of_length_le (by omega), List.drop_eq_nil_of_le (by omega)]
    simp [skipped]
  | cons b rest =>
    have split : l.take i ++ b :: rest = (l.take i ++ [b]) ++ rest := by simp
    have size : (l.take i ++ [b]).length = i + 1 := by simp [front]
    rw [split, ← size, List.take_left, List.drop_left]
    simp [skipped]

end Passing

end FastCgiCdn.RangeFor
