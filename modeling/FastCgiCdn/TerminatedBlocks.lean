import Mathlib.Data.List.Basic

/-! Lists cut into blocks that each end in a terminator, as lines end in a line
feed. Nothing may stand behind the last one. -/

namespace FastCgiCdn.TerminatedBlocks

variable {α : Type*}

def joined (stop : α) (blocks : List (List α)) : List α := blocks.flatMap (· ++ [stop])

theorem joined_cons (stop : α) (block : List α) (blocks : List (List α)) :
    joined stop (block :: blocks) = block ++ stop :: joined stop blocks := by
  rw [joined, List.flatMap_cons, List.append_assoc]
  rfl

variable [DecidableEq α]

/-- The blocks without their terminators; `none` is a list that ends inside of a
block. -/
def chop (stop : α) : List α → Option (List (List α))
  | [] => some []
  | a :: rest =>
    (chop stop rest).bind fun blocks =>
      if a = stop then some ([] :: blocks)
      else match blocks with
        | [] => none
        | block :: blocks => some ((a :: block) :: blocks)

variable {stop : α}

theorem chop_joined (blocks : List (List α)) (inside : ∀ block ∈ blocks, stop ∉ block) :
    chop stop (joined stop blocks) = some blocks := by
  induction blocks with
  | nil => rfl
  | cons block blocks ih =>
    have rest := ih fun b member => inside b (List.mem_cons_of_mem _ member)
    have here := inside block (List.mem_cons_self ..)
    rw [joined_cons]
    induction block with
    | nil => rw [List.nil_append, chop, rest, Option.bind_some, if_pos rfl]
    | cons a block more =>
      have other : a ≠ stop := fun same => here (same ▸ List.mem_cons_self ..)
      have tail : stop ∉ block := fun member => here (List.mem_cons_of_mem _ member)
      rw [List.cons_append, chop, more ?_ tail, Option.bind_some, if_neg other]
      intro b member
      rcases List.mem_cons.mp member with rfl | later
      · exact tail
      · exact inside b (List.mem_cons_of_mem _ later)

theorem joined_chop (s : List α) : ∀ {blocks : List (List α)}, chop stop s = some blocks →
    s = joined stop blocks ∧ ∀ block ∈ blocks, stop ∉ block := by
  induction s with
  | nil =>
    intro blocks chopped
    obtain rfl := Option.some.inj chopped
    exact ⟨rfl, by simp⟩
  | cons a s ih =>
    intro blocks chopped
    obtain ⟨before, rest, result⟩ := Option.bind_eq_some_iff.mp chopped
    obtain ⟨whole, inside⟩ := ih rest
    split at result
    · rename_i terminator
      obtain rfl := Option.some.inj result
      refine ⟨by rw [joined_cons, ← whole, terminator]; rfl, ?_⟩
      simpa using inside
    · rename_i other
      cases before with
      | nil => cases result
      | cons block before =>
        obtain rfl := Option.some.inj result
        rw [joined_cons] at whole
        refine ⟨by rw [joined_cons, whole]; rfl, ?_⟩
        intro b member
        rcases List.mem_cons.mp member with rfl | later
        · have there := inside block (List.mem_cons_self ..)
          exact fun found => there ((List.mem_cons.mp found).resolve_left (Ne.symm other))
        · exact inside b (List.mem_cons_of_mem _ later)

end FastCgiCdn.TerminatedBlocks
