import Mathlib.Logic.Function.Basic
import Mathlib.Data.Option.Basic

/-! Objects that go by a name, and the table that finds them by it. An object
that gives up its name also erases a second key, the shadow of the name. What
is asked for is that the table and the names stay inverse to each other. -/

namespace FastCgiCdn.NameRegistry

structure Registry (ι κ : Type*) where
  name : ι → Option κ
  table : κ → Option ι

namespace Registry

variable {ι κ : Type*} {shadow : κ → κ} {missing : Option ι} {r s t : Registry ι κ} {i : ι} {k : κ}

/-- The table leads to every object by its name and by nothing else, but for an
object that may be missing from it. No two objects have one name. -/
structure Consistent (missing : Option ι) (r : Registry ι κ) : Prop where
  named : ∀ i k, r.table k = some i → r.name i = some k
  listed : ∀ i k, missing ≠ some i → r.name i = some k → r.table k = some i
  unique : ∀ i j k, r.name i = some k → r.name j = some k → i = j

theorem Consistent.free (consistent : Consistent none r) (free : r.table k = none) (i : ι) :
    r.name i ≠ some k := by
  intro named
  have listed := consistent.listed i k (Option.some_ne_none i).symm named
  rw [free] at listed
  cases listed

theorem Consistent.whole (consistent : Consistent missing r)
    (nameless : ∀ i, missing = some i → r.name i = none) : Consistent none r where
  named := consistent.named
  listed i k _ named := by
    refine consistent.listed i k ?_ named
    intro absent
    rw [nameless i absent] at named
    cases named
  unique := consistent.unique

/-- Some objects have given up their names, and nothing else has happened. -/
structure Loses (shadow : κ → κ) (r s : Registry ι κ) : Prop where
  name : ∀ i, s.name i = r.name i ∨ s.name i = none
  table : ∀ k, s.table k = r.table k ∨ (s.table k = none ∧
    ∃ i k', r.name i = some k' ∧ s.name i = none ∧ (k = k' ∨ k = shadow k'))
  gone : ∀ i k, r.name i = some k → s.name i = none → s.table k = none

namespace Loses

theorem refl (r : Registry ι κ) : Loses shadow r r where
  name _ := .inl rfl
  table _ := .inl rfl
  gone i k named nameless := by
    rw [named] at nameless
    cases nameless

theorem stays_free (loses : Loses shadow r s) (free : r.table k = none) : s.table k = none := by
  rcases loses.table k with same | ⟨erased, -⟩
  · rw [same, free]
  · exact erased

theorem stays_nameless (loses : Loses shadow r s) (nameless : r.name i = none) :
    s.name i = none := by
  rcases loses.name i with same | gone
  · rw [same, nameless]
  · exact gone

theorem named_before (loses : Loses shadow r s) (named : s.name i = some k) :
    r.name i = some k := by
  rcases loses.name i with same | gone
  · rw [← same, named]
  · rw [gone] at named
    cases named

theorem trans (first : Loses shadow r s) (second : Loses shadow s t) : Loses shadow r t where
  name i := by
    rcases second.name i with same | gone
    · rw [same]
      exact first.name i
    · exact .inr gone
  table k := by
    rcases second.table k with same | ⟨erased, i, k', named, gone, key⟩
    · rw [same]
      rcases first.table k with same | ⟨erased, i, k', named, gone, key⟩
      · exact .inl same
      · exact .inr ⟨erased, i, k', named, second.stays_nameless gone, key⟩
    · exact .inr ⟨erased, i, k', first.named_before named, gone, key⟩
  gone i k named nameless := by
    rcases first.name i with same | gone
    · exact second.gone i k (same.trans named) nameless
    · exact second.stays_free (first.gone i k named gone)

theorem consistent (loses : Loses shadow r s) (proper : ∀ i k k', r.name i = some k → k ≠ shadow k')
    (before : Consistent missing r) : Consistent missing s where
  named i k listed := by
    have listed' : r.table k = some i := by
      rcases loses.table k with same | ⟨erased, -⟩
      · rw [← same, listed]
      · rw [erased] at listed
        cases listed
    have named := before.named i k listed'
    rcases loses.name i with same | gone
    · rw [same, named]
    · rw [loses.gone i k named gone] at listed
      cases listed
  listed i k present named := by
    have named' := loses.named_before named
    rcases loses.table k with same | ⟨-, j, k', other, gone, rfl | rfl⟩
    · rw [same]
      exact before.listed i k present named'
    · obtain rfl := before.unique i j k named' other
      rw [gone] at named
      cases named
    · exact absurd rfl (proper i _ k' named')
  unique i j k first second := before.unique i j k (loses.named_before first) (loses.named_before second)

end Loses

section Operations

variable [DecidableEq ι] [DecidableEq κ]

def drop (shadow : κ → κ) (i : ι) (r : Registry ι κ) : Registry ι κ :=
  match r.name i with
  | none => r
  | some k =>
    { name := Function.update r.name i none
      table := Function.update (Function.update r.table k none) (shadow k) none }

def file (i : ι) (k : κ) (r : Registry ι κ) : Registry ι κ where
  name := Function.update r.name i (some k)
  table := Function.update r.table k (some i)

theorem drop_none (nameless : r.name i = none) : r.drop shadow i = r := by
  rw [drop, nameless]

theorem drop_name (named : r.name i = some k) :
    (r.drop shadow i).name = Function.update r.name i none := by
  rw [drop, named]

theorem drop_table (named : r.name i = some k) : (r.drop shadow i).table =
    Function.update (Function.update r.table k none) (shadow k) none := by
  rw [drop, named]

theorem drop_table_shadow (named : r.name i = some k) :
    (r.drop shadow i).table (shadow k) = none := by
  rw [drop_table named, Function.update_self]

theorem drop_table_self (named : r.name i = some k) : (r.drop shadow i).table k = none := by
  rw [drop_table named]
  by_cases shade : k = shadow k
  · rw [← shade, Function.update_self]
  · rw [Function.update_of_ne shade, Function.update_self]

theorem loses_drop (i : ι) (r : Registry ι κ) : Loses shadow r (r.drop shadow i) := by
  cases named : r.name i with
  | none =>
    rw [drop_none named]
    exact .refl r
  | some k =>
    have nameless : (r.drop shadow i).name i = none := by
      rw [drop_name named, Function.update_self]
    refine ⟨?_, ?_, ?_⟩
    · intro j
      by_cases same : j = i
      · rw [same]
        exact .inr nameless
      · rw [drop_name named, Function.update_of_ne same]
        exact .inl rfl
    · intro k'
      by_cases shade : k' = shadow k
      · rw [shade]
        exact .inr ⟨drop_table_shadow named, i, k, named, nameless, .inr rfl⟩
      · by_cases own : k' = k
        · rw [own]
          exact .inr ⟨drop_table_self named, i, k, named, nameless, .inl rfl⟩
        · rw [drop_table named, Function.update_of_ne shade, Function.update_of_ne own]
          exact .inl rfl
    · intro j k' other gone
      by_cases same : j = i
      · rw [same, named] at other
        rw [← Option.some.inj other]
        exact drop_table_self named
      · rw [drop_name named, Function.update_of_ne same, other] at gone
        cases gone

theorem file_name_self : (r.file i k).name i = some k := Function.update_self ..

theorem file_name_of_ne {j : ι} (other : j ≠ i) : (r.file i k).name j = r.name j :=
  Function.update_of_ne other ..

theorem file_table_self : (r.file i k).table k = some i := Function.update_self ..

theorem file_table_of_ne {k' : κ} (other : k' ≠ k) : (r.file i k).table k' = r.table k' :=
  Function.update_of_ne other ..

theorem Consistent.file (consistent : Consistent none r) (nameless : r.name i = none)
    (free : r.table k = none) : Consistent none (r.file i k) := by
  have named (j : ι) (k' : κ) : (r.file i k).name j = some k' →
      (j = i ∧ k' = k) ∨ (j ≠ i ∧ k' ≠ k ∧ r.name j = some k') := by
    intro named
    by_cases same : j = i
    · subst same
      rw [file_name_self] at named
      exact .inl ⟨rfl, (Option.some.inj named).symm⟩
    · rw [file_name_of_ne same] at named
      refine .inr ⟨same, ?_, named⟩
      rintro rfl
      exact consistent.free free j named
  refine ⟨?_, ?_, ?_⟩
  · intro j k' listed
    by_cases own : k' = k
    · subst own
      rw [file_table_self] at listed
      rw [← Option.some.inj listed, file_name_self]
    · rw [file_table_of_ne own] at listed
      have before := consistent.named j k' listed
      have other : j ≠ i := by
        rintro rfl
        rw [nameless] at before
        cases before
      rw [file_name_of_ne other, before]
  · intro j k' present listed
    rcases named j k' listed with ⟨rfl, rfl⟩ | ⟨-, other, before⟩
    · exact file_table_self
    · rw [file_table_of_ne other]
      exact consistent.listed j k' present before
  · intro j j' k' first second
    rcases named j k' first with ⟨rfl, rfl⟩ | ⟨-, other, before⟩
    · rcases named j' _ second with ⟨rfl, -⟩ | ⟨-, wrong, -⟩
      · rfl
      · exact absurd rfl wrong
    · rcases named j' k' second with ⟨-, own⟩ | ⟨-, -, before'⟩
      · exact absurd own other
      · exact consistent.unique j j' k' before before'

end Operations

section Erasing

variable [DecidableEq κ]

/-- The entry of an object is erased and its name is not. -/
def unlist (k : κ) (r : Registry ι κ) : Registry ι κ :=
  { r with table := Function.update r.table k none }

theorem unlist_self : (r.unlist k).table k = none := Function.update_self ..

theorem unlist_of_ne {k' : κ} (other : k' ≠ k) : (r.unlist k).table k' = r.table k' :=
  Function.update_of_ne other ..

theorem Consistent.unlist (consistent : Consistent none r) (listed : r.table k = some i) :
    Consistent (some i) (r.unlist k) where
  named j k' found := by
    by_cases own : k' = k
    · rw [own, unlist_self] at found
      cases found
    · rw [unlist_of_ne own] at found
      exact consistent.named j k' found
  listed j k' present named := by
    have found := consistent.listed j k' (Option.some_ne_none j).symm named
    have other : k' ≠ k := by
      rintro rfl
      exact present (listed.symm.trans found)
    rw [unlist_of_ne other, found]
  unique := consistent.unique

end Erasing

end Registry

end FastCgiCdn.NameRegistry
