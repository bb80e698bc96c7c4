import Mathlib.Data.Nat.Notation
import Mathlib.Logic.Function.Basic

/-! A directory that names files, in which a file may be renamed and unlinked while
it is open. Files are numbered as they are made. -/

namespace FastCgiCdn.FileNames

variable {ν : Type*} [DecidableEq ν]

abbrev Directory (ν : Type*) := ν → Option ℕ

variable {d : Directory ν} {name other old new : ν} {file file' : ℕ}

def unlink (name : ν) (d : Directory ν) : Directory ν := Function.update d name none

/-- The file that had the name loses it. -/
def link (name : ν) (file : ℕ) (d : Directory ν) : Directory ν :=
  Function.update d name (some file)

def rename (old new : ν) (d : Directory ν) : Directory ν :=
  match d old with
  | none => d
  | some file => link new file (unlink old d)

@[simp] theorem unlink_eq_some : unlink name d other = some file ↔
    other ≠ name ∧ d other = some file := by
  by_cases same : other = name
  · simp [unlink, same]
  · simp [unlink, same]

@[simp] theorem link_eq_some : link name file d other = some file' ↔
    other = name ∧ file = file' ∨ other ≠ name ∧ d other = some file' := by
  by_cases same : other = name
  · simp [link, same]
  · simp [link, same]

theorem rename_eq_some (found : d old = some file) : rename old new d other = some file' ↔
    other = new ∧ file = file' ∨ other ≠ new ∧ other ≠ old ∧ d other = some file' := by
  rw [rename, found, link_eq_some, unlink_eq_some]

/-- No file has two names. -/
def SingleNames (d : Directory ν) : Prop :=
  ∀ name other file, d name = some file → d other = some file → name = other

theorem SingleNames.unlink (single : SingleNames d) : SingleNames (unlink name d) := by
  intro first second file one two
  exact single first second file (unlink_eq_some.mp one).2 (unlink_eq_some.mp two).2

theorem SingleNames.link (single : SingleNames d) (unnamed : ∀ other, d other ≠ some file) :
    SingleNames (link name file d) := by
  intro first second found one two
  rw [link_eq_some] at one two
  rcases one with ⟨rfl, rfl⟩ | ⟨-, one⟩
  · rcases two with ⟨rfl, -⟩ | ⟨-, two⟩
    · rfl
    · exact absurd two (unnamed second)
  · rcases two with ⟨rfl, rfl⟩ | ⟨-, two⟩
    · exact absurd one (unnamed first)
    · exact single first second found one two

theorem SingleNames.rename (single : SingleNames d) : SingleNames (rename old new d) := by
  unfold FileNames.rename
  split
  case h_1 => exact single
  case h_2 file found =>
    apply single.unlink.link
    intro other named
    obtain ⟨apart, named⟩ := unlink_eq_some.mp named
    exact apart (single other old file named found)

end FastCgiCdn.FileNames
