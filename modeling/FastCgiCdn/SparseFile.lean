import Mathlib.Data.List.Basic

/-! A file as the list of its elements. A write at an offset replaces what stands
there; one that begins behind the end leaves a hole, which reads as zeros. -/

namespace FastCgiCdn.SparseFile

variable {α : Type*} {zero : α} {pos n : ℕ} {data more file content : List α}

def overwrite (zero : α) (pos : ℕ) (data file : List α) : List α :=
  if data = [] then file
  else file.take pos ++ List.replicate (pos - file.length) zero ++ data ++
    file.drop (pos + data.length)

theorem overwrite_nil : overwrite zero pos [] file = file := if_pos rfl

theorem overwrite_of_ne (filled : data ≠ []) : overwrite zero pos data file =
    file.take pos ++ List.replicate (pos - file.length) zero ++ data ++
      file.drop (pos + data.length) :=
  if_neg filled

theorem length_front :
    (file.take pos ++ List.replicate (pos - file.length) zero).length = pos := by
  simp only [List.length_append, List.length_take, List.length_replicate]
  omega

theorem take_overwrite (before : n ≤ pos) (inside : n ≤ file.length) :
    (overwrite zero pos data file).take n = file.take n := by
  by_cases filled : data = []
  · rw [filled, overwrite_nil]
  · have front : n ≤ (file.take pos).length := by
      rw [List.length_take]
      omega
    rw [overwrite_of_ne filled, List.append_assoc, List.append_assoc,
      List.take_append_of_le_length front, List.take_take, Nat.min_eq_left before]

theorem length_written :
    (file.take pos ++ List.replicate (pos - file.length) zero ++ data).length =
      pos + data.length := by
  rw [List.length_append, length_front]

theorem drop_overwrite (behind : pos + data.length ≤ n) :
    (overwrite zero pos data file).drop n = file.drop n := by
  by_cases filled : data = []
  · rw [filled, overwrite_nil]
  · have front : (file.take pos ++ List.replicate (pos - file.length) zero ++ data).length =
        pos + data.length := length_written
    have rest : pos + data.length + (n - (pos + data.length)) = n := by omega
    rw [overwrite_of_ne filled, List.drop_append, List.drop_eq_nil_of_le (by omega), front,
      List.nil_append, List.drop_drop, rest]

theorem overwrite_behind (filled : data ≠ []) (behind : file.length ≤ pos) :
    overwrite zero pos data file = file ++ List.replicate (pos - file.length) zero ++ data := by
  rw [overwrite_of_ne filled, List.take_of_length_le behind,
    List.drop_eq_nil_of_le (Nat.le_add_right_of_le behind), List.append_nil]

theorem overwrite_at_end (here : file.length = pos) :
    overwrite zero pos data file = file ++ data := by
  by_cases filled : data = []
  · rw [filled, overwrite_nil, List.append_nil]
  · rw [overwrite_behind filled (Nat.le_of_eq here), here, Nat.sub_self, List.replicate_zero, List.append_nil]

theorem drop_append (stands : file.drop pos = content) :
    (overwrite zero (pos + content.length) data file).drop pos = content ++ data := by
  have length := congrArg List.length stands
  rw [List.length_drop] at length
  by_cases filled : data = []
  · rw [filled, overwrite_nil, List.append_nil, stands]
  · rw [overwrite_behind filled (by omega), List.append_assoc]
    by_cases hole : file.length ≤ pos
    · have nothing : content = [] := List.eq_nil_of_length_eq_zero (by omega)
      rw [nothing, List.nil_append, List.length_nil, Nat.add_zero, ← List.append_assoc]
      have front : (file ++ List.replicate (pos - file.length) zero).length = pos := by
        simp only [List.length_append, List.length_replicate]
        omega
      rw [List.drop_append_of_le_length (Nat.le_of_eq front.symm),
        List.drop_eq_nil_of_le (Nat.le_of_eq front), List.nil_append]
    · have none_between : pos + content.length - file.length = 0 := by omega
      rw [List.drop_append_of_le_length (by omega), stands, none_between, List.replicate_zero,
        List.nil_append]

theorem drop_overwrite_self (filled : data ≠ []) : (overwrite zero pos data file).drop pos =
    data ++ file.drop (pos + data.length) := by
  rw [overwrite_of_ne filled, List.append_assoc, List.drop_left' length_front]

theorem take_overwrite_self (filled : data ≠ []) : (overwrite zero pos data file).take pos =
    file.take pos ++ List.replicate (pos - file.length) zero := by
  rw [overwrite_of_ne filled, List.append_assoc, List.take_left' length_front]

theorem overwrite_append (filled : data ≠ []) :
    overwrite zero (pos + data.length) more (overwrite zero pos data file) =
      overwrite zero pos (data ++ more) file := by
  by_cases none_left : more = []
  · rw [none_left, overwrite_nil, List.append_nil]
  · have length : (file.take pos ++ List.replicate (pos - file.length) zero ++ data).length =
        pos + data.length := length_written
    have no_hole : pos + data.length - (overwrite zero pos data file).length = 0 := by
      rw [overwrite_of_ne filled, List.length_append, length]
      omega
    have both : data ++ more ≠ [] := List.append_ne_nil_of_left_ne_nil filled more
    rw [overwrite_of_ne none_left, no_hole, overwrite_of_ne both, overwrite_of_ne filled,
      List.take_left' length, List.drop_append, List.drop_eq_nil_of_le (by omega), length,
      Nat.add_sub_cancel_left, List.nil_append, List.drop_drop, List.replicate_zero,
      List.append_nil, List.length_append]
    simp only [List.append_assoc, Nat.add_assoc]

end FastCgiCdn.SparseFile
