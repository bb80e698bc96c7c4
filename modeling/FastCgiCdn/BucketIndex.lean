import Mathlib.Data.List.AList
import Mathlib.Data.List.Sort

/-! An index from keys to lists of values, kept in an association list with
unique keys: a missing key stands for the empty list. `push` is the
`index[key].push_back(value)` of a `std::map` to vectors. -/

namespace FastCgiCdn.BucketIndex

variable {κ α : Type*} [DecidableEq κ]

abbrev Index (κ α : Type*) := AList fun _ : κ => List α

def bucket (index : Index κ α) (key : κ) : List α := (index.lookup key).getD []

def push (index : Index κ α) (key : κ) (value : α) : Index κ α :=
  index.insert key (bucket index key ++ [value])

theorem lookup_insert_cases {β : Type*} {table : AList fun _ : κ => β} {key other : κ}
    {value found : β} (looked : (table.insert key value).lookup other = some found) :
    other = key ∧ value = found ∨ other ≠ key ∧ table.lookup other = some found := by
  by_cases here : other = key
  · subst here
    rw [AList.lookup_insert] at looked
    exact .inl ⟨rfl, Option.some_inj.mp looked⟩
  · rw [AList.lookup_insert_ne here] at looked
    exact .inr ⟨here, looked⟩

@[simp] theorem bucket_empty (key : κ) : bucket (∅ : Index κ α) key = [] := by
  simp [bucket]

@[simp] theorem bucket_push_self (index : Index κ α) (key : κ) (value : α) :
    bucket (push index key value) key = bucket index key ++ [value] := by
  simp [bucket, push]

theorem bucket_push_ne (index : Index κ α) {key other : κ} (value : α) (different : other ≠ key) :
    bucket (push index key value) other = bucket index other := by
  rw [push, bucket, AList.lookup_insert_ne different]
  rfl

@[simp] theorem bucket_erase_self (index : Index κ α) (key : κ) :
    bucket (index.erase key) key = [] := by
  simp [bucket]

theorem bucket_erase_ne (index : Index κ α) {key other : κ} (different : other ≠ key) :
    bucket (index.erase key) other = bucket index other := by
  rw [bucket, AList.lookup_erase_ne different]
  rfl

theorem count_bucket_push [DecidableEq α] [BEq α] [LawfulBEq α] (index : Index κ α)
    (key other : κ) (value v : α) :
    (bucket (push index key value) other).count v =
      (bucket index other).count v + if other = key ∧ v = value then 1 else 0 := by
  by_cases same : other = key
  · subst same
    by_cases hv : v = value
    · subst hv
      simp
    · simp [hv, Ne.symm hv]
  · rw [bucket_push_ne index value same]
    simp [same]

@[simp] theorem bucket_insert_self (index : Index κ α) (key : κ) (list : List α) :
    bucket (index.insert key list) key = list := by
  simp [bucket]

theorem bucket_insert_ne (index : Index κ α) {key other : κ} (list : List α)
    (different : other ≠ key) : bucket (index.insert key list) other = bucket index other := by
  rw [bucket, AList.lookup_insert_ne different]
  rfl

theorem lookup_foldl_erase {β : Type*} (list : List κ) (table : AList fun _ : κ => β) (key : κ) :
    (list.foldl (fun table key => table.erase key) table).lookup key =
      if key ∈ list then none else table.lookup key := by
  induction list generalizing table with
  | nil => simp
  | cons first rest ih =>
    rw [List.foldl_cons, ih]
    by_cases here : key = first
    · subst here
      simp
    · rw [AList.lookup_erase_ne here]
      simp [here]

section Filed

variable {file file' : α → Option κ} {index : Index κ α} {a : α} {key : κ} [BEq α]

/-- Each value that has a key stands once under it and under no other. -/
def Filed (file : α → Option κ) (index : Index κ α) : Prop :=
  ∀ a key, (bucket index key).count a = if file a = some key then 1 else 0

theorem filed_empty : Filed (fun _ => none) (∅ : Index κ α) := by
  intro a key
  simp

theorem Filed.erased (filed : Filed file index) (key : κ) :
    Filed (fun a => if file a = some key then none else file a) (index.erase key) := by
  intro a k
  dsimp only
  by_cases here : k = key
  · subst here
    rw [bucket_erase_self]
    by_cases own : file a = some k
    · simp [own]
    · simp [own]
  · rw [bucket_erase_ne index here, filed a k]
    by_cases own : file a = some key
    · simp [own, Ne.symm here]
    · simp [own]

theorem Filed.count_own (filed : Filed file index) (own : file a = some key) :
    (bucket index key).count a = 1 := by
  rw [filed a key, if_pos own]

variable [LawfulBEq α]

theorem Filed.mem_iff (filed : Filed file index) : a ∈ bucket index key ↔ file a = some key := by
  rw [← List.count_pos_iff, filed a key]
  split <;> simp [*]

theorem Filed.notMem_other (filed : Filed file index) {other : κ} (own : file a = some key)
    (different : other ≠ key) : a ∉ bucket index other := by
  rw [filed.mem_iff, own, Option.some_inj]
  exact Ne.symm different

theorem Filed.nodup (filed : Filed file index) (key : κ) : (bucket index key).Nodup := by
  rw [List.nodup_iff_count_le_one]
  intro a
  rw [filed a key]
  split <;> omega

theorem Filed.iff_eq (filed : Filed file index) : Filed file' index ↔ file' = file := by
  constructor
  · intro filed'
    funext a
    apply Option.ext
    intro key
    rw [← filed'.mem_iff, ← filed.mem_iff]
  · rintro rfl
    exact filed

variable [DecidableEq α]

theorem Filed.pushed (filed : Filed file index) (free : file a = none) (key : κ) :
    Filed (Function.update file a (some key)) (push index key a) := by
  intro other k
  rw [count_bucket_push, filed other k]
  by_cases self : other = a
  · subst self
    simp [free, eq_comm]
  · simp [self]

theorem Filed.dropped (filed : Filed file index) (own : file a = some key) :
    Filed (Function.update file a none) (index.insert key ((bucket index key).erase a)) := by
  intro other k
  by_cases here : k = key
  · subst here
    rw [bucket_insert_self, List.count_erase, filed other k]
    by_cases self : other = a
    · subst self
      simp [own]
    · simp [self, Ne.symm self]
  · rw [bucket_insert_ne index _ here, filed other k]
    by_cases self : other = a
    · subst self
      simp [own, Ne.symm here]
    · simp [self]

end Filed

/-- The buckets in ascending order of their keys, as a `std::map` is iterated. -/
def inOrder (index : Index ℕ α) : List (ℕ × List α) :=
  (index.keys.insertionSort (· ≤ ·)).map fun key => (key, bucket index key)

theorem bucket_of_mem_inOrder {index : Index ℕ α} {entry : ℕ × List α}
    (listed : entry ∈ inOrder index) : entry.2 = bucket index entry.1 := by
  obtain ⟨key, -, rfl⟩ := List.mem_map.mp listed
  rfl

theorem mem_inOrder_of_mem_bucket {index : Index ℕ α} {key : ℕ} {value : α}
    (member : value ∈ bucket index key) : (key, bucket index key) ∈ inOrder index := by
  have present : key ∈ index := by
    by_contra absent
    rw [bucket, AList.lookup_eq_none.mpr absent] at member
    simp at member
  exact List.mem_map.mpr ⟨key, (List.mem_insertionSort _).mpr (AList.mem_keys.mp present), rfl⟩

theorem inOrder_keys (index : Index ℕ α) :
    (inOrder index).map Prod.fst = index.keys.insertionSort (· ≤ ·) := by
  simp [inOrder, Function.comp_def]

theorem inOrder_keys_sorted (index : Index ℕ α) :
    ((inOrder index).map Prod.fst).Pairwise (· ≤ ·) := by
  rw [inOrder_keys]
  exact List.pairwise_insertionSort (· ≤ ·) index.keys

theorem inOrder_keys_nodup (index : Index ℕ α) : ((inOrder index).map Prod.fst).Nodup := by
  rw [inOrder_keys, (List.perm_insertionSort (· ≤ ·) index.keys).nodup_iff]
  exact index.keys_nodup

end FastCgiCdn.BucketIndex
