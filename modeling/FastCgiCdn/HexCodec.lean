import FastCgiCdn.CacheKeys
import FastCgiCdn.MeasuredLoop

/-! The hex codec of Common.cpp with the machine integers of its two loops. The
decoder counts its rounds in an `unsigned int` and doubles it, so behind 2^32
characters it starts over; the encoder takes its length as a `uint32_t`. -/

namespace FastCgiCdn.HexCodec

open MeasuredLoop

def signed (c : Byte) : ℤ := if c.toNat < 128 then c.toNat else c.toNat - 256

/-- The range tests of `hexToDecUnit` as they are made, on a signed `char`. -/
def hexToDecUnit (c : Byte) : Option ℕ :=
  if signed c < 48 then none
  else if signed c ≤ 57 then some (signed c - 48).toNat
  else if signed c < 65 then none
  else if signed c ≤ 70 then some (signed c - 65 + 10).toNat
  else if signed c < 97 then none
  else if signed c ≤ 102 then some (signed c - 97 + 10).toNat
  else none

/-- The characters 0 to 9, A to F and a to f. -/
def IsHexDigit (c : Byte) : Prop :=
  48 ≤ c.toNat ∧ c.toNat ≤ 57 ∨ 65 ≤ c.toNat ∧ c.toNat ≤ 70 ∨ 97 ≤ c.toNat ∧ c.toNat ≤ 102

def toupper (c : Byte) : Byte := if 97 ≤ c.toNat ∧ c.toNat ≤ 122 then c - 32 else c

/-- A digit at a place of the string: `at` throws behind its end, and what is no
digit gives the empty string. -/
def digitAt (hexa : Bytes) (place : ℕ) : Except (Option Bytes) ℕ :=
  match hexa[place]? with
  | none => .error none
  | some c =>
    match hexToDecUnit c with
    | none => .error (some [])
    | some digit => .ok digit

def pairAt (hexa : Bytes) (index : ℕ) : Except (Option Bytes) ℕ := do
  let c1 ← digitAt hexa (index * 2 % 2 ^ 32)
  let c2 ← digitAt hexa ((index * 2 + 1) % 2 ^ 32)
  return c1 * 16 + c2

structure Decoding where
  index : ℕ
  r : Bytes

/-- The loop of `hexaToBinary`; `none` is an exception. -/
def decodeBody (hexa : Bytes) (d : Decoding) : Outcome Decoding (Option Bytes) :=
  if d.index < d.r.length then
    match pairAt hexa d.index with
    | .error result => .stop result
    | .ok value => .again ⟨(d.index + 1) % 2 ^ 32, d.r.set d.index (UInt8.ofNat value)⟩
  else .stop (some d.r)

def hexaToBinary (fuel : ℕ) (hexa : Bytes) : Option (Option Bytes) :=
  if hexa.length % 2 ≠ 0 then some (some [])
  else rounds (decodeBody hexa) fuel ⟨0, List.replicate (hexa.length / 2) 0⟩

def Returns (hexa r : Bytes) : Prop := ∃ fuel, hexaToBinary fuel hexa = some (some r)

def binarytoHexa (data : Bytes) (size : ℕ) : Bytes :=
  Common.binarytoHexa (data.take (size % 2 ^ 32))

structure Valid (t : Bytes) : Prop where
  nonempty : t ≠ []
  even : t.length % 2 = 0
  digits : ∀ c ∈ t, IsHexDigit c

theorem Returns.unique {hexa r r' : Bytes} (first : Returns hexa r) (second : Returns hexa r') :
    r = r' := by
  obtain ⟨n, first⟩ := first
  obtain ⟨m, second⟩ := second
  unfold hexaToBinary at first second
  split at first
  · rename_i odd
    rw [if_pos odd] at second
    simpa using first.symm.trans second
  · rename_i even
    rw [if_neg even] at second
    have left := rounds_mono (Nat.le_max_left n m) first
    have right := rounds_mono (Nat.le_max_right n m) second
    simpa using left.symm.trans right

section Digits

variable (c : Byte)

theorem ladder : Common.hexToDecUnit c =
    if c.toNat < 48 then none
    else if c.toNat ≤ 57 then some (c.toNat - 48)
    else if c.toNat < 65 then none
    else if c.toNat ≤ 70 then some (c.toNat - 65 + 10)
    else if c.toNat < 97 then none
    else if c.toNat ≤ 102 then some (c.toNat - 97 + 10)
    else none := rfl

/-- A byte above 127 is negative, and no digit either way. -/
theorem hexToDecUnit_eq : hexToDecUnit c = Common.hexToDecUnit c := by
  rw [ladder]
  by_cases ascii : c.toNat < 128
  · have value : signed c = c.toNat := if_pos ascii
    have below (n : ℤ) (m : ℕ) (same : n = m) : signed c < n ↔ c.toNat < m := by omega
    have within (n : ℤ) (m : ℕ) (same : n = m) : signed c ≤ n ↔ c.toNat ≤ m := by omega
    unfold hexToDecUnit
    simp only [below 48 48 rfl, within 57 57 rfl, below 65 65 rfl, within 70 70 rfl,
      below 97 97 rfl, within 102 102 rfl]
    split_ifs <;> first | rfl | (congr 1; omega)
  · have bound := c.toNat_lt
    have value : signed c < 48 := by
      rw [signed, if_neg ascii]
      omega
    rw [hexToDecUnit, if_pos value]
    split_ifs <;> first | rfl | omega

theorem isSome_hexToDecUnit : (Common.hexToDecUnit c).isSome ↔ IsHexDigit c := by
  rw [ladder]
  unfold IsHexDigit
  split_ifs <;> simp <;> omega

end Digits

section Codec

theorem hexToDecUnit_lut : ∀ d < 16, Common.hexToDecUnit (Common.lut d) = some d := by decide

theorem lut_hexToDecUnit {c : Byte} {d : ℕ} (read : Common.hexToDecUnit c = some d) :
    d < 16 ∧ Common.lut d = toupper c := by
  rw [ladder] at read
  have bound := c.toNat_lt
  unfold Common.lut toupper
  split_ifs at read <;> obtain rfl := Option.some.inj read
  · refine ⟨by omega, ?_⟩
    rw [if_pos (by omega), if_neg (by omega), show 48 + (c.toNat - 48) = c.toNat by omega,
      UInt8.ofNat_toNat]
  · refine ⟨by omega, ?_⟩
    rw [if_neg (by omega), if_neg (by omega),
      show 65 + (c.toNat - 65 + 10 - 10) = c.toNat by omega, UInt8.ofNat_toNat]
  · refine ⟨by omega, ?_⟩
    rw [if_neg (by omega), if_pos (by omega)]
    apply UInt8.toNat_inj.mp
    rw [UInt8.toNat_ofNat', UInt8.toNat_sub_of_le _ _ (UInt8.le_iff_toNat_le.mpr (by simp; omega))]
    simp
    omega

theorem toupper_digit {c d : Byte} (same : toupper c = toupper d) (digit : IsHexDigit d) :
    IsHexDigit c := by
  have value (b : Byte) :
      (toupper b).toNat = if 97 ≤ b.toNat ∧ b.toNat ≤ 122 then b.toNat - 32 else b.toNat := by
    unfold toupper
    split
    · rw [UInt8.toNat_sub_of_le _ _ (UInt8.le_iff_toNat_le.mpr (by simp; omega))]
      rfl
    · rfl
  have values := congrArg UInt8.toNat same
  rw [value, value] at values
  unfold IsHexDigit at digit ⊢
  split_ifs at values <;> omega

theorem binarytoHexa_cons (c : Byte) (s : Bytes) : Common.binarytoHexa (c :: s) =
    Common.lut (c.toNat / 16) :: Common.lut (c.toNat % 16) :: Common.binarytoHexa s := rfl

theorem length_binarytoHexa (s : Bytes) : (Common.binarytoHexa s).length = 2 * s.length := by
  induction s with
  | nil => rfl
  | cons c s ih =>
    rw [binarytoHexa_cons]
    simp only [List.length_cons, ih]
    omega

theorem binarytoHexa_take (n : ℕ) (s : Bytes) :
    Common.binarytoHexa (s.take n) = (Common.binarytoHexa s).take (2 * n) := by
  induction n generalizing s with
  | zero => simp [Common.binarytoHexa]
  | succ n ih =>
    cases s with
    | nil => rfl
    | cons c s =>
      rw [List.take_succ_cons, binarytoHexa_cons, binarytoHexa_cons, ih]
      rfl

theorem binarytoHexa_append (s t : Bytes) :
    Common.binarytoHexa (s ++ t) = Common.binarytoHexa s ++ Common.binarytoHexa t :=
  List.flatMap_append

theorem hexPairs_binarytoHexa (s : Bytes) : Common.hexPairs (Common.binarytoHexa s) = some s := by
  induction s with
  | nil => rfl
  | cons c s ih =>
    have bound := c.toNat_lt
    rw [binarytoHexa_cons, Common.hexPairs, hexToDecUnit_lut _ (by omega),
      hexToDecUnit_lut _ (by omega), ih]
    simp only [Option.bind_some, Option.map_some]
    rw [Nat.div_add_mod' c.toNat 16, UInt8.ofNat_toNat]

theorem hexPairs_digits (t : Bytes) (even : t.length % 2 = 0) (digits : ∀ c ∈ t, IsHexDigit c) :
    ∃ r, Common.hexPairs t = some r ∧ Common.binarytoHexa r = t.map toupper := by
  induction t using Common.hexPairs.induct with
  | case1 c1 c2 rest ih =>
    have shorter : rest.length % 2 = 0 := by
      simp only [List.length_cons] at even
      omega
    have later := ih shorter fun c member => digits c (by simp [member])
    obtain ⟨r, read, written⟩ := later
    have one := (isSome_hexToDecUnit c1).mpr (digits c1 (by simp))
    have two := (isSome_hexToDecUnit c2).mpr (digits c2 (by simp))
    obtain ⟨d1, read1⟩ := Option.isSome_iff_exists.mp one
    obtain ⟨d2, read2⟩ := Option.isSome_iff_exists.mp two
    obtain ⟨small1, upper1⟩ := lut_hexToDecUnit read1
    obtain ⟨small2, upper2⟩ := lut_hexToDecUnit read2
    have value : (UInt8.ofNat (d1 * 16 + d2)).toNat = d1 * 16 + d2 := by
      rw [UInt8.toNat_ofNat']
      omega
    refine ⟨UInt8.ofNat (d1 * 16 + d2) :: r, ?_, ?_⟩
    · rw [Common.hexPairs, read1, read2, read]
      rfl
    · rw [binarytoHexa_cons, value, show (d1 * 16 + d2) / 16 = d1 by omega,
        show (d1 * 16 + d2) % 16 = d2 by omega, upper1, upper2, written]
      rfl
  | case2 t short =>
    match t, short with
    | [], _ => exact ⟨[], rfl, rfl⟩
    | [c], _ => simp at even
    | c1 :: c2 :: rest, short => exact absurd rfl (short c1 c2 rest)

end Codec

section Decoding

/-- What the loop reads of a string: behind 2^32 characters it starts over. -/
def seen (hexa : Bytes) : Bytes := hexa.take (2 ^ 32) ++ hexa.take (hexa.length - 2 ^ 32)

theorem length_seen {hexa : Bytes} (bound : hexa.length < 2 ^ 33) :
    (seen hexa).length = hexa.length := by
  simp only [seen, List.length_append, List.length_take]
  omega

theorem seen_getElem? {hexa : Bytes} (bound : hexa.length < 2 ^ 33) {place : ℕ}
    (inside : place < hexa.length) : (seen hexa)[place]? = hexa[place % 2 ^ 32]? := by
  by_cases first : place < 2 ^ 32
  · rw [seen, List.getElem?_append_left (by rw [List.length_take]; omega),
      List.getElem?_take_of_lt first, Nat.mod_eq_of_lt first]
  · have front : (hexa.take (2 ^ 32)).length = 2 ^ 32 := by
      rw [List.length_take]
      omega
    rw [seen, List.getElem?_append_right (by omega), front, List.getElem?_take_of_lt (by omega),
      show place % 2 ^ 32 = place - 2 ^ 32 by omega]

theorem mem_seen {hexa : Bytes} (bound : hexa.length < 2 ^ 33) {c : Byte} :
    c ∈ seen hexa ↔ c ∈ hexa.take (2 ^ 32) := by
  have shorter : hexa.length - 2 ^ 32 ≤ 2 ^ 32 := by omega
  have prefixed := List.take_subset_take_left hexa shorter
  simp only [seen, List.mem_append, or_iff_left_iff_imp]
  exact fun member => prefixed member

theorem pairAt_eq {hexa : Bytes} {index : ℕ} {c1 c2 : Byte}
    (first : hexa[index * 2 % 2 ^ 32]? = some c1)
    (second : hexa[(index * 2 + 1) % 2 ^ 32]? = some c2) :
    pairAt hexa index =
      match (Common.hexToDecUnit c1).bind fun d1 =>
        (Common.hexToDecUnit c2).map fun d2 => d1 * 16 + d2 with
      | none => .error (some [])
      | some value => .ok value := by
  unfold pairAt digitAt
  rw [first, second]
  simp only [hexToDecUnit_eq]
  cases Common.hexToDecUnit c1 with
  | none => rfl
  | some d1 => cases Common.hexToDecUnit c2 <;> rfl

theorem take_set_succ (r : Bytes) {k : ℕ} (inside : k < r.length) (b : Byte) :
    (r.set k b).take (k + 1) = r.take k ++ [b] := by
  rw [List.take_add_one, List.getElem?_set_self inside, List.take_set_of_le le_rfl]
  rfl

theorem decode_from {hexa : Bytes} (even : hexa.length % 2 = 0) (bound : hexa.length < 2 ^ 33)
    (left : ℕ) (k : ℕ) (r : Bytes) (size : r.length = hexa.length / 2)
    (remaining : k + left = r.length) :
    rounds (decodeBody hexa) (left + 1) ⟨k, r⟩ =
      some (some (((Common.hexPairs ((seen hexa).drop (2 * k))).map (r.take k ++ ·)).getD [])) := by
  induction left generalizing k r with
  | zero =>
    have done : (seen hexa).drop (2 * k) = [] :=
      List.drop_eq_nil_of_le (by rw [length_seen bound]; omega)
    have stops : decodeBody hexa ⟨k, r⟩ = .stop (some r) := if_neg (by simp only; omega)
    rw [rounds_stop stops, done, List.take_of_length_le (by omega)]
    simp [Common.hexPairs]
  | succ left ih =>
    have within : 2 * k < (seen hexa).length := by rw [length_seen bound]; omega
    have behind : 2 * k + 1 < (seen hexa).length := by rw [length_seen bound]; omega
    have first : hexa[k * 2 % 2 ^ 32]? = some (seen hexa)[2 * k] := by
      rw [← seen_getElem? bound (by omega), Nat.mul_comm, List.getElem?_eq_getElem]
    have second : hexa[(k * 2 + 1) % 2 ^ 32]? = some (seen hexa)[2 * k + 1] := by
      rw [← seen_getElem? bound (by omega), Nat.mul_comm, List.getElem?_eq_getElem]
    have opened : (seen hexa).drop (2 * k) =
        (seen hexa)[2 * k] :: (seen hexa)[2 * k + 1] :: (seen hexa).drop (2 * (k + 1)) := by
      rw [List.drop_eq_getElem_cons within, List.drop_eq_getElem_cons behind]
      rfl
    have pair := pairAt_eq first second
    rw [opened, Common.hexPairs]
    cases read : (Common.hexToDecUnit (seen hexa)[2 * k]).bind fun d1 =>
        (Common.hexToDecUnit (seen hexa)[2 * k + 1]).map fun d2 => d1 * 16 + d2 with
    | none =>
      rw [read] at pair
      have stops : decodeBody hexa ⟨k, r⟩ = .stop (some []) := by
        rw [decodeBody, if_pos (by simp only; omega), pair]
      rw [rounds_stop stops]
      cases read1 : Common.hexToDecUnit (seen hexa)[2 * k] with
      | none => rfl
      | some d1 =>
        rw [read1] at read
        cases read2 : Common.hexToDecUnit (seen hexa)[2 * k + 1] with
        | none => rfl
        | some d2 => rw [read2] at read; cases read
    | some value =>
      rw [read] at pair
      obtain ⟨d1, read1, rest⟩ := Option.bind_eq_some_iff.mp read
      obtain ⟨d2, read2, rfl⟩ := Option.map_eq_some_iff.mp rest
      have goes : decodeBody hexa ⟨k, r⟩ =
          .again ⟨k + 1, r.set k (UInt8.ofNat (d1 * 16 + d2))⟩ := by
        rw [decodeBody, if_pos (by simp only; omega), pair]
        simp only
        rw [Nat.mod_eq_of_lt (by omega)]
      rw [rounds_again goes, ih (k + 1) _ (by rw [List.length_set, size])
        (by rw [List.length_set]; omega), take_set_succ r (by omega), read1, read2]
      simp only [Option.bind_some, Option.map_map]
      cases Common.hexPairs ((seen hexa).drop (2 * (k + 1))) <;> simp

theorem returns_odd {hexa : Bytes} (odd : hexa.length % 2 ≠ 0) : Returns hexa [] :=
  ⟨0, if_pos odd⟩

theorem returns_seen {hexa : Bytes} (even : hexa.length % 2 = 0) (bound : hexa.length < 2 ^ 33) :
    Returns hexa (Common.hexaToBinary (seen hexa)) := by
  have zeros : (List.replicate (hexa.length / 2) (0 : Byte)).length = hexa.length / 2 :=
    List.length_replicate
  have rounded := decode_from even bound (hexa.length / 2) 0 _ zeros (by omega)
  refine ⟨hexa.length / 2 + 1, ?_⟩
  rw [hexaToBinary, if_neg (by omega), rounded, Common.hexaToBinary,
    if_neg (by rw [length_seen bound]; omega)]
  simp

theorem pairAt_front (hexa : Bytes) {k : ℕ} (inside : 2 * k + 1 < hexa.length)
    (front : 2 * k + 1 < 2 ^ 32) :
    (∃ value, pairAt hexa k = .ok value ∧ IsHexDigit hexa[2 * k] ∧ IsHexDigit hexa[2 * k + 1]) ∨
      (pairAt hexa k = .error (some []) ∧
        ¬(IsHexDigit hexa[2 * k] ∧ IsHexDigit hexa[2 * k + 1])) := by
  have first : hexa[k * 2 % 2 ^ 32]? = some hexa[2 * k] := by
    rw [Nat.mod_eq_of_lt (by omega), Nat.mul_comm, List.getElem?_eq_getElem]
  have second : hexa[(k * 2 + 1) % 2 ^ 32]? = some hexa[2 * k + 1] := by
    rw [Nat.mod_eq_of_lt (by omega), Nat.mul_comm, List.getElem?_eq_getElem]
  rw [pairAt_eq first second, ← isSome_hexToDecUnit, ← isSome_hexToDecUnit]
  cases Common.hexToDecUnit hexa[2 * k] with
  | none => simp
  | some d1 => cases Common.hexToDecUnit hexa[2 * k + 1] <;> simp

theorem stops_from {hexa : Bytes} {j : ℕ} (inside : 2 * j + 1 < hexa.length)
    (front : 2 * j + 1 < 2 ^ 32) (other : ¬(IsHexDigit hexa[2 * j] ∧ IsHexDigit hexa[2 * j + 1]))
    (left : ℕ) (k : ℕ) (r : Bytes) (size : r.length = hexa.length / 2) (before : k + left = j) :
    rounds (decodeBody hexa) (left + 1) ⟨k, r⟩ = some (some []) := by
  induction left generalizing k r with
  | zero =>
    obtain rfl : k = j := before
    obtain ⟨value, -, digits⟩ | ⟨pair, -⟩ := pairAt_front hexa inside front
    · exact absurd digits other
    · have stops : decodeBody hexa ⟨k, r⟩ = .stop (some []) := by
        rw [decodeBody, if_pos (by simp only; omega), pair]
      rw [rounds_stop stops]
  | succ left ih =>
    obtain ⟨value, pair, -⟩ | ⟨pair, -⟩ :=
      pairAt_front hexa (k := k) (by omega) (by omega)
    · have goes : decodeBody hexa ⟨k, r⟩ = .again ⟨k + 1, r.set k (UInt8.ofNat value)⟩ := by
        rw [decodeBody, if_pos (by simp only; omega), pair]
        simp only
        rw [Nat.mod_eq_of_lt (by omega)]
      rw [rounds_again goes]
      exact ih (k + 1) _ (by rw [List.length_set, size]) (by omega)
    · have stops : decodeBody hexa ⟨k, r⟩ = .stop (some []) := by
        rw [decodeBody, if_pos (by simp only; omega), pair]
      rw [rounds_stop stops]

theorem returns_other {hexa : Bytes} (even : hexa.length % 2 = 0) {c : Byte}
    (member : c ∈ hexa.take (2 ^ 32)) (other : ¬IsHexDigit c) : Returns hexa [] := by
  obtain ⟨place, found⟩ := List.mem_iff_getElem?.mp member
  obtain ⟨inside, same⟩ := List.getElem?_eq_some_iff.mp found
  rw [List.length_take] at inside
  rw [List.getElem_take] at same
  have low_inside : 2 * (place / 2) < hexa.length := by omega
  have high_inside : 2 * (place / 2) + 1 < hexa.length := by omega
  have spoiled : ¬(IsHexDigit hexa[2 * (place / 2)] ∧ IsHexDigit hexa[2 * (place / 2) + 1]) := by
    rintro ⟨first, second⟩
    apply other
    rcases Nat.mod_two_eq_zero_or_one place with low | high
    · have halves : 2 * (place / 2) = place := by omega
      simpa only [halves, same] using first
    · have halves : 2 * (place / 2) + 1 = place := by omega
      simpa only [halves, same] using second
  have stopped := stops_from (by omega) (by omega) spoiled (place / 2) 0
    (List.replicate (hexa.length / 2) 0) List.length_replicate (Nat.zero_add _)
  refine ⟨place / 2 + 1, ?_⟩
  rw [hexaToBinary, if_neg (by omega), stopped]

/-- With 2^32 pairs or more the index never reaches their number. -/
theorem endless {hexa : Bytes} (even : hexa.length % 2 = 0) (long : 2 ^ 33 ≤ hexa.length)
    (digits : ∀ c ∈ hexa.take (2 ^ 32), IsHexDigit c) (r : Bytes) : ¬Returns hexa r := by
  rintro ⟨fuel, returned⟩
  rw [hexaToBinary, if_neg (by omega)] at returned
  have digit {place : ℕ} (front : place < 2 ^ 32) :
      ∃ d, digitAt hexa place = .ok d := by
    have inside : place < hexa.length := by omega
    have member : hexa[place] ∈ hexa.take (2 ^ 32) :=
      List.mem_take_iff_getElem.mpr ⟨place, by omega, rfl⟩
    have some_digit := (isSome_hexToDecUnit _).mpr (digits _ member)
    obtain ⟨d, read⟩ := Option.isSome_iff_exists.mp some_digit
    refine ⟨d, ?_⟩
    unfold digitAt
    rw [List.getElem?_eq_getElem inside]
    simp only [hexToDecUnit_eq, read]
  have on (d : Decoding) (low : d.index < 2 ^ 32 ∧ d.r.length = hexa.length / 2) :
      ∃ value, decodeBody hexa d =
        .again ⟨(d.index + 1) % 2 ^ 32, d.r.set d.index (UInt8.ofNat value)⟩ := by
    obtain ⟨d1, first⟩ := digit (Nat.mod_lt (d.index * 2) (Nat.two_pow_pos 32))
    obtain ⟨d2, second⟩ := digit (Nat.mod_lt (d.index * 2 + 1) (Nat.two_pow_pos 32))
    have pair : pairAt hexa d.index = .ok (d1 * 16 + d2) := by
      unfold pairAt
      rw [first, second]
      rfl
    refine ⟨d1 * 16 + d2, ?_⟩
    rw [decodeBody, if_pos (by omega), pair]
  apply rounds_invariant (P := fun d => d.index < 2 ^ 32 ∧ d.r.length = hexa.length / 2)
    (Q := fun _ => False) ?_ ?_ fuel ?_ returned
  · intro d t low taken
    obtain ⟨value, goes⟩ := on d low
    rw [goes] at taken
    rw [← Outcome.again.inj taken]
    exact ⟨Nat.mod_lt _ (Nat.two_pow_pos 32), by rw [List.length_set, low.2]⟩
  · intro d result low taken
    obtain ⟨value, goes⟩ := on d low
    rw [goes] at taken
    cases taken
  · exact ⟨Nat.two_pow_pos 32, List.length_replicate⟩

end Decoding

section RoundTrips

/-- Up to case, `t` goes on behind 2^32 characters as it began. -/
def Wraps (t : Bytes) : Prop :=
  (t.drop (2 ^ 32)).map toupper = (t.take (t.length - 2 ^ 32)).map toupper

/-- The decoder ends on `t`, with bytes exactly when `t` is valid, and then with
those whose writing is `t` in upper case. -/
def Decodes (t : Bytes) : Prop :=
  ∃ r, Returns t r ∧ (r ≠ [] ↔ Valid t) ∧
    (Valid t → binarytoHexa r r.length = t.map toupper)

def Decodable (t : Bytes) : Prop :=
  t.length % 2 = 1 ∨ (∃ c ∈ t.take (2 ^ 32), ¬IsHexDigit c) ∨ t.length < 2 ^ 33 ∧ Wraps t

def SameHost (t u : Bytes) : Prop := ∃ r, Returns t r ∧ Returns u r

theorem wraps_iff (t : Bytes) : Wraps t ↔ (seen t).map toupper = t.map toupper := by
  have parts : t.map toupper =
      (t.take (2 ^ 32)).map toupper ++ (t.drop (2 ^ 32)).map toupper := by
    rw [← List.map_append, List.take_append_drop]
  rw [Wraps, parts, seen, List.map_append, List.append_cancel_left_eq, eq_comm]

theorem binarytoHexa_all {r : Bytes} (short : r.length < 2 ^ 32) :
    binarytoHexa r r.length = Common.binarytoHexa r := by
  rw [binarytoHexa, Nat.mod_eq_of_lt short, List.take_length]

theorem returns_digits {t : Bytes} (even : t.length % 2 = 0) (bound : t.length < 2 ^ 33)
    (digits : ∀ c ∈ t.take (2 ^ 32), IsHexDigit c) :
    ∃ r, Returns t r ∧ 2 * r.length = t.length ∧
      binarytoHexa r r.length = (seen t).map toupper := by
  have length := length_seen bound
  obtain ⟨r, read, written⟩ := hexPairs_digits (seen t) (by omega)
    fun c member => digits c ((mem_seen bound).mp member)
  have returned := returns_seen even bound
  rw [Common.hexaToBinary, if_neg (by omega), read, Option.getD_some] at returned
  have lengths := congrArg List.length written
  rw [length_binarytoHexa, List.length_map, length] at lengths
  exact ⟨r, returned, lengths, (binarytoHexa_all (by omega)).trans written⟩

theorem decodes_of_empty {t : Bytes} (returned : Returns t []) (invalid : ¬Valid t) :
    Decodes t :=
  ⟨[], returned, by simp [invalid], fun valid => absurd valid invalid⟩

theorem decodes_iff (t : Bytes) : Decodes t ↔ Decodable t := by
  by_cases odd : t.length % 2 = 1
  · have invalid : ¬Valid t := fun valid => by have := valid.even; omega
    exact iff_of_true (decodes_of_empty (returns_odd (by omega)) invalid) (.inl odd)
  have even : t.length % 2 = 0 := by omega
  by_cases digits : ∀ c ∈ t.take (2 ^ 32), IsHexDigit c
  case neg =>
    obtain ⟨c, member, other⟩ : ∃ c ∈ t.take (2 ^ 32), ¬IsHexDigit c := by
      simpa using digits
    have invalid : ¬Valid t := fun valid => other (valid.digits c (List.mem_of_mem_take member))
    have returned := returns_other even member other
    exact iff_of_true (decodes_of_empty returned invalid) (.inr (.inl ⟨c, member, other⟩))
  have spoiled : ¬∃ c ∈ t.take (2 ^ 32), ¬IsHexDigit c := by
    rintro ⟨c, member, other⟩
    exact other (digits c member)
  by_cases bound : t.length < 2 ^ 33
  case neg =>
    have never := endless even (Nat.le_of_not_lt bound) digits
    refine iff_of_false ?_ ?_
    · rintro ⟨r, returned, -⟩
      exact never r returned
    · rintro (same | same | ⟨short, -⟩)
      · exact odd same
      · exact spoiled same
      · exact bound short
  obtain ⟨r, returned, length, written⟩ := returns_digits even bound digits
  constructor
  · rintro ⟨r', again, nonempty, upper⟩
    obtain rfl := returned.unique again
    refine .inr (.inr ⟨bound, ?_⟩)
    by_cases empty : t = []
    · rw [empty]
      rfl
    · have some_bytes : r ≠ [] := by
        rintro rfl
        exact empty (List.eq_nil_of_length_eq_zero length.symm)
      rw [wraps_iff, ← written]
      exact upper (nonempty.mp some_bytes)
  · rintro (same | same | ⟨-, wraps⟩)
    · exact absurd same odd
    · exact absurd same spoiled
    have upper := (wraps_iff t).mp wraps
    refine ⟨r, returned, ⟨fun some_bytes => ?_, fun valid => ?_⟩, fun _ => written.trans upper⟩
    · refine ⟨?_, even, fun c member => ?_⟩
      · rintro rfl
        exact some_bytes (List.eq_nil_of_length_eq_zero (by simpa using length))
      · have image : toupper c ∈ (seen t).map toupper := by
          rw [upper]
          exact List.mem_map_of_mem member
        obtain ⟨d, front, same⟩ := List.mem_map.mp image
        exact toupper_digit same.symm (digits d ((mem_seen bound).mp front))
    · rintro rfl
      exact valid.nonempty (List.eq_nil_of_length_eq_zero length.symm)

theorem returns_binarytoHexa_iff (s : Bytes) :
    Returns (binarytoHexa s s.length) s ↔
      s.length < 2 ^ 32 ∧ s.drop (2 ^ 31) = s.take (s.length - 2 ^ 31) := by
  have cut : (s.take (s.length % 2 ^ 32)).length = s.length % 2 ^ 32 := by
    rw [List.length_take]
    omega
  have small : s.length % 2 ^ 32 < 2 ^ 32 := Nat.mod_lt _ (Nat.two_pow_pos 32)
  generalize narrowed : s.take (s.length % 2 ^ 32) = s' at cut
  have length := length_binarytoHexa s'
  have folded : seen (Common.binarytoHexa s') =
      Common.binarytoHexa (s'.take (2 ^ 31) ++ s'.take (s'.length - 2 ^ 31)) := by
    rw [binarytoHexa_append, binarytoHexa_take, binarytoHexa_take, seen, length,
      show 2 * s'.length - 2 ^ 32 = 2 * (s'.length - 2 ^ 31) by omega]
    rfl
  have even : (Common.binarytoHexa s').length % 2 = 0 := by omega
  have returned := returns_seen even (by omega)
  rw [folded, Common.hexaToBinary, if_neg (by rw [length_binarytoHexa]; omega),
    hexPairs_binarytoHexa, Option.getD_some] at returned
  rw [binarytoHexa, narrowed]
  constructor
  · intro same
    have equal := same.unique returned
    have lengths := congrArg List.length equal
    simp only [List.length_append, List.length_take] at lengths
    have bound : s.length < 2 ^ 32 := by omega
    have whole : s' = s := by
      rw [← narrowed, Nat.mod_eq_of_lt bound, List.take_length]
    rw [whole] at equal
    refine ⟨bound, ?_⟩
    conv at equal => lhs; rw [← List.take_append_drop (2 ^ 31) s]
    exact List.append_cancel_left equal
  · rintro ⟨bound, tail⟩
    have whole : s' = s := by
      rw [← narrowed, Nat.mod_eq_of_lt bound, List.take_length]
    rw [whole, ← tail, List.take_append_drop] at returned
    rwa [whole]

/-- Two valid strings that agree in length and in their first 2^32 characters
are short enough to be decoded just if they agree behind them as well. -/
def Distinguished (t u : Bytes) : Prop :=
  t.length = u.length → (t.take (2 ^ 32)).map toupper = (u.take (2 ^ 32)).map toupper →
    (t.length < 2 ^ 33 ↔ t.map toupper = u.map toupper)

theorem seen_upper {t u : Bytes} (bound : t.length < 2 ^ 33) (length : t.length = u.length) :
    (seen t).map toupper = (seen u).map toupper ↔
      (t.take (2 ^ 32)).map toupper = (u.take (2 ^ 32)).map toupper := by
  have shorter : t.length - 2 ^ 32 ≤ 2 ^ 32 := by omega
  have again (v : Bytes) : (v.take (t.length - 2 ^ 32)).map toupper =
      ((v.take (2 ^ 32)).map toupper).take (t.length - 2 ^ 32) := by
    rw [← List.map_take, List.take_take, Nat.min_eq_left shorter]
  unfold seen
  rw [List.map_append, List.map_append, ← length]
  constructor
  · intro same
    exact (List.append_inj same (by simp only [List.length_map, List.length_take, length])).1
  · intro front
    rw [again t, again u, front]

theorem sameHost_iff {t u : Bytes} (first : Valid t) (second : Valid u) :
    SameHost t u ↔ t.length = u.length ∧ t.length < 2 ^ 33 ∧
      (t.take (2 ^ 32)).map toupper = (u.take (2 ^ 32)).map toupper := by
  have front {v : Bytes} (valid : Valid v) : ∀ c ∈ v.take (2 ^ 32), IsHexDigit c :=
    fun c member => valid.digits c (List.mem_of_mem_take member)
  have ends {v r : Bytes} (valid : Valid v) (returned : Returns v r) : v.length < 2 ^ 33 := by
    by_contra long
    exact endless valid.even (Nat.le_of_not_lt long) (front valid) r returned
  constructor
  · rintro ⟨r, returned, returned'⟩
    have bound := ends first returned
    obtain ⟨rt, again, length, written⟩ := returns_digits first.even bound (front first)
    obtain ⟨ru, again', length', written'⟩ :=
      returns_digits second.even (ends second returned') (front second)
    obtain rfl := returned.unique again
    obtain rfl := returned'.unique again'
    have lengths : t.length = u.length := by omega
    exact ⟨lengths, bound, (seen_upper bound lengths).mp (written.symm.trans written')⟩
  · rintro ⟨lengths, bound, agree⟩
    obtain ⟨rt, returned, length, written⟩ := returns_digits first.even bound (front first)
    obtain ⟨ru, returned', length', written'⟩ :=
      returns_digits second.even (lengths ▸ bound) (front second)
    have equal := written.trans (((seen_upper bound lengths).mpr agree).trans written'.symm)
    rw [binarytoHexa_all (by omega), binarytoHexa_all (by omega)] at equal
    obtain rfl := CacheKeys.binarytoHexa_injective _ _ equal
    exact ⟨rt, returned, returned'⟩

theorem sameHost_upper_iff {t u : Bytes} (first : Valid t) (second : Valid u) :
    (SameHost t u ↔ t.map toupper = u.map toupper) ↔ Distinguished t u := by
  rw [sameHost_iff first second]
  have lengths (same : t.map toupper = u.map toupper) : t.length = u.length := by
    simpa using congrArg List.length same
  have fronts (same : t.map toupper = u.map toupper) :
      (t.take (2 ^ 32)).map toupper = (u.take (2 ^ 32)).map toupper := by
    rw [List.map_take, List.map_take, same]
  unfold Distinguished
  tauto

theorem codec_iff (s t u : Bytes) :
    (Returns (binarytoHexa s s.length) s ↔
      s.length < 2 ^ 32 ∧ s.drop (2 ^ 31) = s.take (s.length - 2 ^ 31)) ∧
    (Decodes t ↔ Decodable t) ∧
    (Valid t → Valid u → ((SameHost t u ↔ t.map toupper = u.map toupper) ↔ Distinguished t u)) :=
  ⟨returns_binarytoHexa_iff s, decodes_iff t, sameHost_upper_iff⟩

def overlong : Bytes := List.replicate (2 ^ 31) 0 ++ [1]

theorem overlong_lost : ¬Returns (binarytoHexa overlong overlong.length) overlong := by
  have zeros : (List.replicate (2 ^ 31) (0 : Byte)).length = 2 ^ 31 := List.length_replicate
  have length : overlong.length = 2 ^ 31 + 1 := by
    rw [overlong, List.length_append, zeros, List.length_singleton]
  have tail : overlong.drop (2 ^ 31) = [1] := List.drop_left' zeros
  have front : overlong.take 1 = [0] := by
    rw [overlong, List.take_append_of_le_length (by rw [zeros]; omega), List.take_replicate]
    rfl
  rw [returns_binarytoHexa_iff, length, tail, Nat.add_sub_cancel_left, front]
  simp

end RoundTrips

end FastCgiCdn.HexCodec
