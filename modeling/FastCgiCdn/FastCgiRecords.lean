import FastCgiCdn.HeadModel
import FastCgiCdn.RecordFormat

/-! The FastCGI records of a read as `Client::readyToRead` parses them. The
receive buffer lies on the stack, so what is behind the bytes of a read is
arbitrary, and names and values are compared and copied before their length is
checked. A client that is disconnected is never read again, so nothing is said
of its strings. -/

namespace FastCgiCdn.FastCgiRecords

open HttpModel MeasuredLoop RecordFormat

structure Client where
  isValid : Bool
  fastcgiid : Option ℕ
  fullyParsed : Bool
  https : Bool
  uri : Bytes
  host : Bytes
  deriving DecidableEq, Repr

def Client.new : Client := ⟨true, none, false, false, [], []⟩

def Client.disconnect (c : Client) : Client := { c with isValid := false, fastcgiid := none }

section Bits

variable (buff : Buffer) (size pos : ℕ)

def canAddToPos (i : ℕ) : Option ℕ := if size < pos + i then none else some (pos + i)

def read8Bits : Option (ℕ × ℕ) :=
  if size < pos + 1 then none else some ((buff pos).toNat, pos + 1)

def read16Bits : Option (ℕ × ℕ) :=
  if size < pos + 2 then none
  else some ((buff pos).toNat * 256 + (buff (pos + 1)).toNat, pos + 2)

def read24Bits : Option (ℕ × ℕ) :=
  if size < pos + 3 then none
  else some ((buff pos).toNat * 65536 + (buff (pos + 1)).toNat * 256 + (buff (pos + 2)).toNat,
    pos + 3)

def readSize : Option (ℕ × ℕ) :=
  (read8Bits buff size pos).bind fun (varSize8, pos) =>
    if 127 < varSize8 then read24Bits buff size pos else some (varSize8, pos)

def readSizes : Option (ℕ × ℕ × ℕ) :=
  (readSize buff size pos).bind fun (varSize, pos) =>
    (readSize buff size pos).map fun (valSize, pos) => (varSize, valSize, pos)

/-- `memcmp` with a text. -/
def holds (text : Bytes) : Bool := span buff pos (pos + text.length) = text

end Bits

section Bounds

variable {buff : Buffer} {size pos next n : ℕ}

theorem canAddToPos_bound {i : ℕ} (added : canAddToPos size pos i = some next) :
    next = pos + i ∧ next ≤ size := by
  unfold canAddToPos at added
  split at added
  · cases added
  · obtain rfl := Option.some.inj added
    omega

theorem read8Bits_bound (read : read8Bits buff size pos = some (n, next)) :
    next = pos + 1 ∧ next ≤ size := by
  unfold read8Bits at read
  split at read
  · cases read
  · obtain ⟨-, rfl⟩ := Prod.mk.inj (Option.some.inj read)
    omega

theorem read16Bits_bound (read : read16Bits buff size pos = some (n, next)) :
    next = pos + 2 ∧ next ≤ size := by
  unfold read16Bits at read
  split at read
  · cases read
  · obtain ⟨-, rfl⟩ := Prod.mk.inj (Option.some.inj read)
    omega

theorem readSize_bound (read : readSize buff size pos = some (n, next)) :
    pos < next ∧ next ≤ size := by
  obtain ⟨⟨varSize8, middle⟩, first, rest⟩ := Option.bind_eq_some_iff.mp read
  have before := read8Bits_bound first
  simp only at rest
  split at rest
  · unfold read24Bits at rest
    split at rest
    · cases rest
    · obtain ⟨-, rfl⟩ := Prod.mk.inj (Option.some.inj rest)
      omega
  · obtain ⟨-, rfl⟩ := Prod.mk.inj (Option.some.inj rest)
    omega

theorem readSizes_bound {varSize valSize : ℕ}
    (read : readSizes buff size pos = some (varSize, valSize, next)) :
    pos + 2 ≤ next ∧ next ≤ size := by
  obtain ⟨⟨n, middle⟩, first, rest⟩ := Option.bind_eq_some_iff.mp read
  obtain ⟨⟨m, last⟩, second, same⟩ := Option.map_eq_some_iff.mp rest
  obtain ⟨-, -, rfl⟩ : n = varSize ∧ m = valSize ∧ last = next := by simpa using same
  have before := readSize_bound first
  have behind := readSize_bound second
  omega

end Bounds

structure Scan where
  client : Client
  ifNoneMatch : Bytes
  pos : ℕ

inductive Parsed
  | refused
  | antiLoop
  | parsed (s : Scan)

section Records

variable (buff : Buffer) (size : ℕ)

/-- Only the first five bytes of the mark are compared. -/
def antiLoop (pos varSize valSize : ℕ) : Bool :=
  varSize = 8 && holds buff pos (ascii "EPNOERFT") && valSize = 8 &&
    holds buff (pos + varSize) ((ascii "ysff43Uy").take 5)

def takeParam (pos varSize valSize : ℕ) (s : Scan) : Scan :=
  let value := span buff (pos + varSize) (pos + varSize + valSize)
  if varSize = 9 && holds buff pos (ascii "HTTP_HOST") then
    { s with client := { s.client with host := value } }
  else if varSize = 11 && holds buff pos (ascii "REQUEST_URI") then
    { s with client := { s.client with uri := value } }
  else if varSize = 14 && holds buff pos (ascii "REQUEST_SCHEME") && valSize = 5 &&
      holds buff (pos + varSize) (ascii "https") then
    { s with client := { s.client with https := true } }
  else if varSize = 18 && holds buff pos (ascii "HTTP_IF_NONE_MATCH") && valSize = 8 then
    { s with ifNoneMatch := value }
  else s

def paramsBody (contentLenghtAbs : ℕ) (s : Scan) : Outcome Scan Parsed :=
  if s.pos < contentLenghtAbs then
    match readSizes buff size s.pos with
    | none => .stop .refused
    | some (varSize, valSize, pos) =>
      if antiLoop buff pos varSize valSize then .stop .antiLoop
      else match canAddToPos size pos (varSize + valSize) with
        | none => .stop .refused
        | some next => .again { takeParam buff pos varSize valSize s with pos := next }
  else .stop (.parsed s)

theorem paramsBody_advances {contentLenghtAbs : ℕ} {s t : Scan}
    (taken : paramsBody buff size contentLenghtAbs s = .again t) : s.pos < t.pos ∧ t.pos ≤ size := by
  unfold paramsBody at taken
  split at taken
  · split at taken
    · cases taken
    · rename_i sizes
      split at taken
      · cases taken
      · split at taken
        · cases taken
        · rename_i added
          obtain rfl := Outcome.again.inj taken
          have read := readSizes_bound sizes
          have bound := canAddToPos_bound added
          simp only
          omega
  · cases taken

/-- The loop over the pairs of a record. The last one may end behind the record. -/
def params (contentLenghtAbs : ℕ) : Loop Scan Parsed where
  body := paramsBody buff size contentLenghtAbs
  measure s := size - s.pos
  decreases s t taken := by
    have bound := paramsBody_advances buff size taken
    omega

theorem params_pos (contentLenghtAbs : ℕ) (s : Scan) :
    ∀ t, (params buff size contentLenghtAbs).run s = .parsed t → s.pos ≤ t.pos := by
  apply (params buff size contentLenghtAbs).run_induct
    (P := fun s end_ => ∀ t, end_ = .parsed t → s.pos ≤ t.pos)
  · rintro s _ taken t rfl
    change paramsBody buff size contentLenghtAbs s = _ at taken
    unfold paramsBody at taken
    split at taken
    · split at taken
      · cases taken
      · split at taken
        · cases taken
        · split at taken <;> cases taken
    · obtain rfl := Parsed.parsed.inj (Outcome.stop.inj taken)
      exact le_rfl
  · intro s t taken later u parsed
    have bound := paramsBody_advances buff size taken
    have rest := later u parsed
    omega

def recordStart (c : Client) (pos : ℕ) : Option (Client × ℕ × ℕ) :=
  (read8Bits buff size pos).bind fun (version, pos) =>
    if version ≠ 1 then none
    else (read8Bits buff size pos).bind fun (var8, pos) =>
      match c.fastcgiid with
      | none =>
        if var8 ≠ 1 then none
        else (read16Bits buff size pos).map fun (var16, pos) =>
          ({ c with fastcgiid := some var16 }, var8, pos)
      | some fastcgiid =>
        if var8 ≠ 4 ∧ var8 ≠ 5 then none
        else (read16Bits buff size pos).bind fun (var16, pos) =>
          if var16 ≠ fastcgiid then none else some (c, var8, pos)

structure Header where
  client : Client
  var8 : ℕ
  contentLenght : ℕ
  paddingLength : ℕ
  pos : ℕ

def recordHeader (c : Client) (pos : ℕ) : Option Header :=
  (recordStart buff size c pos).bind fun (c, var8, pos) =>
    (read16Bits buff size pos).bind fun (contentLenght, pos) =>
      (read8Bits buff size pos).bind fun (paddingLength, pos) =>
        (canAddToPos size pos 1).map fun pos => ⟨c, var8, contentLenght, paddingLength, pos⟩

theorem recordStart_bound {c d : Client} {pos var8 next : ℕ}
    (started : recordStart buff size c pos = some (d, var8, next)) : next = pos + 4 := by
  obtain ⟨⟨version, p⟩, first, rest⟩ := Option.bind_eq_some_iff.mp started
  have one := read8Bits_bound first
  simp only at rest
  split at rest
  · cases rest
  · obtain ⟨⟨kind, q⟩, second, rest⟩ := Option.bind_eq_some_iff.mp rest
    have two := read8Bits_bound second
    simp only at rest
    split at rest
    · split at rest
      · cases rest
      · obtain ⟨⟨var16, r⟩, third, same⟩ := Option.map_eq_some_iff.mp rest
        have three := read16Bits_bound third
        obtain ⟨-, -, rfl⟩ : _ ∧ _ ∧ r = next := by simpa using same
        omega
    · split at rest
      · cases rest
      · obtain ⟨⟨var16, r⟩, third, rest⟩ := Option.bind_eq_some_iff.mp rest
        have three := read16Bits_bound third
        simp only at rest
        split at rest
        · cases rest
        · obtain ⟨-, -, rfl⟩ : _ ∧ _ ∧ r = next := by simpa using rest
          omega

theorem recordHeader_bound {c : Client} {pos : ℕ} {h : Header}
    (read : recordHeader buff size c pos = some h) : h.pos = pos + 8 := by
  obtain ⟨⟨d, var8, p⟩, first, rest⟩ := Option.bind_eq_some_iff.mp read
  obtain ⟨⟨contentLenght, q⟩, second, rest⟩ := Option.bind_eq_some_iff.mp rest
  obtain ⟨⟨paddingLength, r⟩, third, rest⟩ := Option.bind_eq_some_iff.mp rest
  obtain ⟨last, added, rfl⟩ := Option.map_eq_some_iff.mp rest
  have one := recordStart_bound buff size first
  have two := read16Bits_bound second
  have three := read8Bits_bound third
  have four := canAddToPos_bound added
  simp only
  omega

def record (s : Scan) : Parsed :=
  match recordHeader buff size s.client s.pos with
  | none => .refused
  | some h =>
    if h.var8 = 4 then
      match (params buff size (h.contentLenght + h.pos)).run
          { s with client := h.client, pos := h.pos } with
      | .parsed t =>
        match canAddToPos size t.pos h.paddingLength with
        | none => .refused
        | some pos => .parsed { t with pos := pos }
      | fault => fault
    else
      match canAddToPos size h.pos (h.contentLenght + h.paddingLength) with
      | none => .refused
      | some pos => .parsed { s with
          client := { h.client with fullyParsed := h.client.fullyParsed || h.var8 = 5 }
          pos := pos }

theorem record_advances {s t : Scan} (read : record buff size s = .parsed t) : s.pos < t.pos := by
  unfold record at read
  split at read
  · cases read
  · rename_i h header
    have start := recordHeader_bound buff size header
    split at read
    · split at read
      · rename_i u parsed
        have inside := params_pos buff size _ _ u parsed
        split at read
        · cases read
        · rename_i added
          obtain rfl := Parsed.parsed.inj read
          have padding := canAddToPos_bound added
          simp only at inside ⊢
          omega
      · rename_i fault
        exact absurd read (fault t)
    · split at read
      · cases read
      · rename_i added
        obtain rfl := Parsed.parsed.inj read
        have padding := canAddToPos_bound added
        simp only
        omega

def recordsBody (s : Scan) : Outcome Scan Parsed :=
  match record buff size s with
  | .parsed t => if t.pos < size then .again t else .stop (.parsed t)
  | fault => .stop fault

def records : Loop Scan Parsed where
  body := recordsBody buff size
  measure s := size - s.pos
  decreases s t taken := by
    unfold recordsBody at taken
    split at taken
    · rename_i u read
      have advanced := record_advances buff size read
      split at taken
      · obtain rfl := Outcome.again.inj taken
        omega
      · cases taken
    · cases taken

end Records

def requestOf (params : List (Bytes × Bytes)) : Bytes :=
  plainBytes 1 1 [0, 1, 0, 0, 0, 0, 0, 0] ++
    plainBytes 4 1 (params.flatMap fun p => pairBytes false false p.1 p.2) ++ plainBytes 4 1 [] ++
    plainBytes 5 1 []

end FastCgiCdn.FastCgiRecords
