import FastCgiCdn.RecordCuts
import FastCgiCdn.TracedReads

/-! Where `Client::readyToRead` looks in its receive buffer. Headers and sizes are read
by helpers that know the end of the read. The names and values of the pairs are compared
and copied before it is checked that the pair lies in front of that end. What is printed
of a refused read are its own bytes, and left out. -/

namespace FastCgiCdn.ParamReads

open ClientModel FastCgiRecords HttpModel MeasuredLoop RecordCuts TracedReads

section Bits

variable (buff : Buffer) (size pos : ℕ)

def tracedRead8Bits : Traced (Option (ℕ × ℕ)) :=
  if size < pos + 1 then pure none
  else do
    let var ← peek buff pos
    pure (some (var.toNat, pos + 1))

def tracedRead16Bits : Traced (Option (ℕ × ℕ)) :=
  if size < pos + 2 then pure none
  else do
    let high ← peek buff pos
    let low ← peek buff (pos + 1)
    pure (some (high.toNat * 256 + low.toNat, pos + 2))

def tracedRead24Bits : Traced (Option (ℕ × ℕ)) :=
  if size < pos + 3 then pure none
  else do
    let high ← peek buff pos
    let middle ← peek buff (pos + 1)
    let low ← peek buff (pos + 2)
    pure (some (high.toNat * 65536 + middle.toNat * 256 + low.toNat, pos + 3))

def tracedReadSize : Traced (Option (ℕ × ℕ)) :=
  bindSome (tracedRead8Bits buff size pos) fun (varSize8, pos) =>
    if 127 < varSize8 then tracedRead24Bits buff size pos else pure (some (varSize8, pos))

def tracedReadSizes : Traced (Option (ℕ × ℕ × ℕ)) :=
  bindSome (tracedReadSize buff size pos) fun (varSize, pos) =>
    bindSome (tracedReadSize buff size pos) fun (valSize, pos) => pure (some (varSize, valSize, pos))

def tracedHolds (text : Bytes) : Traced Bool := do
  let found ← look buff pos text.length
  pure (found = text)

theorem look_val (count : ℕ) : (look buff pos count).val = span buff pos (pos + count) := by
  unfold look span
  rw [Nat.add_sub_cancel_left]

theorem tracedHolds_val (text : Bytes) : (tracedHolds buff pos text).val = holds buff pos text := by
  unfold tracedHolds holds
  rw [val_bind, look_val]
  rfl

theorem tracedRead8Bits_val : (tracedRead8Bits buff size pos).val = read8Bits buff size pos := by
  unfold tracedRead8Bits read8Bits
  split <;> rfl

theorem tracedRead16Bits_val : (tracedRead16Bits buff size pos).val = read16Bits buff size pos := by
  unfold tracedRead16Bits read16Bits
  split <;> rfl

theorem tracedRead24Bits_val : (tracedRead24Bits buff size pos).val = read24Bits buff size pos := by
  unfold tracedRead24Bits read24Bits
  split <;> rfl

theorem tracedReadSize_val : (tracedReadSize buff size pos).val = readSize buff size pos := by
  unfold tracedReadSize readSize
  rw [val_bindSome, tracedRead8Bits_val]
  simp only [val_ite, tracedRead24Bits_val, val_pure]

theorem tracedReadSizes_val : (tracedReadSizes buff size pos).val = readSizes buff size pos := by
  unfold tracedReadSizes readSizes
  rw [val_bindSome, tracedReadSize_val]
  simp only [val_bindSome, tracedReadSize_val, val_pure]
  congr 1
  funext first
  exact (Option.map_eq_bind ..).symm

theorem inside_tracedRead8Bits : (tracedRead8Bits buff size pos).Inside size := by
  unfold tracedRead8Bits
  split
  · exact inside_pure _
  · exact inside_then (inside_peek.mpr (by omega)) (inside_pure _)

theorem inside_tracedRead16Bits : (tracedRead16Bits buff size pos).Inside size := by
  unfold tracedRead16Bits
  split
  · exact inside_pure _
  · refine inside_then (inside_peek.mpr (by omega)) (inside_then (inside_peek.mpr (by omega)) ?_)
    exact inside_pure _

theorem inside_tracedRead24Bits : (tracedRead24Bits buff size pos).Inside size := by
  unfold tracedRead24Bits
  split
  · exact inside_pure _
  · refine inside_then (inside_peek.mpr (by omega)) (inside_then (inside_peek.mpr (by omega)) ?_)
    exact inside_then (inside_peek.mpr (by omega)) (inside_pure _)

theorem inside_tracedReadSize : (tracedReadSize buff size pos).Inside size := by
  refine inside_bindSome (inside_tracedRead8Bits buff size pos) fun first => ?_
  dsimp only
  split
  · exact inside_tracedRead24Bits _ _ _
  · exact inside_pure _

theorem inside_tracedReadSizes : (tracedReadSizes buff size pos).Inside size := by
  refine inside_bindSome (inside_tracedReadSize buff size pos) fun first => ?_
  exact inside_bindSome (inside_tracedReadSize buff size _) fun second => inside_pure _

end Bits

section HonestBits

variable (size pos : ℕ)

theorem honest_tracedRead8Bits : Honest fun buff => tracedRead8Bits buff size pos := by
  unfold tracedRead8Bits
  exact honest_ite _ (honest_const _) (honest_bind (honest_peek _) fun var => honest_const _)

theorem honest_tracedRead16Bits : Honest fun buff => tracedRead16Bits buff size pos := by
  unfold tracedRead16Bits
  refine honest_ite _ (honest_const _) (honest_bind (honest_peek _) fun high => ?_)
  exact honest_bind (honest_peek _) fun low => honest_const _

theorem honest_tracedRead24Bits : Honest fun buff => tracedRead24Bits buff size pos := by
  unfold tracedRead24Bits
  refine honest_ite _ (honest_const _) (honest_bind (honest_peek _) fun high => ?_)
  refine honest_bind (honest_peek _) fun middle => ?_
  exact honest_bind (honest_peek _) fun low => honest_const _

theorem honest_tracedReadSize : Honest fun buff => tracedReadSize buff size pos := by
  refine honest_bindSome (honest_tracedRead8Bits size pos) fun first => ?_
  exact honest_ite _ (honest_tracedRead24Bits size _) (honest_const _)

theorem honest_tracedReadSizes : Honest fun buff => tracedReadSizes buff size pos := by
  refine honest_bindSome (honest_tracedReadSize size pos) fun first => ?_
  exact honest_bindSome (honest_tracedReadSize size _) fun second => honest_const _

theorem honest_tracedHolds (text : Bytes) : Honest fun buff => tracedHolds buff pos text := by
  unfold tracedHolds
  exact honest_bind (honest_look _ _) fun found => honest_const _

end HonestBits

section Pair

variable (buff : Buffer) (pos varSize valSize : ℕ) (s : Scan)

def tracedAntiLoop : Traced Bool :=
  if varSize = 8 then do
    let named ← tracedHolds buff pos (ascii "EPNOERFT")
    if named && valSize = 8 then tracedHolds buff (pos + varSize) ((ascii "ysff43Uy").take 5)
    else pure false
  else pure false

/-- The address of the peer is only printed. -/
def tracedTakeParam : Traced Scan :=
  if varSize = 9 then do
    let named ← tracedHolds buff pos (ascii "HTTP_HOST")
    if named then do
      let value ← look buff (pos + varSize) valSize
      pure { s with client := { s.client with host := value } }
    else pure s
  else if varSize = 11 then do
    let named ← tracedHolds buff pos (ascii "REQUEST_URI")
    if named then do
      let value ← look buff (pos + varSize) valSize
      pure { s with client := { s.client with uri := value } }
    else do
      let remote ← tracedHolds buff pos (ascii "REMOTE_ADDR")
      if remote then do
        let _ ← look buff (pos + varSize) valSize
        pure s
      else pure s
  else if varSize = 14 then do
    let named ← tracedHolds buff pos (ascii "REQUEST_SCHEME")
    if named && valSize = 5 then do
      let secure ← tracedHolds buff (pos + varSize) (ascii "https")
      pure (if secure then { s with client := { s.client with https := true } } else s)
    else pure s
  else if varSize = 18 then do
    let named ← tracedHolds buff pos (ascii "HTTP_IF_NONE_MATCH")
    if named && valSize = 8 then do
      let value ← look buff (pos + varSize) valSize
      pure { s with ifNoneMatch := value }
    else pure s
  else pure s

theorem tracedAntiLoop_val :
    (tracedAntiLoop buff pos varSize valSize).val = antiLoop buff pos varSize valSize := by
  unfold tracedAntiLoop antiLoop
  by_cases eight : varSize = 8
  · rw [if_pos eight, val_bind, tracedHolds_val, val_ite, tracedHolds_val, decide_eq_true eight]
    cases holds buff pos (ascii "EPNOERFT") with
    | false => rfl
    | true =>
      cases decide (valSize = 8) <;> rfl
  · rw [if_neg eight, decide_eq_false eight]
    rfl

theorem tracedTakeParam_val :
    (tracedTakeParam buff pos varSize valSize s).val = takeParam buff pos varSize valSize s := by
  unfold tracedTakeParam takeParam
  simp only [val_ite, val_bind, val_pure, tracedHolds_val, look_val, Bool.and_eq_true,
    decide_eq_true_eq, ite_self]
  by_cases nine : varSize = 9
  · simp [nine]
  by_cases eleven : varSize = 11
  · simp [eleven]
  by_cases fourteen : varSize = 14
  · simp [fourteen, ite_and]
  · simp [nine, eleven, fourteen, ite_and]

/-- How many bytes of a pair are looked at. -/
def looked : ℕ :=
  if varSize = 8 then if holds buff pos (ascii "EPNOERFT") && valSize = 8 then 8 + 5 else 8
  else if varSize = 9 then if holds buff pos (ascii "HTTP_HOST") then 9 + valSize else 9
  else if varSize = 11 then
    if holds buff pos (ascii "REQUEST_URI") then 11 + valSize
    else if holds buff pos (ascii "REMOTE_ADDR") then 11 + valSize else 11
  else if varSize = 14 then
    if holds buff pos (ascii "REQUEST_SCHEME") && valSize = 5 then 14 + 5 else 14
  else if varSize = 18 then
    if holds buff pos (ascii "HTTP_IF_NONE_MATCH") && valSize = 8 then 18 + valSize else 18
  else 0

variable {n : ℕ}

theorem inside_tracedHolds (front : pos ≤ n) (text : Bytes) :
    (tracedHolds buff pos text).Inside n ↔ pos + text.length ≤ n := by
  unfold tracedHolds
  rw [inside_bind, inside_look_front front, and_iff_left (inside_pure _)]

theorem inside_compared {γ : Type} (front : pos ≤ n) (text : Bytes) {c : Bool → Prop}
    [∀ b, Decidable (c b)] {more other : Traced γ} {k j : ℕ} (longer : text.length ≤ k)
    (long : text.length ≤ j) (further : pos + text.length ≤ n → (more.Inside n ↔ pos + k ≤ n))
    (else_ : pos + text.length ≤ n → (other.Inside n ↔ pos + j ≤ n)) :
    (tracedHolds buff pos text >>= fun named => if c named then more else other).Inside n ↔
      pos + (if c (holds buff pos text) then k else j) ≤ n := by
  rw [inside_bind, inside_tracedHolds buff pos front, tracedHolds_val]
  by_cases named : c (holds buff pos text)
  · rw [if_pos named, if_pos named]
    constructor
    · exact fun both => (further both.1).mp both.2
    · intro fits
      have name : pos + text.length ≤ n := by omega
      exact ⟨name, (further name).mpr fits⟩
  · rw [if_neg named, if_neg named]
    constructor
    · exact fun both => (else_ both.1).mp both.2
    · intro fits
      have name : pos + text.length ≤ n := by omega
      exact ⟨name, (else_ name).mpr fits⟩

theorem inside_pure_iff {γ : Type} {a : γ} (front : pos ≤ n) : (pure a : Traced γ).Inside n ↔ pos ≤ n :=
  iff_of_true (inside_pure a) front

theorem inside_tracedAntiLoop (front : pos ≤ n) (eight : varSize = 8) :
    (tracedAntiLoop buff pos varSize valSize).Inside n ↔ pos + looked buff pos varSize valSize ≤ n := by
  subst eight
  unfold tracedAntiLoop looked
  rw [if_pos rfl, if_pos rfl]
  refine inside_compared buff pos front (ascii "EPNOERFT") (by decide) (by decide) (fun name => ?_)
    fun name => inside_pure_iff _ name
  exact inside_tracedHolds buff (pos + 8) name _

theorem inside_value {γ : Type} {count : ℕ} (name : pos + varSize ≤ n) (f : Bytes → γ) :
    (look buff (pos + varSize) count >>= fun value => pure (f value)).Inside n ↔
      pos + (varSize + count) ≤ n := by
  rw [inside_bind, inside_look_front name, and_iff_left (inside_pure _), Nat.add_assoc]

theorem inside_tracedTakeParam (front : pos ≤ n) (other : varSize ≠ 8) :
    (tracedTakeParam buff pos varSize valSize s).Inside n ↔
      pos + looked buff pos varSize valSize ≤ n := by
  unfold tracedTakeParam looked
  rw [if_neg other]
  by_cases nine : varSize = 9
  · subst nine
    rw [if_pos rfl, if_pos rfl]
    exact inside_compared buff pos front (ascii "HTTP_HOST") (Nat.le_add_right 9 valSize) (by decide)
      (fun name => inside_value buff pos 9 name _) fun name => inside_pure_iff _ name
  rw [if_neg nine, if_neg nine]
  by_cases eleven : varSize = 11
  · subst eleven
    rw [if_pos rfl, if_pos rfl]
    refine inside_compared buff pos front (ascii "REQUEST_URI") (Nat.le_add_right 11 valSize) ?_
      (fun name => inside_value buff pos 11 name _) fun name => ?_
    · split
      · exact Nat.le_add_right 11 valSize
      · exact le_rfl
    · exact inside_compared buff pos front (ascii "REMOTE_ADDR") (Nat.le_add_right 11 valSize)
        (by decide) (fun name => inside_value buff pos 11 name _) fun name => inside_pure_iff _ name
  rw [if_neg eleven, if_neg eleven]
  by_cases fourteen : varSize = 14
  · subst fourteen
    rw [if_pos rfl, if_pos rfl]
    refine inside_compared buff pos front (ascii "REQUEST_SCHEME") (by decide) (by decide)
      (fun name => ?_) fun name => inside_pure_iff _ name
    rw [inside_bind, and_iff_left (inside_pure _)]
    exact inside_tracedHolds buff (pos + 14) name _
  rw [if_neg fourteen, if_neg fourteen]
  by_cases eighteen : varSize = 18
  · subst eighteen
    rw [if_pos rfl, if_pos rfl]
    exact inside_compared buff pos front (ascii "HTTP_IF_NONE_MATCH") (Nat.le_add_right 18 valSize)
      (by decide) (fun name => inside_value buff pos 18 name _) fun name => inside_pure_iff _ name
  rw [if_neg eighteen, if_neg eighteen]
  exact inside_pure_iff _ front

theorem inside_pair {γ : Type} (front : pos ≤ n) (a : γ) {rest : Scan → Traced γ}
    (free : ∀ t, (rest t).Inside n) :
    (tracedAntiLoop buff pos varSize valSize >>= fun marked =>
      if marked then pure a else tracedTakeParam buff pos varSize valSize s >>= rest).Inside n ↔
      pos + looked buff pos varSize valSize ≤ n := by
  rw [inside_bind]
  by_cases eight : varSize = 8
  · rw [inside_tracedAntiLoop buff pos varSize valSize front eight]
    refine and_iff_left ?_
    split
    · exact inside_pure a
    · refine inside_then ?_ (free _)
      subst eight
      exact inside_pure s
  · have unmarked : tracedAntiLoop buff pos varSize valSize = pure false := if_neg eight
    rw [unmarked, val_pure, if_neg Bool.false_ne_true, and_iff_right (inside_pure false), inside_bind,
      and_iff_left (free _)]
    exact inside_tracedTakeParam buff pos varSize valSize s front eight

end Pair

section HonestPair

variable (pos varSize valSize : ℕ) (s : Scan)

theorem honest_tracedAntiLoop : Honest fun buff => tracedAntiLoop buff pos varSize valSize := by
  unfold tracedAntiLoop
  refine honest_ite _ (honest_bind (honest_tracedHolds pos _) fun named => ?_) (honest_const _)
  exact honest_ite _ (honest_tracedHolds _ _) (honest_const _)

theorem honest_tracedTakeParam : Honest fun buff => tracedTakeParam buff pos varSize valSize s := by
  unfold tracedTakeParam
  refine honest_ite _ (honest_bind (honest_tracedHolds pos _) fun named => honest_ite _ ?_ (honest_const _))
    (honest_ite _ (honest_bind (honest_tracedHolds pos _) fun named => honest_ite _ ?_ ?_)
    (honest_ite _ (honest_bind (honest_tracedHolds pos _) fun named => honest_ite _ ?_ (honest_const _))
    (honest_ite _ (honest_bind (honest_tracedHolds pos _) fun named => honest_ite _ ?_ (honest_const _))
    (honest_const _))))
  · exact honest_bind (honest_look _ _) fun value => honest_const _
  · exact honest_bind (honest_look _ _) fun value => honest_const _
  · refine honest_bind (honest_tracedHolds pos _) fun remote => honest_ite _ ?_ (honest_const _)
    exact honest_bind (honest_look _ _) fun value => honest_const _
  · exact honest_bind (honest_tracedHolds _ _) fun secure => honest_const _
  · exact honest_bind (honest_look _ _) fun value => honest_const _

end HonestPair

section Params

variable (buff : Buffer) (size contentLenghtAbs : ℕ)

def tracedParamsBody (s : Scan) : Traced (Outcome Scan Parsed) :=
  if s.pos < contentLenghtAbs then do
    let sizes ← tracedReadSizes buff size s.pos
    match sizes with
    | none => pure (.stop .refused)
    | some (varSize, valSize, pos) => do
      let marked ← tracedAntiLoop buff pos varSize valSize
      if marked then pure (.stop .antiLoop)
      else do
        let t ← tracedTakeParam buff pos varSize valSize s
        match canAddToPos size pos (varSize + valSize) with
        | none => pure (.stop .refused)
        | some next => pure (.again { t with pos := next })
  else pure (.stop (.parsed s))

theorem tracedParamsBody_val (s : Scan) :
    (tracedParamsBody buff size contentLenghtAbs s).val = paramsBody buff size contentLenghtAbs s := by
  unfold tracedParamsBody paramsBody
  rw [val_ite, val_bind, tracedReadSizes_val]
  congr 1
  cases readSizes buff size s.pos with
  | none => rfl
  | some sizes =>
    dsimp only
    rw [val_bind, tracedAntiLoop_val, val_ite, val_bind, tracedTakeParam_val]
    congr 1
    cases canAddToPos size sizes.2.2 (sizes.1 + sizes.2.1) <;> rfl

def PairFits (s : Scan) : Prop :=
  s.pos < contentLenghtAbs → ∀ varSize valSize pos,
    readSizes buff size s.pos = some (varSize, valSize, pos) →
    pos + looked buff pos varSize valSize ≤ size

theorem inside_tracedParamsBody (s : Scan) :
    (tracedParamsBody buff size contentLenghtAbs s).Inside size ↔
      PairFits buff size contentLenghtAbs s := by
  unfold tracedParamsBody PairFits
  by_cases more : s.pos < contentLenghtAbs
  · rw [if_pos more, inside_bind_left _ (inside_tracedReadSizes buff size s.pos), tracedReadSizes_val]
    cases sizes : readSizes buff size s.pos with
    | none => exact iff_of_true (inside_pure _) fun _ _ _ _ wrong => by cases wrong
    | some found =>
      obtain ⟨varSize, valSize, pos⟩ := found
      have front : pos ≤ size := (readSizes_bound sizes).2
      dsimp only
      rw [inside_pair buff pos varSize valSize s front]
      · constructor
        · intro fits _ varSize' valSize' pos' same
          cases same
          exact fits
        · exact fun fits => fits more varSize valSize pos rfl
      · intro t
        split <;> exact inside_pure _
  · rw [if_neg more]
    exact iff_of_true (inside_pure _) fun wrong => absurd wrong more

theorem tracedParams_decreases (s t : Scan)
    (taken : (tracedParamsBody buff size contentLenghtAbs s).val = .again t) :
    size - t.pos < size - s.pos := by
  rw [tracedParamsBody_val] at taken
  exact (params buff size contentLenghtAbs).decreases s t taken

def tracedParams : TracedLoop Scan Parsed where
  body := tracedParamsBody buff size contentLenghtAbs
  measure s := size - s.pos
  decreases := tracedParams_decreases buff size contentLenghtAbs

theorem tracedParams_plain :
    (tracedParams buff size contentLenghtAbs).plain = params buff size contentLenghtAbs :=
  TracedLoop.plain_eq _ (tracedParamsBody_val buff size contentLenghtAbs) rfl

theorem tracedParams_val (s : Scan) : ((tracedParams buff size contentLenghtAbs).run s).val =
    (params buff size contentLenghtAbs).run s :=
  congrArg (fun l => l.run s) (tracedParams_plain buff size contentLenghtAbs)

theorem inside_tracedParams (s : Scan) :
    ((tracedParams buff size contentLenghtAbs).run s).Inside size ↔
      ∀ t, (params buff size contentLenghtAbs).Visits s t → PairFits buff size contentLenghtAbs t := by
  rw [TracedLoop.inside_run, tracedParams_plain]
  exact forall_congr' fun t => imp_congr_right fun _ =>
    inside_tracedParamsBody buff size contentLenghtAbs t

end Params

theorem honest_tracedParams (size contentLenghtAbs : ℕ) (s : Scan) :
    Honest fun buff => (tracedParams buff size contentLenghtAbs).run s := by
  refine TracedLoop.honest_run (fun s => ?_) s
  refine honest_ite _ (honest_bind (honest_tracedReadSizes size s.pos) fun sizes => ?_) (honest_const _)
  cases sizes with
  | none => exact honest_const _
  | some sizes =>
    refine honest_bind (honest_tracedAntiLoop _ _ _) fun marked => honest_ite _ (honest_const _) ?_
    exact honest_bind (honest_tracedTakeParam _ _ _ s) fun t => honest_const _

section Records

variable (buff : Buffer) (size : ℕ)

def tracedRecordStart (c : Client) (pos : ℕ) : Traced (Option (Client × ℕ × ℕ)) :=
  bindSome (tracedRead8Bits buff size pos) fun (version, pos) =>
    if version ≠ 1 then pure none
    else bindSome (tracedRead8Bits buff size pos) fun (var8, pos) =>
      match c.fastcgiid with
      | none =>
        if var8 ≠ 1 then pure none
        else bindSome (tracedRead16Bits buff size pos) fun (var16, pos) =>
          pure (some ({ c with fastcgiid := some var16 }, var8, pos))
      | some fastcgiid =>
        if var8 ≠ 4 ∧ var8 ≠ 5 then pure none
        else bindSome (tracedRead16Bits buff size pos) fun (var16, pos) =>
          pure (if var16 ≠ fastcgiid then none else some (c, var8, pos))

def tracedRecordHeader (c : Client) (pos : ℕ) : Traced (Option Header) :=
  bindSome (tracedRecordStart buff size c pos) fun (c, var8, pos) =>
    bindSome (tracedRead16Bits buff size pos) fun (contentLenght, pos) =>
      bindSome (tracedRead8Bits buff size pos) fun (paddingLength, pos) =>
        pure ((canAddToPos size pos 1).map fun pos => ⟨c, var8, contentLenght, paddingLength, pos⟩)

def tracedRecord (s : Scan) : Traced Parsed := do
  let header ← tracedRecordHeader buff size s.client s.pos
  match header with
  | none => pure .refused
  | some h =>
    if h.var8 = 4 then do
      let parsed ← (tracedParams buff size (h.contentLenght + h.pos)).run
        { s with client := h.client, pos := h.pos }
      match parsed with
      | .parsed t =>
        match canAddToPos size t.pos h.paddingLength with
        | none => pure .refused
        | some pos => pure (.parsed { t with pos := pos })
      | fault => pure fault
    else
      match canAddToPos size h.pos (h.contentLenght + h.paddingLength) with
      | none => pure .refused
      | some pos => pure (.parsed { s with
          client := { h.client with fullyParsed := h.client.fullyParsed || h.var8 = 5 }
          pos := pos })

def tracedRecordsBody (s : Scan) : Traced (Outcome Scan Parsed) := do
  let parsed ← tracedRecord buff size s
  match parsed with
  | .parsed t => if t.pos < size then pure (.again t) else pure (.stop (.parsed t))
  | fault => pure (.stop fault)

theorem tracedRecordStart_val (c : Client) (pos : ℕ) :
    (tracedRecordStart buff size c pos).val = recordStart buff size c pos := by
  unfold tracedRecordStart recordStart
  rw [val_bindSome, tracedRead8Bits_val]
  congr 1
  funext version
  rw [val_ite, val_bindSome, tracedRead8Bits_val]
  congr 1
  congr 1
  funext var8
  cases c.fastcgiid with
  | none =>
    dsimp only
    rw [val_ite, val_bindSome, tracedRead16Bits_val, Option.map_eq_bind]
    rfl
  | some fastcgiid =>
    dsimp only
    rw [val_ite, val_bindSome, tracedRead16Bits_val]
    rfl

theorem tracedRecordHeader_val (c : Client) (pos : ℕ) :
    (tracedRecordHeader buff size c pos).val = recordHeader buff size c pos := by
  unfold tracedRecordHeader recordHeader
  rw [val_bindSome, tracedRecordStart_val]
  congr 1
  funext started
  rw [val_bindSome, tracedRead16Bits_val]
  congr 1
  funext contentLenght
  rw [val_bindSome, tracedRead8Bits_val]
  rfl

theorem tracedRecord_val (s : Scan) : (tracedRecord buff size s).val = record buff size s := by
  unfold tracedRecord record
  rw [val_bind, tracedRecordHeader_val]
  cases recordHeader buff size s.client s.pos with
  | none => rfl
  | some h =>
    dsimp only
    rw [val_ite, val_bind, tracedParams_val]
    congr 1
    · cases (params buff size (h.contentLenght + h.pos)).run { s with client := h.client, pos := h.pos } with
      | refused => rfl
      | antiLoop => rfl
      | parsed t =>
        dsimp only
        cases canAddToPos size t.pos h.paddingLength <;> rfl
    · cases canAddToPos size h.pos (h.contentLenght + h.paddingLength) <;> rfl

theorem tracedRecordsBody_val (s : Scan) :
    (tracedRecordsBody buff size s).val = recordsBody buff size s := by
  unfold tracedRecordsBody recordsBody
  rw [val_bind, tracedRecord_val]
  cases record buff size s with
  | refused => rfl
  | antiLoop => rfl
  | parsed t => exact val_ite _ _ _

theorem tracedRecords_decreases (s t : Scan) (taken : (tracedRecordsBody buff size s).val = .again t) :
    size - t.pos < size - s.pos := by
  rw [tracedRecordsBody_val] at taken
  exact (records buff size).decreases s t taken

def tracedRecords : TracedLoop Scan Parsed where
  body := tracedRecordsBody buff size
  measure s := size - s.pos
  decreases := tracedRecords_decreases buff size

theorem tracedRecords_plain : (tracedRecords buff size).plain = records buff size :=
  TracedLoop.plain_eq _ (tracedRecordsBody_val buff size) rfl

theorem tracedRecords_val (s : Scan) :
    ((tracedRecords buff size).run s).val = (records buff size).run s :=
  congrArg (fun l => l.run s) (tracedRecords_plain buff size)

theorem inside_tracedRecordHeader (c : Client) (pos : ℕ) :
    (tracedRecordHeader buff size c pos).Inside size := by
  refine inside_bindSome ?_ fun started => inside_bindSome (inside_tracedRead16Bits _ _ _) fun _ => ?_
  · refine inside_bindSome (inside_tracedRead8Bits _ _ _) fun version => ?_
    dsimp only
    split
    · exact inside_pure _
    · refine inside_bindSome (inside_tracedRead8Bits _ _ _) fun var8 => ?_
      split
      · split
        · exact inside_pure _
        · exact inside_bindSome (inside_tracedRead16Bits _ _ _) fun var16 => inside_pure _
      · split
        · exact inside_pure _
        · exact inside_bindSome (inside_tracedRead16Bits _ _ _) fun var16 => inside_pure _
  · exact inside_bindSome (inside_tracedRead8Bits _ _ _) fun _ => inside_pure _

def RecordFits (s : Scan) : Prop :=
  ∀ h, recordHeader buff size s.client s.pos = some h → h.var8 = 4 →
    ∀ t, (params buff size (h.contentLenght + h.pos)).Visits
      { s with client := h.client, pos := h.pos } t → PairFits buff size (h.contentLenght + h.pos) t

theorem inside_tracedRecord (s : Scan) :
    (tracedRecord buff size s).Inside size ↔ RecordFits buff size s := by
  unfold tracedRecord RecordFits
  rw [inside_bind_left _ (inside_tracedRecordHeader buff size s.client s.pos), tracedRecordHeader_val]
  cases recordHeader buff size s.client s.pos with
  | none => exact iff_of_true (inside_pure _) fun _ wrong => by cases wrong
  | some h =>
    dsimp only
    by_cases pairs : h.var8 = 4
    · rw [if_pos pairs, inside_bind, inside_tracedParams, and_iff_left]
      · constructor
        · intro fits h' same _
          cases same
          exact fits
        · exact fun fits => fits h rfl pairs
      · split
        · split <;> exact inside_pure _
        · exact inside_pure _
    · rw [if_neg pairs]
      refine iff_of_true ?_ fun h' same pairs' => ?_
      · split <;> exact inside_pure _
      · cases same
        exact absurd pairs' pairs

theorem inside_tracedRecords (s : Scan) :
    ((tracedRecords buff size).run s).Inside size ↔
      ∀ t, (records buff size).Visits s t → RecordFits buff size t := by
  rw [TracedLoop.inside_run, tracedRecords_plain]
  refine forall_congr' fun t => imp_congr_right fun _ => ?_
  rw [← inside_tracedRecord buff size t]
  refine (inside_bind _ _).trans (and_iff_left ?_)
  split
  · split <;> exact inside_pure _
  · exact inside_pure _

end Records

section HonestRecords

variable (size : ℕ)

theorem honest_tracedRecordHeader (c : Client) (pos : ℕ) :
    Honest fun buff => tracedRecordHeader buff size c pos := by
  refine honest_bindSome ?_ fun started => honest_bindSome (honest_tracedRead16Bits size _) fun _ => ?_
  · refine honest_bindSome (honest_tracedRead8Bits size pos) fun version => ?_
    refine honest_ite _ (honest_const _) (honest_bindSome (honest_tracedRead8Bits size _) fun var8 => ?_)
    dsimp only
    cases c.fastcgiid with
    | none =>
      refine honest_ite _ (honest_const _) ?_
      exact honest_bindSome (honest_tracedRead16Bits size _) fun var16 => honest_const _
    | some fastcgiid =>
      refine honest_ite _ (honest_const _) ?_
      exact honest_bindSome (honest_tracedRead16Bits size _) fun var16 => honest_const _
  · exact honest_bindSome (honest_tracedRead8Bits size _) fun _ => honest_const _

theorem honest_tracedRecord (s : Scan) : Honest fun buff => tracedRecord buff size s := by
  refine honest_bind (honest_tracedRecordHeader size s.client s.pos) fun header => ?_
  cases header with
  | none => exact honest_const _
  | some h =>
    refine honest_ite _ (honest_bind (honest_tracedParams size _ _) fun parsed => ?_) (honest_const _)
    exact honest_const _

theorem honest_tracedRecordsBody (s : Scan) : Honest fun buff => tracedRecordsBody buff size s := by
  refine honest_bind (honest_tracedRecord size s) fun parsed => ?_
  exact honest_const _

theorem honest_tracedRecords (s : Scan) : Honest fun buff => (tracedRecords buff size).run s :=
  TracedLoop.honest_run (honest_tracedRecordsBody size) s

end HonestRecords

/-- `Client::readyToRead`, with the places of the buffer that it looks at. -/
def tracedReadyToRead (c : Client) (r : Read) : Traced (Client × Reading) :=
  if c.fullyParsed || !c.isValid || r.data.isEmpty then pure (c, .ignored)
  else do
    let parsed ← (tracedRecords (r.buffer []) r.data.length).run (start c)
    pure (match parsed with
      | .refused => (c.disconnect, .refused)
      | .antiLoop => (c.disconnect, .answered (plainText ++ ascii "Anti loop protection"))
      | .parsed s =>
        if s.client.fullyParsed then
          match dispatch s.client s.ifNoneMatch with
          | .download q =>
            ({ s.client with https := q.https, host := q.host, uri := q.uri }, .download q)
          | reading => (s.client.disconnect, reading)
        else (s.client, .waits))

section ReadyToRead

variable (c : Client) (r : Read)

theorem tracedReadyToRead_val : (tracedReadyToRead c r).val = readyToRead c r := by
  unfold tracedReadyToRead readyToRead
  rw [val_ite, val_bind, tracedRecords_val]
  rfl

/-- Every pair that is begun lies in the read, as far as it is looked at. -/
def PairsFit : Prop :=
  ∀ s, (records (r.buffer []) r.data.length).Visits (start c) s → RecordFits (r.buffer []) r.data.length s

def StaysInside : Prop :=
  (tracedReadyToRead c r).Inside r.data.length ∧
    ∀ stale : Buffer, readyToRead c { r with stale := stale } = readyToRead c r

theorem inside_tracedReadyToRead : (tracedReadyToRead c r).Inside r.data.length ↔
    ((c.fullyParsed || !c.isValid || r.data.isEmpty) = false → PairsFit c r) := by
  unfold tracedReadyToRead
  cases (c.fullyParsed || !c.isValid || r.data.isEmpty) with
  | true => exact iff_of_true (inside_pure _) fun wrong => by cases wrong
  | false =>
    rw [if_neg Bool.false_ne_true, inside_bind, and_iff_left (inside_pure _), inside_tracedRecords]
    exact ⟨fun fits _ => fits, fun fits => fits rfl⟩

theorem buffer_of_lt {i : ℕ} (front : i < r.data.length) (stale : Buffer) :
    Read.buffer [] { r with stale := stale } i = r.buffer [] i := by
  unfold Read.buffer
  rw [List.nil_append, List.getElem?_eq_getElem front]
  rfl

/-- What is behind a read makes no difference when the parsing stays inside. -/
theorem readyToRead_stale (inside : (tracedReadyToRead c r).Inside r.data.length) (stale : Buffer) :
    readyToRead c { r with stale := stale } = readyToRead c r := by
  rw [← tracedReadyToRead_val, ← tracedReadyToRead_val]
  unfold tracedReadyToRead at inside ⊢
  dsimp only
  by_cases closed : (c.fullyParsed || !c.isValid || r.data.isEmpty) = true
  · rw [if_pos closed, if_pos closed]
  · rw [if_neg closed, inside_bind] at inside
    have agree := (honest_tracedRecords r.data.length (start c)).agrees inside.1
      fun i front => buffer_of_lt r front stale
    rw [if_neg closed, if_neg closed, val_bind, val_bind]
    rw [agree]

/-- The parsing of a read stays inside if and only if the pairs that it begins do, as far
as it looks at them. -/
theorem request_parsing_stays_inside_iff : StaysInside c r ↔
    ((c.fullyParsed || !c.isValid || r.data.isEmpty) = false → PairsFit c r) := by
  rw [← inside_tracedReadyToRead]
  constructor
  · exact fun stays => stays.1
  · exact fun inside => ⟨inside, readyToRead_stale c r inside⟩

end ReadyToRead

def cutRequest : Bytes :=
  RecordFormat.plainBytes 1 1 [0, 1, 0, 0, 0, 0, 0, 0] ++ [1, 4, 0, 1, 0, 18, 0, 0, 8, 8]

def leftBehind : Buffer := fun i => (ascii "EPNOERFTysff43Uy").getD (i - cutRequest.length) 0

/-- The bytes behind a request decide how it is answered. -/
theorem cut_request_reads_behind_its_end :
    ¬StaysInside .new ⟨cutRequest, leftBehind⟩ ∧
    (readyToRead .new ⟨cutRequest, leftBehind⟩).2 = .answered (plainText ++ ascii "Anti loop protection") ∧
    (readyToRead .new ⟨cutRequest, fun _ => 0⟩).2 = .refused := by
  have stale : (readyToRead .new ⟨cutRequest, leftBehind⟩).2 =
      .answered (plainText ++ ascii "Anti loop protection") := by decide
  have absent : (readyToRead .new ⟨cutRequest, fun _ => 0⟩).2 = .refused := by decide
  refine ⟨fun stays => ?_, stale, absent⟩
  have same := congrArg Prod.snd (stays.2 fun _ => 0)
  have wrong := (absent.symm.trans same).trans stale
  cases wrong

end FastCgiCdn.ParamReads
