import FastCgiCdn.DnsReplies
import FastCgiCdn.TracedReads

/-! Where `Dns::parseEvent` looks in its receive buffer. The fields of a datagram are
read by helpers that know its end, and a failure of theirs that is ignored only leaves
the position where it was. The 16 bytes of an address are compared and copied with no
look at the end. -/

namespace FastCgiCdn.DatagramReads

open DnsAddressGuard DnsModel Dns DnsVerdict DnsReplies TracedReads

section Fields

variable (data : Memory) (size pos : ℕ)

def tracedRead16BitsRaw : Traced (Option (ℕ × ℕ)) :=
  if pos + 2 > size then pure none
  else do
    let low ← peek data pos
    let high ← peek data (pos + 1)
    pure (some (low.toNat + 256 * high.toNat, pos + 2))

def tracedRead16Bits : Traced (ℕ × ℕ) :=
  if pos + 2 > size then pure (0, pos)
  else do
    let high ← peek data pos
    let low ← peek data (pos + 1)
    pure (256 * high.toNat + low.toNat, pos + 2)

def tracedRead32Bits : Traced (Option (ℕ × ℕ)) :=
  if pos + 4 > size then pure none
  else do
    let first ← peek data pos
    let second ← peek data (pos + 1)
    let third ← peek data (pos + 2)
    let fourth ← peek data (pos + 3)
    pure (some ((first.toNat * 256 + second.toNat) * 65536 + third.toNat * 256 + fourth.toNat, pos + 4))

def tracedSkipName : ℕ → ℕ → Traced (Option ℕ)
  | 0, _ => pure none
  | fuel + 1, offs =>
    if offs < size - pos then do
      let len ← peek data (pos + offs)
      if len ≠ 0 then tracedSkipName fuel ((offs + (len.toNat + 1)) % 256) else pure (some offs)
    else pure (some offs)

inductive Taken
  /-- With the lifetime, and the place of the address. -/
  | address (ttl pos : ℕ)
  /-- With the next position, unless the parsing returns. -/
  | other (unreadable : Bool) (next : Option ℕ)

def tracedRecord : Traced Taken := do
  let (AName, pos) ← tracedRead16Bits data size pos
  if AName = 0 then pure (.other false none)
  else do
    let (type, pos) ← tracedRead16Bits data size pos
    if type = 0x001c then do
      let (classIn, pos) ← tracedRead16Bits data size pos
      if classIn = 0 then pure (.other false none)
      else if classIn ≠ 0x0001 then pure (.other false (some pos))
      else do
        let ttl ← tracedRead32Bits data size pos
        match ttl with
        | none => pure (.other false none)
        | some (ttl, pos) => do
          let (datasize, pos) ← tracedRead16Bits data size pos
          pure (if datasize ≠ 16 then .other false none else .address ttl pos)
    else do
      let (datasize, pos) ← tracedRead16Bits data size ((canAddToPos (2 + 4) size pos).getD pos)
      pure (.other (type = 0)
        (if datasize = 0 then none else some ((canAddToPos datasize size pos).getD pos)))

theorem tracedRead16BitsRaw_val :
    (tracedRead16BitsRaw data size pos).val = read16BitsRaw data size pos := by
  unfold tracedRead16BitsRaw read16BitsRaw
  split <;> rfl

theorem tracedRead16Bits_val : (tracedRead16Bits data size pos).val = read16Bits data size pos := by
  unfold tracedRead16Bits read16Bits
  split <;> rfl

theorem tracedRead32Bits_val : (tracedRead32Bits data size pos).val = read32Bits data size pos := by
  unfold tracedRead32Bits read32Bits
  split <;> rfl

theorem tracedSkipName_val (fuel offs : ℕ) :
    (tracedSkipName data size pos fuel offs).val = skipName data size pos fuel offs := by
  induction fuel generalizing offs with
  | zero => rfl
  | succ fuel ih =>
    unfold tracedSkipName skipName
    by_cases inside : offs < size - pos
    · by_cases more : data (pos + offs) ≠ 0
      · rw [if_pos inside, if_pos ⟨inside, more⟩, val_bind, ← ih]
        exact congrArg Traced.val (if_pos more)
      · rw [if_pos inside, if_neg fun both => more both.2, val_bind]
        exact congrArg Traced.val (if_neg more)
    · rw [if_neg inside, if_neg fun both => inside both.1]
      rfl

theorem inside_tracedRead16BitsRaw : (tracedRead16BitsRaw data size pos).Inside size := by
  unfold tracedRead16BitsRaw
  split
  · exact inside_pure _
  · refine inside_then (inside_peek.mpr (by omega)) (inside_then (inside_peek.mpr (by omega)) ?_)
    exact inside_pure _

theorem inside_tracedRead16Bits : (tracedRead16Bits data size pos).Inside size := by
  unfold tracedRead16Bits
  split
  · exact inside_pure _
  · refine inside_then (inside_peek.mpr (by omega)) (inside_then (inside_peek.mpr (by omega)) ?_)
    exact inside_pure _

theorem inside_tracedRead32Bits : (tracedRead32Bits data size pos).Inside size := by
  unfold tracedRead32Bits
  split
  · exact inside_pure _
  · refine inside_then (inside_peek.mpr (by omega)) (inside_then (inside_peek.mpr (by omega)) ?_)
    refine inside_then (inside_peek.mpr (by omega)) (inside_then (inside_peek.mpr (by omega)) ?_)
    exact inside_pure _

theorem inside_tracedSkipName (fuel offs : ℕ) :
    (tracedSkipName data size pos fuel offs).Inside size := by
  induction fuel generalizing offs with
  | zero => exact inside_pure _
  | succ fuel ih =>
    unfold tracedSkipName
    split
    · refine inside_then (inside_peek.mpr (by omega)) ?_
      split
      · exact ih _
      · exact inside_pure _
    · exact inside_pure _

theorem inside_tracedRecord : (tracedRecord data size pos).Inside size := by
  unfold tracedRecord
  refine inside_then (inside_tracedRead16Bits _ _ _) ?_
  dsimp only
  split
  · exact inside_pure _
  · refine inside_then (inside_tracedRead16Bits _ _ _) ?_
    split
    · refine inside_then (inside_tracedRead16Bits _ _ _) ?_
      split
      · exact inside_pure _
      · split
        · exact inside_pure _
        · refine inside_then (inside_tracedRead32Bits _ _ _) ?_
          split
          · exact inside_pure _
          · exact inside_then (inside_tracedRead16Bits _ _ _) (inside_pure _)
    · exact inside_then (inside_tracedRead16Bits _ _ _) (inside_pure _)

end Fields

section Honest

variable (size pos : ℕ)

theorem honest_tracedRead16BitsRaw : Honest fun data => tracedRead16BitsRaw data size pos := by
  unfold tracedRead16BitsRaw
  refine honest_ite _ (honest_const _) (honest_bind (honest_peek _) fun low => ?_)
  exact honest_bind (honest_peek _) fun high => honest_const _

theorem honest_tracedRead16Bits : Honest fun data => tracedRead16Bits data size pos := by
  unfold tracedRead16Bits
  refine honest_ite _ (honest_const _) (honest_bind (honest_peek _) fun high => ?_)
  exact honest_bind (honest_peek _) fun low => honest_const _

theorem honest_tracedRead32Bits : Honest fun data => tracedRead32Bits data size pos := by
  unfold tracedRead32Bits
  refine honest_ite _ (honest_const _) (honest_bind (honest_peek _) fun first => ?_)
  refine honest_bind (honest_peek _) fun second => honest_bind (honest_peek _) fun third => ?_
  exact honest_bind (honest_peek _) fun fourth => honest_const _

theorem honest_tracedSkipName (fuel offs : ℕ) :
    Honest fun data => tracedSkipName data size pos fuel offs := by
  induction fuel generalizing offs with
  | zero => exact honest_const _
  | succ fuel ih =>
    unfold tracedSkipName
    refine honest_ite _ (honest_bind (honest_peek _) fun len => ?_) (honest_const _)
    exact honest_ite _ (ih _) (honest_const _)

theorem honest_tracedRecord : Honest fun data => tracedRecord data size pos := by
  unfold tracedRecord
  refine honest_bind (honest_tracedRead16Bits size pos) fun AName => ?_
  refine honest_ite _ (honest_const _) (honest_bind (honest_tracedRead16Bits size _) fun type => ?_)
  refine honest_ite _ (honest_bind (honest_tracedRead16Bits size _) fun classIn => ?_) ?_
  · refine honest_ite _ (honest_const _) (honest_ite _ (honest_const _) ?_)
    refine honest_bind (honest_tracedRead32Bits size _) fun ttl => ?_
    cases ttl with
    | none => exact honest_const _
    | some ttl => exact honest_bind (honest_tracedRead16Bits size _) fun datasize => honest_const _
  · exact honest_bind (honest_tracedRead16Bits size _) fun datasize => honest_const _

end Honest

section Address

variable (buffer : Memory) (pos : ℕ)

/-- Two comparisons, and the second one only when the first finds the range. -/
def tracedAllowed : Traced Bool := do
  let first ← look buffer pos 4
  if first = includePrefix then do
    let all ← look buffer pos 14
    pure (all ≠ excludePrefix)
  else pure false

def tracedCopy : Traced In6Addr := ⟨.ofMemory buffer pos, List.range' pos 16⟩

variable (now id ttl : ℕ) (s : StatusEntry) (q : Query) (d : Dns)

def tracedAddCacheEntry : Traced Dns :=
  if d.cache.entries.length > 5000 then pure d
  else do
    let sin6_addr ← tracedCopy buffer pos
    pure (d.addCacheEntry now s ttl q.host sin6_addr)

def tracedTarget (list : List ClientId) (target : SockAddr) : Traced SockAddr :=
  if list.isEmpty then pure target
  else do
    let sin6_addr ← tracedCopy buffer pos
    pure ⟨sin6_addr, target.sin6_port⟩

def tracedRightCalls : Traced Dns := do
  let targetHttp ← tracedTarget buffer pos q.http d.targetHttp
  let targetHttps ← tracedTarget buffer pos q.https d.targetHttps
  pure { d with
    targetHttp := targetHttp
    targetHttps := targetHttps
    calls := d.calls ++ q.http.map (.dnsRight · targetHttp) ++ q.https.map (.dnsRight · targetHttps) }

def tracedFlushAddress : Traced (Except Halt Dns) := do
  let good ← tracedAllowed buffer pos
  if good then do
    let d ← tracedAddCacheEntry buffer pos now ttl .right q d
    let d ← tracedRightCalls buffer pos q d
    pure (d.removeQuery id)
  else do
    let d ← tracedAddCacheEntry buffer pos now ttl .wrong q d
    pure (d.flushQuery id (callEach q .dnsWrong))

theorem isPrefixOf_ofMemory (bytes : Bytes) (short : bytes.length ≤ 16) :
    bytes.isPrefixOf (In6Addr.ofMemory buffer pos).s6_addr =
      decide ((look buffer pos bytes.length).val = bytes) := by
  have firsts : (In6Addr.ofMemory buffer pos).s6_addr.take bytes.length =
      (look buffer pos bytes.length).val := by
    unfold In6Addr.ofMemory look
    dsimp only
    rw [← List.map_take, List.take_range, Nat.min_eq_left short, List.range'_eq_map_range,
      List.map_map]
    rfl
  rw [Bool.eq_iff_iff, List.isPrefixOf_iff_prefix, List.prefix_iff_eq_take, firsts,
    decide_eq_true_iff]
  exact eq_comm

theorem tracedAllowed_val : (tracedAllowed buffer pos).val = allowed (.ofMemory buffer pos) := by
  have include_said := isPrefixOf_ofMemory buffer pos includePrefix (by decide)
  have exclude_said := isPrefixOf_ofMemory buffer pos excludePrefix (by decide)
  unfold tracedAllowed allowed
  rw [include_said, exclude_said, val_bind, val_ite]
  by_cases found : (look buffer pos 4).val = includePrefix
  · rw [if_pos found]
    have matched : decide ((look buffer pos includePrefix.length).val = includePrefix) = true :=
      decide_eq_true found
    rw [matched, Bool.true_and]
    exact decide_not
  · rw [if_neg found]
    have missed : decide ((look buffer pos includePrefix.length).val = includePrefix) = false :=
      decide_eq_false found
    rw [missed, Bool.false_and]
    rfl

theorem tracedAddCacheEntry_val :
    (tracedAddCacheEntry buffer pos now ttl s q d).val =
      d.addCacheEntry now s ttl q.host (.ofMemory buffer pos) := by
  unfold tracedAddCacheEntry
  by_cases full : d.cache.entries.length > 5000
  · rw [if_pos full, addCacheEntry, if_pos full]
    rfl
  · rw [if_neg full]
    rfl

theorem tracedTarget_val (list : List ClientId) (target : SockAddr) :
    (tracedTarget buffer pos list target).val =
      if list.isEmpty then target else ⟨.ofMemory buffer pos, target.sin6_port⟩ := by
  unfold tracedTarget
  rw [val_ite]
  rfl

theorem tracedRightCalls_val :
    (tracedRightCalls buffer pos q d).val = rightCalls q (.ofMemory buffer pos) d := by
  unfold tracedRightCalls rightCalls
  rw [val_bind, val_bind, tracedTarget_val, tracedTarget_val]
  rfl

theorem tracedFlushAddress_val :
    (tracedFlushAddress buffer pos now id ttl q d).val =
      flushAddress now id ttl q (.ofMemory buffer pos) d := by
  unfold tracedFlushAddress flushAddress
  rw [val_bind, tracedAllowed_val, val_ite]
  simp only [val_bind, val_pure, tracedAddCacheEntry_val, tracedRightCalls_val]

/-- How many bytes of an address are compared. -/
def compared : ℕ := if includePrefix.isPrefixOf (In6Addr.ofMemory buffer pos).s6_addr then 14 else 4

/-- How many bytes of an address are used. Only a full cache keeps a refused address from
being copied, and nothing is copied once the clients are answered. -/
def wanted (full flushed : Bool) : ℕ :=
  if flushed = false ∧ (allowed (.ofMemory buffer pos) ∨ full = false) then 16
  else compared buffer pos

variable {n : ℕ}

theorem compared_le : compared buffer pos ≤ 16 := by
  unfold compared
  split <;> decide

theorem inside_tracedAllowed : (tracedAllowed buffer pos).Inside n ↔ pos + compared buffer pos ≤ n := by
  have include_said := isPrefixOf_ofMemory buffer pos includePrefix (by decide)
  unfold tracedAllowed compared
  rw [inside_bind, inside_look (by decide), include_said]
  by_cases found : (look buffer pos 4).val = includePrefix
  · have matched : (look buffer pos includePrefix.length).val = includePrefix := found
    rw [if_pos found, inside_bind, inside_look (by decide), if_pos (decide_eq_true matched)]
    constructor
    · exact fun all => all.2.1
    · exact fun fits => ⟨by omega, fits, inside_pure _⟩
  · have missed : ¬(look buffer pos includePrefix.length).val = includePrefix := found
    rw [if_neg found, if_neg (by rwa [decide_eq_true_iff])]
    exact and_iff_left (inside_pure _)

theorem inside_tracedCopy : (tracedCopy buffer pos).Inside n ↔ pos + 16 ≤ n :=
  @inside_look _ n buffer pos 16 (by decide)

theorem inside_tracedAddCacheEntry :
    (tracedAddCacheEntry buffer pos now ttl s q d).Inside n ↔
      (¬d.cache.entries.length > 5000 → pos + 16 ≤ n) := by
  unfold tracedAddCacheEntry
  by_cases full : d.cache.entries.length > 5000
  · rw [if_pos full]
    exact iff_of_true (inside_pure _) fun room => absurd full room
  · rw [if_neg full, inside_bind, inside_tracedCopy, and_iff_left (inside_pure _)]
    exact ⟨fun fits _ => fits, fun fits => fits full⟩

theorem inside_tracedTarget (list : List ClientId) (target : SockAddr) :
    (tracedTarget buffer pos list target).Inside n ↔ (list.isEmpty = false → pos + 16 ≤ n) := by
  unfold tracedTarget
  cases list with
  | nil => exact iff_of_true (inside_pure _) fun wrong => by cases wrong
  | cons client list =>
    rw [if_neg (by simp), inside_bind, inside_tracedCopy, and_iff_left (inside_pure _)]
    exact ⟨fun fits _ => fits, fun fits => fits rfl⟩

theorem inside_tracedRightCalls (waiting : (q.http.isEmpty && q.https.isEmpty) = false) :
    (tracedRightCalls buffer pos q d).Inside n ↔ pos + 16 ≤ n := by
  unfold tracedRightCalls
  rw [inside_bind, inside_bind, inside_tracedTarget, inside_tracedTarget,
    and_iff_left (inside_pure _)]
  constructor
  · rintro ⟨http, https⟩
    rcases Bool.and_eq_false_iff.mp waiting with some_http | some_https
    · exact http some_http
    · exact https some_https
  · exact fun fits => ⟨fun _ => fits, fun _ => fits⟩

theorem inside_tracedFlushAddress (waiting : (q.http.isEmpty && q.https.isEmpty) = false) :
    (tracedFlushAddress buffer pos now id ttl q d).Inside n ↔
      pos + wanted buffer pos (decide (d.cache.entries.length > 5000)) false ≤ n := by
  have few := compared_le buffer pos
  unfold tracedFlushAddress wanted
  rw [inside_bind, inside_tracedAllowed, tracedAllowed_val]
  by_cases good : allowed (.ofMemory buffer pos) = true
  · rw [if_pos good, if_pos ⟨rfl, .inl good⟩, inside_bind, inside_bind, inside_tracedAddCacheEntry,
      inside_tracedRightCalls _ _ _ _ waiting]
    constructor
    · exact fun all => all.2.2.1
    · exact fun fits => ⟨by omega, fun _ => fits, fits, inside_pure _⟩
  · rw [if_neg good, inside_bind, inside_tracedAddCacheEntry, and_iff_left (inside_pure _)]
    by_cases full : d.cache.entries.length > 5000
    · rw [if_neg (by simp [good, full])]
      exact and_iff_left fun room => absurd full room
    · rw [if_pos ⟨rfl, .inr (decide_eq_false full)⟩]
      constructor
      · exact fun both => both.2 full
      · exact fun fits => ⟨by omega, fun _ => fits⟩

end Address

section HonestAddress

variable (pos now id ttl : ℕ) (s : StatusEntry) (q : Query) (d : Dns)

theorem honest_tracedAllowed : Honest fun buffer => tracedAllowed buffer pos := by
  unfold tracedAllowed
  refine honest_bind (honest_look _ _) fun first => honest_ite _ ?_ (honest_const _)
  exact honest_bind (honest_look _ _) fun all => honest_const _

theorem honest_tracedCopy : Honest fun buffer => tracedCopy buffer pos := by
  intro buffer other same
  have copied : In6Addr.ofMemory other pos = .ofMemory buffer pos := by
    unfold In6Addr.ofMemory
    rw [In6Addr.mk.injEq]
    refine List.map_congr_left fun i small => same (pos + i) (List.mem_range'_1.mpr ?_)
    have bound := List.mem_range.mp small
    omega
  exact congrArg (Traced.mk · _) copied

theorem honest_tracedAddCacheEntry :
    Honest fun buffer => tracedAddCacheEntry buffer pos now ttl s q d := by
  unfold tracedAddCacheEntry
  refine honest_ite _ (honest_const _) ?_
  exact honest_bind (honest_tracedCopy pos) fun sin6_addr => honest_const _

theorem honest_tracedTarget (list : List ClientId) (target : SockAddr) :
    Honest fun buffer => tracedTarget buffer pos list target := by
  unfold tracedTarget
  refine honest_ite _ (honest_const _) ?_
  exact honest_bind (honest_tracedCopy pos) fun sin6_addr => honest_const _

theorem honest_tracedRightCalls : Honest fun buffer => tracedRightCalls buffer pos q d := by
  unfold tracedRightCalls
  refine honest_bind (honest_tracedTarget pos _ _) fun targetHttp => ?_
  exact honest_bind (honest_tracedTarget pos _ _) fun targetHttps => honest_const _

theorem honest_tracedFlushAddress :
    Honest fun buffer => tracedFlushAddress buffer pos now id ttl q d := by
  unfold tracedFlushAddress
  refine honest_bind (honest_tracedAllowed pos) fun good => honest_ite _ ?_ ?_
  · refine honest_bind (honest_tracedAddCacheEntry pos now ttl _ q d) fun d => ?_
    exact honest_bind (honest_tracedRightCalls pos q d) fun d => honest_const _
  · exact honest_bind (honest_tracedAddCacheEntry pos now ttl _ q d) fun d => honest_const _

end HonestAddress

section Walk

variable (buffer : Memory) (size now id : ℕ) (q : Query)

def tracedAnswers : ℕ → ℕ → Bool → Dns → Traced (Except Halt Dns)
  | 0, _, flushed, d => pure (if flushed then .ok d else flushFailed now id q d)
  | left + 1, pos, flushed, d => do
    let taken ← tracedRecord buffer size pos
    match taken with
    | .other unreadable next =>
      match (if unreadable = true ∧ flushed = false then flushFailed now id q d else .ok d) with
      | .error halt => pure (.error halt)
      | .ok d =>
        match next with
        | none => pure (.ok d)
        | some pos => tracedAnswers left pos (flushed || unreadable) d
    | .address ttl pos =>
      if flushed then do
        let _ ← tracedAllowed buffer pos
        tracedAnswers left pos true d
      else do
        let answered ← tracedFlushAddress buffer pos now id ttl q d
        match answered with
        | .error halt => pure (.error halt)
        | .ok d => tracedAnswers left pos true d

theorem tracedAnswers_val (left pos : ℕ) (flushed : Bool) (d : Dns) :
    (tracedAnswers buffer size now id q left pos flushed d).val =
      parseAnswers buffer size now id q left pos flushed d := by
  induction left generalizing pos flushed d with
  | zero => rfl
  | succ left ih =>
    rw [tracedAnswers, parseAnswers, val_bind]
    unfold tracedRecord
    rw [val_bind, tracedRead16Bits_val]
    dsimp only
    generalize read16Bits buffer size pos = AName
    by_cases named : AName.1 = 0
    · rw [if_pos named, if_pos named]
      cases flushed <;> rfl
    rw [if_neg named, if_neg named, val_bind, tracedRead16Bits_val]
    generalize read16Bits buffer size AName.2 = type
    by_cases asked : type.1 = 0x001c
    · have readable : ¬(type.1 = 0 ∧ flushed = false) := by omega
      have unset : (flushed || decide (type.1 = 0)) = flushed := by
        rw [asked]
        exact Bool.or_false flushed
      rw [if_pos asked, if_neg readable, val_bind, tracedRead16Bits_val]
      dsimp only
      rw [if_pos asked, unset]
      generalize read16Bits buffer size type.2 = classIn
      by_cases unread : classIn.1 = 0
      · rw [if_pos unread, if_pos unread]
        rfl
      rw [if_neg unread, if_neg unread]
      by_cases foreign : classIn.1 ≠ 0x0001
      · rw [if_pos foreign, if_pos foreign]
        cases flushed <;> exact ih _ _ _
      rw [if_neg foreign, if_neg foreign, val_bind, tracedRead32Bits_val]
      cases read32Bits buffer size classIn.2 with
      | none => cases flushed <;> rfl
      | some ttl =>
        dsimp only
        rw [val_bind, tracedRead16Bits_val]
        generalize read16Bits buffer size ttl.2 = datasize
        by_cases short : datasize.1 ≠ 16
        · rw [if_pos short, if_pos short]
          cases flushed <;> rfl
        rw [if_neg short, if_neg short]
        cases flushed with
        | true => exact ih _ _ _
        | false =>
          dsimp only [val_pure]
          rw [if_neg Bool.false_ne_true, if_neg Bool.false_ne_true, val_bind, tracedFlushAddress_val]
          cases flushAddress now id ttl.1 q (.ofMemory buffer datasize.2) d with
          | error halt => rfl
          | ok d => exact ih _ _ _
    · rw [if_neg asked, val_bind, tracedRead16Bits_val]
      dsimp only [val_pure]
      simp only [decide_eq_true_eq]
      cases (if type.1 = 0 ∧ flushed = false then flushFailed now id q d else .ok d) with
      | error halt => rfl
      | ok d =>
        dsimp only
        rw [if_neg asked]
        generalize read16Bits buffer size _ = datasize
        by_cases empty : datasize.1 = 0
        · rw [if_pos empty, if_pos empty]
          rfl
        · rw [if_neg empty, if_neg empty]
          exact ih _ _ _

/-- What stands at a position of the answers. -/
def record (pos : ℕ) : Taken := (tracedRecord buffer size pos).val

inductive Comes : ℕ → ℕ → Bool → ℕ → Bool → Prop
  | here {left pos : ℕ} {flushed : Bool} : Comes (left + 1) pos flushed pos flushed
  | other {left pos next p : ℕ} {unreadable flushed f : Bool}
      (passed : record buffer size pos = .other unreadable (some next))
      (later : Comes left next (flushed || unreadable) p f) : Comes (left + 1) pos flushed p f
  | address {left pos next ttl p : ℕ} {flushed f : Bool}
      (passed : record buffer size pos = .address ttl next)
      (later : Comes left next true p f) : Comes (left + 1) pos flushed p f

/-- Every address the walk comes to lies in the datagram as far as it is used. -/
def AddressesFit (full : Bool) (left pos : ℕ) (flushed : Bool) : Prop :=
  ∀ p f, Comes buffer size left pos flushed p f → ∀ ttl at_, record buffer size p = .address ttl at_ →
    at_ + wanted buffer at_ full f ≤ size

variable {buffer size} {full : Bool} {left pos next ttl : ℕ} {unreadable flushed : Bool}

theorem addressesFit_zero : AddressesFit buffer size full 0 pos flushed := by
  intro p f comes
  cases comes

theorem addressesFit_stop (passed : record buffer size pos = .other unreadable none) :
    AddressesFit buffer size full (left + 1) pos flushed := by
  intro p f comes ttl at_ found
  cases comes with
  | here => cases passed.symm.trans found
  | other passed' later => cases passed.symm.trans passed'
  | address passed' later => cases passed.symm.trans passed'

theorem addressesFit_other (passed : record buffer size pos = .other unreadable (some next)) :
    AddressesFit buffer size full (left + 1) pos flushed ↔
      AddressesFit buffer size full left next (flushed || unreadable) := by
  constructor
  · exact fun fit p f later => fit p f (.other passed later)
  · intro fit p f comes ttl at_ found
    cases comes with
    | here => cases passed.symm.trans found
    | other passed' later =>
      cases passed.symm.trans passed'
      exact fit p f later ttl at_ found
    | address passed' later => cases passed.symm.trans passed'

theorem addressesFit_address (passed : record buffer size pos = .address ttl next) :
    AddressesFit buffer size full (left + 1) pos flushed ↔
      next + wanted buffer next full flushed ≤ size ∧ AddressesFit buffer size full left next true := by
  constructor
  · exact fun fit => ⟨fit pos flushed .here ttl next passed, fun p f later => fit p f (.address passed later)⟩
  · rintro ⟨fits, rest⟩ p f comes ttl' at_ found
    cases comes with
    | here =>
      cases passed.symm.trans found
      exact fits
    | other passed' later => cases passed.symm.trans passed'
    | address passed' later =>
      cases passed.symm.trans passed'
      exact rest p f later ttl' at_ found

theorem inside_tracedAnswers (waiting : (q.http.isEmpty && q.https.isEmpty) = false) {d : Dns}
    (unanswered : flushed = false → d.queryList.lookup id = some q ∧
      decide (d.cache.entries.length > 5000) = full) :
    (tracedAnswers buffer size now id q left pos flushed d).Inside size ↔
      AddressesFit buffer size full left pos flushed := by
  induction left generalizing pos flushed d with
  | zero => exact iff_of_true (inside_pure _) addressesFit_zero
  | succ left ih =>
    rw [tracedAnswers, inside_bind_left _ (inside_tracedRecord buffer size pos)]
    cases passed : (tracedRecord buffer size pos).val with
    | other unreadable next =>
      dsimp only
      have goes_on : ∃ d', (if unreadable = true ∧ flushed = false then flushFailed now id q d
          else .ok d) = .ok d' ∧ ((flushed || unreadable) = false → d' = d) := by
        by_cases answers : unreadable = true ∧ flushed = false
        · obtain ⟨d', concluded, -⟩ := conclude_ok .unanswered now id (unanswered answers.2).1
          rw [if_pos answers]
          exact ⟨d', concluded, fun wrong => by simp [answers] at wrong⟩
        · rw [if_neg answers]
          exact ⟨d, rfl, fun _ => rfl⟩
      obtain ⟨d', went, same⟩ := goes_on
      rw [went]
      cases next with
      | none => exact iff_of_true (inside_pure _) (addressesFit_stop passed)
      | some next =>
        rw [addressesFit_other passed]
        refine ih fun still => ?_
        rw [same still]
        exact unanswered (Bool.or_eq_false_iff.mp still).1
    | address ttl next =>
      rw [addressesFit_address passed]
      dsimp only
      cases flushed with
      | true =>
        rw [if_pos rfl, inside_bind, inside_tracedAllowed]
        exact and_congr_right fun _ => ih fun wrong => by cases wrong
      | false =>
        obtain ⟨found, room⟩ := unanswered rfl
        obtain ⟨d', concluded, -⟩ := conclude_ok (.address ttl (.ofMemory buffer next)) now id found
        have answered : (tracedFlushAddress buffer next now id ttl q d).val = .ok d' :=
          (tracedFlushAddress_val buffer next now id ttl q d).trans concluded
        rw [if_neg Bool.false_ne_true, inside_bind, inside_tracedFlushAddress _ _ _ _ _ _ _ waiting,
          room, answered]
        exact and_congr_right fun _ => ih fun wrong => by cases wrong

end Walk

section HonestWalk

variable (size now id : ℕ) (q : Query)

theorem honest_tracedAnswers (left pos : ℕ) (flushed : Bool) (d : Dns) :
    Honest fun buffer => tracedAnswers buffer size now id q left pos flushed d := by
  induction left generalizing pos flushed d with
  | zero => exact honest_const _
  | succ left ih =>
    unfold tracedAnswers
    refine honest_bind (honest_tracedRecord size pos) fun taken => ?_
    cases taken with
    | other unreadable next =>
      dsimp only
      cases (if unreadable = true ∧ flushed = false then flushFailed now id q d else .ok d) with
      | error halt => exact honest_const _
      | ok d =>
        cases next with
        | none => exact honest_const _
        | some next => exact ih _ _ _
    | address ttl next =>
      refine honest_ite _ (honest_bind (honest_tracedAllowed next) fun _ => ih _ _ _) ?_
      refine honest_bind (honest_tracedFlushAddress next now id ttl q d) fun answered => ?_
      cases answered with
      | error halt => exact honest_const _
      | ok d => exact ih _ _ _

end HonestWalk

section Event

variable (buffer : Memory) (size : ℕ)

def tracedParseHeader : Traced (Except Halt (Option Header)) := do
  let raw ← tracedRead16BitsRaw buffer size 0
  match raw with
  | none => pure (.ok none)
  | some (transactionId, pos) => do
    let (flags, pos) ← tracedRead16Bits buffer size pos
    if flags = 0 then pure (.ok none)
    else do
      let (questions, pos) ← tracedRead16Bits buffer size pos
      if questions = 0 then pure (.ok none)
      else do
        let (answers, pos) ← tracedRead16Bits buffer size pos
        if answers = 0 then pure (.ok none)
        else
          match canAddToPos (2 + 2) size pos with
          | none => pure (.ok none)
          | some pos => do
            let skipped ← tracedSkipName buffer size pos 256 0
            match skipped with
            | none => pure (.error .endlessLoop)
            | some offs => do
              let (type, pos) ← tracedRead16Bits buffer size (pos + offs + 1)
              if type ≠ 0x001c then pure (.ok none)
              else do
                let (classIn, pos) ← tracedRead16Bits buffer size pos
                if classIn ≠ 0x0001 then pure (.ok none)
                else pure (.ok (some ⟨transactionId, flags, answers, pos⟩))

def tracedSettle (now : ℕ) (h : Header) (q : Query) (d : Dns) : Traced (Except Halt Dns) :=
  if h.flags &&& 0x000F = 0x0001 then pure (flushQuery h.transactionId (callEach q .dnsError) d)
  else if h.flags &&& 0xFA0F ≠ 0x8000 then pure (flushQuery h.transactionId (callEach q .dnsError)
    (addCacheEntryFailed now .wrong 0 q.host d))
  else tracedAnswers buffer size now h.transactionId q h.answers h.pos false d

def tracedParseEvent (fromServer : Bool) (time : Readings) (d : Dns) : Traced (Except Halt Dns) :=
  if !fromServer then pure (.ok d)
  else do
    let header ← tracedParseHeader buffer size
    match header with
    | .error halt => pure (.error halt)
    | .ok none => pure (.ok (uncount d))
    | .ok (some h) =>
      match d.queryList.lookup h.transactionId with
      | none => pure (.ok (uncount d))
      | some q =>
        if q.http.isEmpty && q.https.isEmpty then pure (.ok (uncount d))
        else tracedSettle buffer size (time 0) h q (uncount d)

theorem tracedParseHeader_val : (tracedParseHeader buffer size).val = parseHeader buffer size := by
  unfold tracedParseHeader parseHeader
  rw [val_bind, tracedRead16BitsRaw_val]
  cases read16BitsRaw buffer size 0 with
  | none => rfl
  | some raw =>
    dsimp only
    simp only [val_bind, val_ite, val_pure, tracedRead16Bits_val]
    congr 1
    congr 1
    congr 1
    cases canAddToPos (2 + 2) size _ with
    | none => rfl
    | some pos =>
      dsimp only
      rw [val_bind, tracedSkipName_val]
      cases skipName buffer size pos 256 0 with
      | none => rfl
      | some offs =>
        dsimp only
        simp only [val_bind, val_ite, val_pure, tracedRead16Bits_val]

theorem tracedSettle_val (now : ℕ) (h : Header) (q : Query) (d : Dns) :
    (tracedSettle buffer size now h q d).val = settle buffer size now h q d := by
  unfold tracedSettle settle
  rw [val_ite, val_ite, tracedAnswers_val]
  rfl

theorem tracedParseEvent_val (fromServer : Bool) (time : Readings) (d : Dns) :
    (tracedParseEvent buffer size fromServer time d).val = parseEvent fromServer buffer size time d := by
  unfold tracedParseEvent parseEvent
  cases fromServer with
  | false => rfl
  | true =>
    rw [if_neg (by decide), if_neg (by decide), val_bind, tracedParseHeader_val]
    cases parseHeader buffer size with
    | error halt => rfl
    | ok header =>
      cases header with
      | none => rfl
      | some h =>
        dsimp only
        cases d.queryList.lookup h.transactionId with
        | none => rfl
        | some q =>
          dsimp only
          rw [val_ite, tracedSettle_val]
          rfl

/-- The header and the question are read inside of the datagram. -/
theorem inside_tracedParseHeader : (tracedParseHeader buffer size).Inside size := by
  unfold tracedParseHeader
  refine inside_then (inside_tracedRead16BitsRaw _ _ _) ?_
  split
  · exact inside_pure _
  refine inside_then (inside_tracedRead16Bits _ _ _) ?_
  dsimp only
  split
  · exact inside_pure _
  refine inside_then (inside_tracedRead16Bits _ _ _) ?_
  split
  · exact inside_pure _
  refine inside_then (inside_tracedRead16Bits _ _ _) ?_
  split
  · exact inside_pure _
  split
  · exact inside_pure _
  refine inside_then (inside_tracedSkipName _ _ _ _ _) ?_
  split
  · exact inside_pure _
  refine inside_then (inside_tracedRead16Bits _ _ _) ?_
  split
  · exact inside_pure _
  refine inside_then (inside_tracedRead16Bits _ _ _) ?_
  split <;> exact inside_pure _

theorem honest_tracedParseHeader : Honest fun buffer => tracedParseHeader buffer size := by
  unfold tracedParseHeader
  refine honest_bind (honest_tracedRead16BitsRaw size 0) fun raw => ?_
  cases raw with
  | none => exact honest_const _
  | some raw =>
    refine honest_bind (honest_tracedRead16Bits size _) fun flags => honest_ite _ (honest_const _) ?_
    refine honest_bind (honest_tracedRead16Bits size _) fun questions => ?_
    refine honest_ite _ (honest_const _) (honest_bind (honest_tracedRead16Bits size _) fun answers => ?_)
    refine honest_ite _ (honest_const _) ?_
    dsimp only
    cases canAddToPos (2 + 2) size answers.2 with
    | none => exact honest_const _
    | some pos =>
      refine honest_bind (honest_tracedSkipName size pos 256 0) fun skipped => ?_
      cases skipped with
      | none => exact honest_const _
      | some offs =>
        refine honest_bind (honest_tracedRead16Bits size _) fun type => ?_
        refine honest_ite _ (honest_const _) (honest_bind (honest_tracedRead16Bits size _) fun classIn => ?_)
        exact honest_ite _ (honest_const _) (honest_const _)

theorem honest_tracedParseEvent (fromServer : Bool) (time : Readings) (d : Dns) :
    Honest fun buffer => tracedParseEvent buffer size fromServer time d := by
  unfold tracedParseEvent
  refine honest_ite _ (honest_const _) (honest_bind (honest_tracedParseHeader size) fun header => ?_)
  cases header with
  | error halt => exact honest_const _
  | ok header =>
    cases header with
    | none => exact honest_const _
    | some h =>
      dsimp only
      cases d.queryList.lookup h.transactionId with
      | none => exact honest_const _
      | some q =>
        refine honest_ite _ (honest_const _) (honest_ite _ (honest_const _) ?_)
        exact honest_ite _ (honest_const _) (honest_tracedAnswers size _ _ q _ _ _ _)

/-- The walk over the answers begins, for a query with clients. -/
def Walked (d : Dns) (h : Header) (q : Query) : Prop :=
  parseHeader buffer size = .ok (some h) ∧ d.queryList.lookup h.transactionId = some q ∧
    (q.http.isEmpty && q.https.isEmpty) = false ∧
    h.flags &&& 0x000F ≠ 0x0001 ∧ h.flags &&& 0xFA0F = 0x8000

theorem inside_unwalked {α : Type} {a : α} {d : Dns} {fits : Header → Prop}
    (unwalked : ∀ h q, ¬Walked buffer size d h q) :
    (pure a : Traced α).Inside size ↔ ∀ h q, Walked buffer size d h q → fits h :=
  iff_of_true (inside_pure _) fun h q walked => absurd walked (unwalked h q)

theorem Walked.unique {d : Dns} {h h' : Header} {q' : Query} (walked : Walked buffer size d h' q')
    (parsed : parseHeader buffer size = .ok (some h)) :
    h' = h ∧ d.queryList.lookup h.transactionId = some q' := by
  cases parsed.symm.trans walked.1
  exact ⟨rfl, walked.2.1⟩

theorem inside_tracedParseEvent (time : Readings) (d : Dns) :
    (tracedParseEvent buffer size true time d).Inside size ↔
      ∀ h q, Walked buffer size d h q →
        AddressesFit buffer size (decide (d.cache.entries.length > 5000)) h.answers h.pos false := by
  unfold tracedParseEvent
  rw [if_neg (by decide), inside_bind_left _ (inside_tracedParseHeader buffer size),
    tracedParseHeader_val]
  cases parsed : parseHeader buffer size with
  | error halt =>
    refine inside_unwalked buffer size fun h q walked => ?_
    cases parsed.symm.trans walked.1
  | ok header =>
    cases header with
    | none =>
      refine inside_unwalked buffer size fun h q walked => ?_
      cases parsed.symm.trans walked.1
    | some h =>
      dsimp only
      cases found : d.queryList.lookup h.transactionId with
      | none =>
        refine inside_unwalked buffer size fun h' q' walked => ?_
        cases found.symm.trans (walked.unique buffer size parsed).2
      | some q =>
        have only {h' : Header} {q' : Query} (walked : Walked buffer size d h' q') :
            h' = h ∧ q' = q := by
          obtain ⟨same, found'⟩ := walked.unique buffer size parsed
          exact ⟨same, Option.some.inj (found'.symm.trans found)⟩
        dsimp only
        by_cases idle : (q.http.isEmpty && q.https.isEmpty) = true
        · rw [if_pos idle]
          refine inside_unwalked buffer size fun h' q' walked => ?_
          obtain ⟨rfl, rfl⟩ := only walked
          exact absurd (idle.symm.trans walked.2.2.1) (by decide)
        have waiting : (q.http.isEmpty && q.https.isEmpty) = false := Bool.eq_false_iff.mpr idle
        rw [if_neg idle]
        unfold tracedSettle
        by_cases refused : h.flags &&& 0x000F = 0x0001
        · rw [if_pos refused]
          refine inside_unwalked buffer size fun h' q' walked => ?_
          obtain ⟨rfl, _⟩ := only walked
          exact absurd refused walked.2.2.2.1
        rw [if_neg refused]
        by_cases failed : h.flags &&& 0xFA0F ≠ 0x8000
        · rw [if_pos failed]
          refine inside_unwalked buffer size fun h' q' walked => ?_
          obtain ⟨rfl, _⟩ := only walked
          exact absurd walked.2.2.2.2 failed
        rw [if_neg failed, inside_tracedAnswers _ _ q waiting (d := uncount d) fun _ => ⟨found, rfl⟩]
        constructor
        · intro fit h' q' walked
          obtain ⟨rfl, _⟩ := only walked
          exact fit
        · exact fun fit => fit h q ⟨parsed, found, waiting, refused, not_not.mp failed⟩

def StaysInside (time : Readings) (d : Dns) : Prop :=
  (tracedParseEvent buffer size true time d).Inside size ∧
    ∀ other : Memory, (∀ i < size, other i = buffer i) →
      parseEvent true other size time d = parseEvent true buffer size time d

/-- The parsing stays inside of a datagram if and only if the addresses of its answers
lie there, as far as they are used. -/
theorem datagram_parsing_stays_inside_iff (time : Readings) (d : Dns) :
    StaysInside buffer size time d ↔ ∀ h q, Walked buffer size d h q →
      AddressesFit buffer size (decide (d.cache.entries.length > 5000)) h.answers h.pos false := by
  rw [← inside_tracedParseEvent buffer size time d]
  constructor
  · exact fun stays => stays.1
  · intro inside
    refine ⟨inside, fun other same => ?_⟩
    have agree := (honest_tracedParseEvent size true time d).agrees inside same
    rw [← tracedParseEvent_val, ← tracedParseEvent_val]
    exact congrArg Traced.val agree

end Event

def cutReply : Bytes := (replyTo 0x8180 (by decide) [addressRecord] (by decide)).bytes.take 31

/-- The address that a longer datagram has left behind is taken for the answer. -/
theorem cut_reply_uses_stale_bytes :
    ¬StaysInside (received (cutReply ++ insideAddress.s6_addr)) cutReply.length (fun _ => 101) waiting ∧
    (parseEvent true (received (cutReply ++ insideAddress.s6_addr)) cutReply.length (fun _ => 101)
      waiting).toOption.map calls = some [.dnsRight 7 ⟨insideAddress, 80⟩] ∧
    (parseEvent true (received cutReply) cutReply.length (fun _ => 101) waiting).toOption.map calls =
      some [.dnsWrong 7] := by
  have stale : (parseEvent true (received (cutReply ++ insideAddress.s6_addr)) cutReply.length
      (fun _ => 101) waiting).toOption.map calls = some [.dnsRight 7 ⟨insideAddress, 80⟩] := by decide
  have absent : (parseEvent true (received cutReply) cutReply.length (fun _ => 101)
      waiting).toOption.map calls = some [.dnsWrong 7] := by decide
  refine ⟨fun stays => ?_, stale, absent⟩
  have same := stays.2 (received cutReply) (by decide)
  rw [same, stale] at absent
  exact absurd absent (by decide)

end FastCgiCdn.DatagramReads
