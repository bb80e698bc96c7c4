import FastCgiCdn.RecordEncoding

/-! A request that arrives in several reads. What a read has parsed does not depend on
what stands behind it, and a record that is cut ends the connection, since nothing of a
read is kept. Between two records the id of the request is kept, and the fields are
cleared: what is asked for is what the read with the first record of the body has said. -/

namespace FastCgiCdn.RecordCuts

open HttpModel MeasuredLoop HeadReading FastCgiRecords ClientModel RecordEncoding HeldValues

section Extend

variable {b b' : Buffer} {n m pos : ℕ} {s t : Scan}

theorem read8Bits_extend (agree : ∀ i < n, b i = b' i) (le : n ≤ m) {x : ℕ × ℕ}
    (read : read8Bits b n pos = some x) : read8Bits b' m pos = some x := by
  unfold read8Bits at read ⊢
  split at read
  · cases read
  · rw [if_neg (by omega), ← agree pos (by omega)]
    exact read

theorem read16Bits_extend (agree : ∀ i < n, b i = b' i) (le : n ≤ m) {x : ℕ × ℕ}
    (read : read16Bits b n pos = some x) : read16Bits b' m pos = some x := by
  unfold read16Bits at read ⊢
  split at read
  · cases read
  · rw [if_neg (by omega), ← agree pos (by omega), ← agree (pos + 1) (by omega)]
    exact read

theorem read24Bits_extend (agree : ∀ i < n, b i = b' i) (le : n ≤ m) {x : ℕ × ℕ}
    (read : read24Bits b n pos = some x) : read24Bits b' m pos = some x := by
  unfold read24Bits at read ⊢
  split at read
  · cases read
  · rw [if_neg (by omega), ← agree pos (by omega), ← agree (pos + 1) (by omega),
      ← agree (pos + 2) (by omega)]
    exact read

theorem canAddToPos_extend (le : n ≤ m) {i x : ℕ} (added : canAddToPos n pos i = some x) :
    canAddToPos m pos i = some x := by
  unfold canAddToPos at added ⊢
  split at added
  · cases added
  · rw [if_neg (by omega)]
    exact added

theorem readSize_extend (agree : ∀ i < n, b i = b' i) (le : n ≤ m) {x : ℕ × ℕ}
    (read : readSize b n pos = some x) : readSize b' m pos = some x := by
  obtain ⟨⟨varSize8, next⟩, first, rest⟩ := Option.bind_eq_some_iff.mp read
  refine Option.bind_eq_some_iff.mpr ⟨_, read8Bits_extend agree le first, ?_⟩
  dsimp only at rest ⊢
  split at rest
  case isTrue long =>
    rw [if_pos long]
    exact read24Bits_extend agree le rest
  case isFalse short =>
    rw [if_neg short]
    exact rest

theorem readSizes_extend (agree : ∀ i < n, b i = b' i) (le : n ≤ m) {x : ℕ × ℕ × ℕ}
    (read : readSizes b n pos = some x) : readSizes b' m pos = some x := by
  obtain ⟨_, first, rest⟩ := Option.bind_eq_some_iff.mp read
  obtain ⟨_, second, same⟩ := Option.map_eq_some_iff.mp rest
  exact Option.bind_eq_some_iff.mpr ⟨_, readSize_extend agree le first,
    Option.map_eq_some_iff.mpr ⟨_, readSize_extend agree le second, same⟩⟩

theorem span_extend (agree : ∀ i < n, b i = b' i) {start stop : ℕ} (inside : stop ≤ n) :
    span b start stop = span b' start stop := by
  apply List.map_congr_left
  intro i member
  have bounds := List.mem_range'_1.mp member
  exact agree i (by omega)

theorem named_extend (agree : ∀ i < n, b i = b' i) (text : Bytes) {k size : ℕ}
    (length : text.length = k) (inside : pos + size ≤ n) :
    (decide (size = k) && holds b pos text) = (decide (size = k) && holds b' pos text) := by
  by_cases same : size = k
  · have compared : holds b pos text = holds b' pos text := by
      unfold FastCgiRecords.holds
      rw [span_extend agree (show pos + text.length ≤ n by omega)]
    rw [compared]
  · rw [decide_eq_false same, Bool.false_and, Bool.false_and]

theorem takeParam_extend (agree : ∀ i < n, b i = b' i) {varSize valSize : ℕ}
    (inside : pos + (varSize + valSize) ≤ n) (s : Scan) :
    takeParam b pos varSize valSize s = takeParam b' pos varSize valSize s := by
  have scheme := named_extend agree (ascii "https") (k := 5)
    (by decide) (show pos + varSize + valSize ≤ n by omega)
  unfold takeParam
  rw [span_extend agree (show pos + varSize + valSize ≤ n by omega),
    named_extend agree _ (by decide) (show pos + varSize ≤ n by omega),
    named_extend agree _ (by decide) (show pos + varSize ≤ n by omega),
    named_extend agree _ (by decide) (show pos + varSize ≤ n by omega),
    named_extend agree _ (by decide) (show pos + varSize ≤ n by omega)]
  simp only [Bool.and_assoc, scheme]

theorem antiLoop_extend (agree : ∀ i < n, b i = b' i) {varSize valSize : ℕ}
    (inside : pos + (varSize + valSize) ≤ n) :
    antiLoop b pos varSize valSize = antiLoop b' pos varSize valSize := by
  unfold antiLoop
  rw [named_extend agree _ (by decide) (show pos + varSize ≤ n by omega)]
  by_cases sized : valSize = 8
  · have five : ((ascii "ysff43Uy").take 5).length = 5 := by decide
    have compared : holds b (pos + varSize) ((ascii "ysff43Uy").take 5) =
        holds b' (pos + varSize) ((ascii "ysff43Uy").take 5) := by
      unfold FastCgiRecords.holds
      rw [span_extend agree (show _ ≤ n by rw [five]; omega)]
    rw [compared]
  · rw [decide_eq_false sized, Bool.and_false, Bool.false_and, Bool.false_and]

theorem paramsBody_again (agree : ∀ i < n, b i = b' i) (le : n ≤ m) {abs : ℕ}
    (taken : paramsBody b n abs s = .again t) : paramsBody b' m abs s = .again t := by
  unfold paramsBody at taken ⊢
  split at taken
  case isFalse => cases taken
  case isTrue more =>
    rw [if_pos more]
    split at taken
    · cases taken
    · rename_i varSize valSize pos sizes
      rw [readSizes_extend agree le sizes]
      dsimp only
      split at taken
      case isTrue => cases taken
      case isFalse unmarked =>
        split at taken
        · cases taken
        · rename_i next added
          have inside : pos + (varSize + valSize) ≤ n := by
            unfold canAddToPos at added
            split at added
            · cases added
            · omega
          rw [← antiLoop_extend agree inside, if_neg unmarked, canAddToPos_extend le added,
            ← takeParam_extend agree inside]
          exact taken

theorem params_extend (agree : ∀ i < n, b i = b' i) (le : n ≤ m) {abs : ℕ}
    (read : (params b n abs).run s = .parsed t) : (params b' m abs).run s = .parsed t := by
  revert read
  apply (params b n abs).run_induct
    (P := fun s end_ => end_ = .parsed t → (params b' m abs).run s = .parsed t)
  · intro s r taken parsed
    have ended : paramsBody b n abs s = .stop r := taken
    have last : ¬s.pos < abs := by
      intro more
      rw [parsed] at ended
      unfold paramsBody at ended
      rw [if_pos more] at ended
      split at ended
      · cases ended
      · split at ended
        · cases ended
        · split at ended <;> cases ended
    have stops : (params b' m abs).body s = .stop (.parsed s) := if_neg last
    have same : paramsBody b n abs s = .stop (.parsed s) := if_neg last
    rw [same] at ended
    obtain rfl := Outcome.stop.inj ended
    exact ((params b' m abs).run_stop stops).trans parsed
  · intro s u taken later parsed
    have goes : (params b' m abs).body s = .again u := paramsBody_again agree le taken
    exact ((params b' m abs).run_again goes).trans (later parsed)

theorem recordStart_extend (agree : ∀ i < n, b i = b' i) (le : n ≤ m) {client : Client}
    {x : Client × ℕ × ℕ} (read : recordStart b n client pos = some x) :
    recordStart b' m client pos = some x := by
  obtain ⟨⟨version, p⟩, first, rest⟩ := Option.bind_eq_some_iff.mp read
  refine Option.bind_eq_some_iff.mpr ⟨_, read8Bits_extend agree le first, ?_⟩
  dsimp only at rest ⊢
  split at rest
  case isTrue => cases rest
  case isFalse one =>
    rw [if_neg one]
    obtain ⟨⟨var8, q⟩, second, rest⟩ := Option.bind_eq_some_iff.mp rest
    refine Option.bind_eq_some_iff.mpr ⟨_, read8Bits_extend agree le second, ?_⟩
    dsimp only at rest ⊢
    cases numbered : client.fastcgiid with
    | none =>
      rw [numbered] at rest
      dsimp only at rest ⊢
      split at rest
      case isTrue => cases rest
      case isFalse begins =>
        obtain ⟨_, third, same⟩ := Option.map_eq_some_iff.mp rest
        rw [if_neg begins]
        exact Option.map_eq_some_iff.mpr ⟨_, read16Bits_extend agree le third, same⟩
    | some fastcgiid =>
      rw [numbered] at rest
      dsimp only at rest ⊢
      split at rest
      case isTrue => cases rest
      case isFalse known =>
        obtain ⟨_, third, same⟩ := Option.bind_eq_some_iff.mp rest
        rw [if_neg known]
        exact Option.bind_eq_some_iff.mpr ⟨_, read16Bits_extend agree le third, same⟩

theorem recordHeader_extend (agree : ∀ i < n, b i = b' i) (le : n ≤ m) {client : Client}
    {h : Header} (read : recordHeader b n client pos = some h) :
    recordHeader b' m client pos = some h := by
  obtain ⟨_, first, rest⟩ := Option.bind_eq_some_iff.mp read
  obtain ⟨_, second, rest⟩ := Option.bind_eq_some_iff.mp rest
  obtain ⟨_, third, rest⟩ := Option.bind_eq_some_iff.mp rest
  obtain ⟨_, last, same⟩ := Option.map_eq_some_iff.mp rest
  exact Option.bind_eq_some_iff.mpr ⟨_, recordStart_extend agree le first,
    Option.bind_eq_some_iff.mpr ⟨_, read16Bits_extend agree le second,
      Option.bind_eq_some_iff.mpr ⟨_, read8Bits_extend agree le third,
        Option.map_eq_some_iff.mpr ⟨_, canAddToPos_extend le last, same⟩⟩⟩⟩

/-- A record that a read has parsed is parsed with any bytes behind the read. -/
theorem record_extend (agree : ∀ i < n, b i = b' i) (le : n ≤ m)
    (read : record b n s = .parsed t) : record b' m s = .parsed t ∧ t.pos ≤ n := by
  unfold record at read ⊢
  split at read
  · cases read
  · rename_i h header
    rw [recordHeader_extend agree le header]
    dsimp only
    split at read
    case isTrue four =>
      rw [if_pos four]
      split at read
      · rename_i u parsed
        rw [params_extend agree le parsed]
        dsimp only
        split at read
        · cases read
        · rename_i pos added
          rw [canAddToPos_extend le added]
          obtain rfl := Parsed.parsed.inj read
          exact ⟨rfl, (canAddToPos_bound added).2⟩
      · rename_i fault
        exact absurd read (fault t)
    case isFalse other =>
      rw [if_neg other]
      split at read
      · cases read
      · rename_i pos added
        rw [canAddToPos_extend le added]
        obtain rfl := Parsed.parsed.inj read
        exact ⟨rfl, (canAddToPos_bound added).2⟩

end Extend

section Cut

variable {b : Buffer} {n id : ℕ} {r : Record} {rs head : List Record} {s t : Scan}
  {data rest part : Bytes}

theorem record_cut (accepted : r.Accepted id s.client) (small : id < 65536)
    (front : part <+: r.bytes id) (short : part.length < (r.bytes id).length)
    (holds : Holds b s.pos part) (end_ : s.pos + part.length = n) : record b n s ≠ .parsed t := by
  intro read
  -- the rest of the record is put behind the read
  let whole : Buffer := fun i => if i < n then b i else (r.bytes id).getD (i - s.pos) 0
  have agree : ∀ i < n, b i = whole i := fun i inside => (if_pos inside).symm
  have stands : Holds whole s.pos (r.bytes id) := by
    apply holds_getElem
    intro i inside
    by_cases early : i < part.length
    · have same : whole (s.pos + i) = b (s.pos + i) := if_pos (by omega)
      rw [same, getElem_of_holds b holds early]
      exact front.getElem early
    · have behind : whole (s.pos + i) = (r.bytes id).getD (s.pos + i - s.pos) 0 :=
        if_neg (by omega)
      rw [behind, Nat.add_sub_cancel_left]
      rw [List.getD_eq_getElem?_getD, List.getElem?_eq_getElem inside, Option.getD_some]
  obtain ⟨extended, bound⟩ := record_extend agree
    (show n ≤ s.pos + (r.bytes id).length by omega) read
  rw [record_holds accepted stands small (Nat.le_refl _)] at extended
  split at extended
  · cases extended
  · have same := Parsed.parsed.inj extended
    rw [← same, apply_pos] at bound
    omega

theorem expected_append {fastcgiid : Option ℕ} :
    Expected id fastcgiid (head ++ rs) ↔ Expected id fastcgiid head ∧
      Expected id (if head = [] then fastcgiid else some id) rs := by
  induction head generalizing fastcgiid with
  | nil => exact ⟨fun all => ⟨trivial, all⟩, fun both => both.2⟩
  | cons r head ih =>
    have later : (if head = [] then some id else some id) = some id := ite_self _
    rw [List.cons_append, Expected, Expected, ih, and_assoc, if_neg (List.cons_ne_nil _ _), later]

theorem records_cut (expected : Expected id s.client.fastcgiid (head ++ [r])) (small : id < 65536)
    (holds : Holds b s.pos (bytesOf id head ++ part)) (filled : part ≠ [])
    (front : part <+: r.bytes id) (short : part.length < (r.bytes id).length)
    (end_ : s.pos + (bytesOf id head ++ part).length = n) : (records b n).run s ≠ .parsed t := by
  obtain ⟨before, last⟩ := expected_append.mp expected
  rw [List.length_append] at end_
  rw [holds_append] at holds
  have more := List.length_pos_iff.mpr filled
  rw [records_ahead before holds.1 small (by omega)]
  split
  · intro wrong
    cases wrong
  · have applied := applyAll_applied before
    have accepted : r.Accepted id (applyAll id head s).client := by
      have own := last.1
      unfold Record.Accepted
      rw [← own]
      by_cases empty : head = []
      · subst empty
        rfl
      · rw [if_neg empty]
        exact applied.fastcgiid.resolve_right fun none_left => empty none_left.1
    have faulty (t : Scan) : record b n (applyAll id head s) ≠ .parsed t := by
      apply record_cut accepted small front short
      · rw [applied.pos]
        exact holds.2
      · rw [applied.pos]
        omega
    intro parsed
    cases read : record b n (applyAll id head s) with
    | parsed u => exact faulty u read
    | refused | antiLoop =>
      have stops := (records b n).run_stop (s := applyAll id head s)
        (show recordsBody b n (applyAll id head s) = .stop _ by rw [recordsBody, read])
      rw [stops] at parsed
      cases parsed

/-- A cut stands between two records or inside one. -/
theorem split_records (cut : data ++ rest = bytesOf id rs) :
    (∃ head tail, rs = head ++ tail ∧ data = bytesOf id head ∧ rest = bytesOf id tail) ∨
      ∃ head r tail part, rs = head ++ r :: tail ∧ data = bytesOf id head ++ part ∧ part ≠ [] ∧
        part <+: r.bytes id ∧ part.length < (r.bytes id).length := by
  induction rs generalizing data with
  | nil =>
    obtain ⟨none_read, none_left⟩ := List.append_eq_nil_iff.mp cut
    exact .inl ⟨[], [], rfl, none_read, none_left⟩
  | cons r rs ih =>
    rw [bytesOf, List.flatMap_cons] at cut
    obtain ⟨inside, whole, behind⟩ | ⟨later, whole, behind⟩ := List.append_eq_append_iff.mp cut
    · by_cases begun : data = []
      · refine .inl ⟨[], r :: rs, rfl, begun, ?_⟩
        rw [begun, List.nil_append] at whole
        rw [behind, ← whole, bytesOf, List.flatMap_cons]
      · by_cases ended : inside = []
        · rw [ended, List.append_nil] at whole
          rw [ended, List.nil_append] at behind
          refine .inl ⟨[r], rs, rfl, ?_, behind⟩
          rw [bytesOf, List.flatMap_singleton, whole]
        · refine .inr ⟨[], r, rs, data, rfl, rfl, begun, ⟨inside, whole.symm⟩, ?_⟩
          have more := List.length_pos_iff.mpr ended
          rw [whole, List.length_append]
          omega
    · obtain ⟨head, tail, rfl, same, end_⟩ | ⟨head, r', tail, part, rfl, same, filled, front, short⟩ :=
        ih behind.symm
      · refine .inl ⟨r :: head, tail, rfl, ?_, end_⟩
        rw [whole, same, bytesOf, bytesOf, List.flatMap_cons]
      · refine .inr ⟨r :: head, r', tail, part, rfl, ?_, filled, front, short⟩
        rw [whole, same, bytesOf, bytesOf, List.flatMap_cons, List.append_assoc]

end Cut

section Run

variable {c : Client} {r : Read} {reads : List Read} {q : Request} {s : Scan}

/-- The fields are cleared at the start of a read. -/
def start (c : Client) : Scan := ⟨{ c with https := false, uri := [], host := [] }, [], 0⟩

def parse (c : Client) (r : Read) : Option Parsed :=
  if c.fullyParsed || !c.isValid || r.data.isEmpty then none
  else some ((records (r.buffer []) r.data.length).run (start c))

def Disconnects (c : Client) (r : Read) : Prop :=
  parse c r = some .refused ∨ parse c r = some .antiLoop

/-- The fields with which a read goes on behind the parsing. -/
def handed (c : Client) (r : Read) : Option Request :=
  match parse c r with
  | some (.parsed s) => if s.client.fullyParsed then some (asked s) else none
  | _ => none

def met : Client → List Read → List (Client × Read)
  | _, [] => []
  | c, r :: reads => (c, r) :: met (readyToRead c r).1 reads

def acts (reading : Reading) : Bool := decide (reading ≠ .ignored ∧ reading ≠ .waits)

/-- What the fields of a request lead to. -/
def answer (q : Request) : Reading :=
  dispatch ⟨true, none, true, q.https, q.uri, q.host⟩ q.ifNoneMatch

theorem readyToRead_ignored (none_read : parse c r = none) : readyToRead c r = (c, .ignored) := by
  unfold parse at none_read
  unfold readyToRead
  split at none_read
  case isTrue closed => exact if_pos closed
  case isFalse => cases none_read

theorem parse_some {parsed : Parsed} (read : parse c r = some parsed) :
    ¬(c.fullyParsed || !c.isValid || r.data.isEmpty) = true ∧
      (records (r.buffer []) r.data.length).run (start c) = parsed := by
  unfold parse at read
  split at read
  case isTrue => cases read
  case isFalse opened => exact ⟨opened, Option.some.inj read⟩

theorem acts_loadUrl (q : Request) : acts (loadUrl q) = true := by
  unfold loadUrl
  split
  · rfl
  · split <;> rfl

theorem acts_answer (q : Request) : acts (answer q) = true := by
  unfold answer dispatch
  split
  · rfl
  · split
    · rfl
    · split
      · rfl
      · exact acts_loadUrl _

theorem readyToRead_done (read : parse c r = some (.parsed s)) (done : s.client.fullyParsed = true) :
    (readyToRead c r).1.fullyParsed = true ∧ (readyToRead c r).2 = answer (asked s) := by
  obtain ⟨opened, run⟩ := parse_some read
  have same : dispatch s.client s.ifNoneMatch = answer (asked s) := rfl
  unfold start at run
  unfold readyToRead
  rw [if_neg opened, run]
  dsimp only
  rw [if_pos done, same]
  cases answer (asked s) <;> exact ⟨done, rfl⟩

theorem readyToRead_waits (read : parse c r = some (.parsed s))
    (waits : s.client.fullyParsed = false) : readyToRead c r = (s.client, .waits) := by
  obtain ⟨opened, run⟩ := parse_some read
  unfold start at run
  unfold readyToRead
  rw [if_neg opened, run]
  exact if_neg (Bool.eq_false_iff.mp waits)

theorem parse_closed (closed : c.fullyParsed = true) : parse c r = none := by
  unfold parse
  rw [closed]
  rfl

/-- A client with a parsed request ignores its reads. -/
theorem met_closed (closed : c.fullyParsed = true) (reads : List Read) :
    ∀ m ∈ met c reads, m.1 = c := by
  induction reads with
  | nil => exact fun m member => absurd member List.not_mem_nil
  | cons r reads ih =>
    intro m member
    rw [met, readyToRead_ignored (parse_closed closed)] at member
    rcases List.mem_cons.mp member with rfl | later
    · rfl
    · exact ih m later

def handedAll (c : Client) (reads : List Read) : List Request :=
  (met c reads).filterMap fun m => handed m.1 m.2

def actions (c : Client) (reads : List Read) : List Reading :=
  ((met c reads).map fun m => (readyToRead m.1 m.2).2).filter acts

theorem handedAll_cons : handedAll c (r :: reads) =
    (handed c r).toList ++ handedAll (readyToRead c r).1 reads := by
  rw [handedAll, met, List.filterMap_cons]
  cases handed c r <;> rfl

theorem actions_cons : actions c (r :: reads) =
    [(readyToRead c r).2].filter acts ++ actions (readyToRead c r).1 reads := by
  rw [actions, met, List.map_cons, ← List.singleton_append, List.filter_append]
  rfl

structure Taken (c : Client) (reads : List Read) (q : Request) : Prop where
  connected : ∀ m ∈ met c reads, ¬Disconnects m.1 m.2
  handed : handedAll c reads = [q]
  acted : actions c reads = [answer q]

theorem not_disconnects (none_or_parsed : parse c r = none ∨ parse c r = some (.parsed s)) :
    ¬Disconnects c r := by
  rintro (wrong | wrong) <;> rw [wrong] at none_or_parsed <;>
    exact none_or_parsed.elim (fun eq => by cases eq) fun eq => by cases eq

theorem taken_skip {c' : Client} {reading : Reading} (next : readyToRead c r = (c', reading))
    (quiet : acts reading = false) (nothing : handed c r = none)
    (stays : ¬Disconnects c r) : Taken c (r :: reads) q ↔ Taken c' reads q := by
  have rest : met c (r :: reads) = (c, r) :: met c' reads := by rw [met, next]
  have fields : handedAll c (r :: reads) = handedAll c' reads := by
    rw [handedAll_cons, nothing, next]
    rfl
  have led : actions c (r :: reads) = actions c' reads := by
    rw [actions_cons, next, List.filter_singleton, quiet]
    rfl
  constructor
  · intro taken
    refine ⟨fun m member => taken.connected m ?_, fields ▸ taken.handed, led ▸ taken.acted⟩
    rw [rest]
    exact List.mem_cons_of_mem _ member
  · intro taken
    refine ⟨fun m member => ?_, fields.trans taken.handed, led.trans taken.acted⟩
    rw [rest] at member
    rcases List.mem_cons.mp member with rfl | later
    · exact stays
    · exact taken.connected m later

theorem taken_ignored (none_read : parse c r = none) :
    Taken c (r :: reads) q ↔ Taken c reads q := by
  have nothing : handed c r = none := by rw [handed, none_read]
  exact taken_skip (readyToRead_ignored none_read) rfl nothing
    (not_disconnects (s := start c) (.inl none_read))

theorem taken_waits (read : parse c r = some (.parsed s)) (waits : s.client.fullyParsed = false) :
    Taken c (r :: reads) q ↔ Taken s.client reads q := by
  have nothing : handed c r = none := by
    rw [handed, read]
    exact if_neg (Bool.eq_false_iff.mp waits)
  exact taken_skip (readyToRead_waits read waits) rfl nothing (not_disconnects (.inr read))

theorem taken_done (read : parse c r = some (.parsed s)) (done : s.client.fullyParsed = true) :
    Taken c (r :: reads) q ↔ asked s = q := by
  obtain ⟨closed, led⟩ := readyToRead_done read done
  have stands := met_closed closed reads
  have given : handed c r = some (asked s) := by
    rw [handed, read]
    exact if_pos done
  have nothing_handed : handedAll (readyToRead c r).1 reads = [] := by
    refine List.filterMap_eq_nil_iff.mpr fun m member => ?_
    rw [stands m member, handed, parse_closed closed]
  have nothing_led : actions (readyToRead c r).1 reads = [] := by
    refine List.filter_eq_nil_iff.mpr fun reading member => ?_
    obtain ⟨m, met_later, rfl⟩ := List.mem_map.mp member
    rw [stands m met_later, readyToRead_ignored (parse_closed closed)]
    exact Bool.false_ne_true
  have fields : handedAll c (r :: reads) = [asked s] := by
    rw [handedAll_cons, given, nothing_handed]
    rfl
  have all_led : actions c (r :: reads) = [answer (asked s)] := by
    rw [actions_cons, led, List.filter_singleton, acts_answer, nothing_led]
    rfl
  constructor
  · intro taken
    exact (List.cons.inj (fields.symm.trans taken.handed)).1
  · rintro rfl
    refine ⟨fun m member => ?_, fields, all_led⟩
    rcases List.mem_cons.mp member with rfl | later
    · exact not_disconnects (.inr read)
    · rw [stands m later]
      exact not_disconnects (s := start c) (.inl (parse_closed closed))

theorem taken_refused {fault : Parsed} (read : parse c r = some fault)
    (faulty : ∀ s, fault ≠ .parsed s) : ¬Taken c (r :: reads) q := by
  intro taken
  apply taken.connected (c, r) List.mem_cons_self
  cases fault with
  | refused => exact .inl read
  | antiLoop => exact .inr read
  | parsed s => exact absurd rfl (faulty s)

end Run

section Aligned

variable {id : ℕ} {q : Request} {rs head tail : List Record} {c : Client} {read : Read}
  {reads : List Read}

def nothing : Request := ⟨false, [], [], []⟩

/-- The reads up to the first record of the body have whole records, and the parameters
of the last of them ask for `q`. -/
inductive Aligned (id : ℕ) (q : Request) : List Record → List Read → Prop
  | last (head tail : List Record) {read : Read} {reads : List Read}
      (whole : read.data = bytesOf id head) (body : ∃ r ∈ head, r.IsStdin)
      (fields : takeAll (pairsOf head) nothing = q) : Aligned id q (head ++ tail) (read :: reads)
  | next (head tail : List Record) {read : Read} {reads : List Read}
      (whole : read.data = bytesOf id head) (early : ¬∃ r ∈ head, r.IsStdin)
      (rest : Aligned id q tail reads) : Aligned id q (head ++ tail) (read :: reads)

theorem bytesOf_append : bytesOf id (head ++ tail) = bytesOf id head ++ bytesOf id tail :=
  List.flatMap_append

theorem bytesOf_eq_nil (empty : bytesOf id rs = []) : rs = [] := by
  cases rs with
  | nil => rfl
  | cons r rs =>
    have length := r.length_bytes id
    rw [(List.append_eq_nil_iff.mp empty).1, List.length_nil] at length
    omega

theorem head_unique {head' tail' : List Record} (same : head ++ tail = head' ++ tail')
    (bytes : bytesOf id head = bytesOf id head') : head = head' := by
  obtain ⟨more, rfl, -⟩ | ⟨more, rfl, -⟩ := List.append_eq_append_iff.mp same
  · rw [bytesOf_append, List.self_eq_append_right] at bytes
    rw [bytesOf_eq_nil bytes, List.append_nil]
  · rw [bytesOf_append, List.append_right_eq_self] at bytes
    rw [bytesOf_eq_nil bytes, List.append_nil]

theorem not_aligned_nil : ¬Aligned id q rs [] := by
  intro aligned
  cases aligned

theorem aligned_whole (whole : read.data = bytesOf id head) :
    Aligned id q (head ++ tail) (read :: reads) ↔
      if ∃ r ∈ head, r.IsStdin then takeAll (pairsOf head) nothing = q
      else Aligned id q tail reads := by
  constructor
  · intro aligned
    generalize same : head ++ tail = rs at aligned
    cases aligned with
    | last _ _ whole' body fields =>
      obtain rfl := head_unique same (whole.symm.trans whole')
      rw [if_pos body]
      exact fields
    | next _ _ whole' early rest =>
      obtain rfl := head_unique same (whole.symm.trans whole')
      obtain rfl := List.append_cancel_left same
      rw [if_neg early]
      exact rest
  · intro either
    split at either
    case isTrue body => exact .last _ _ whole body either
    case isFalse early => exact .next _ _ whole early either

theorem part_of_record {r : Record} {part : Bytes} {head' tail' : List Record} (filled : part ≠ [])
    (short : part.length < (r.bytes id).length) (same : head ++ r :: tail = head' ++ tail') :
    bytesOf id head ++ part ≠ bytesOf id head' := by
  intro bytes
  obtain ⟨more, rfl, behind⟩ | ⟨more, rfl, -⟩ := List.append_eq_append_iff.mp same
  · rw [bytesOf_append] at bytes
    have inside := List.append_cancel_left bytes
    cases more with
    | nil => exact filled inside
    | cons r' more =>
      obtain rfl := (List.cons.inj behind).1
      rw [inside, bytesOf, List.flatMap_cons, List.length_append] at short
      omega
  · have length := congrArg List.length bytes
    have some_bytes := List.length_pos_iff.mpr filled
    rw [bytesOf_append, List.length_append, List.length_append] at length
    omega

theorem not_aligned_part {r : Record} {part : Bytes} (filled : part ≠ [])
    (short : part.length < (r.bytes id).length) (data : read.data = bytesOf id head ++ part) :
    ¬Aligned id q (head ++ r :: tail) (read :: reads) := by
  intro aligned
  generalize same : head ++ r :: tail = rs at aligned
  cases aligned with
  | last _ _ whole body fields => exact part_of_record filled short same (data.symm.trans whole)
  | next _ _ whole early rest => exact part_of_record filled short same (data.symm.trans whole)

structure Ready (id : ℕ) (c : Client) (rs : List Record) : Prop where
  isValid : c.isValid = true
  fullyParsed : c.fullyParsed = false
  expected : Expected id c.fastcgiid rs

theorem parse_ready (ready : Ready id c rs) (filled : read.data ≠ []) :
    parse c read = some ((records (read.buffer []) read.data.length).run (start c)) := by
  have more : read.data.isEmpty = false := by
    rw [List.isEmpty_eq_false_iff]
    exact filled
  refine if_neg ?_
  rw [ready.fullyParsed, ready.isValid, more]
  exact Bool.false_ne_true

theorem parse_whole (ready : Ready id c (head ++ tail)) (small : id < 65536) (filled : head ≠ [])
    (whole : read.data = bytesOf id head) : parse c read = some
      (if ∃ r ∈ head, r.Marked then .antiLoop else .parsed (applyAll id head (start c))) := by
  have some_bytes : read.data ≠ [] := fun empty => filled (bytesOf_eq_nil (whole.symm.trans empty))
  have holds := holds_read read
  rw [whole] at holds
  rw [parse_ready ready some_bytes, records_whole (s := start c)
    (expected_append.mp ready.expected).1 filled holds small]
  exact (Nat.zero_add _).trans (congrArg List.length whole).symm

theorem parse_part {r : Record} {part : Bytes} (ready : Ready id c (head ++ r :: tail))
    (small : id < 65536) (filled : part ≠ []) (front : part <+: r.bytes id)
    (short : part.length < (r.bytes id).length) (data : read.data = bytesOf id head ++ part) :
    ∃ fault, parse c read = some fault ∧ ∀ s, fault ≠ .parsed s := by
  have some_bytes : read.data ≠ [] := fun empty =>
    filled (List.append_eq_nil_iff.mp (data.symm.trans empty)).2
  have holds := holds_read read
  have expected := ready.expected
  rw [data] at holds
  rw [← List.singleton_append, ← List.append_assoc] at expected
  refine ⟨_, parse_ready ready some_bytes, fun s => ?_⟩
  apply records_cut (s := start c) (expected_append.mp expected).1 small holds filled front short
  exact (Nat.zero_add _).trans (congrArg List.length data).symm

theorem ready_next (ready : Ready id c (head ++ tail)) (early : ¬∃ r ∈ head, r.IsStdin) :
    Ready id (applyAll id head (start c)).client tail := by
  obtain ⟨before, behind⟩ := expected_append.mp ready.expected
  have applied := applyAll_applied (s := start c) before
  refine ⟨applied.isValid.trans ready.isValid, ?_, ?_⟩
  · rw [Bool.eq_false_iff]
    intro done
    rcases applied.fullyParsed.mp done with wrong | body
    · exact Bool.false_ne_true (ready.fullyParsed.symm.trans wrong)
    · exact early body
  · by_cases empty : head = []
    · subst empty
      exact behind
    · rw [if_neg empty] at behind
      rw [applied.fastcgiid.resolve_right fun none_left => empty none_left.1]
      exact behind

theorem taken_whole (ready : Ready id c (head ++ tail)) (small : id < 65536) (filled : head ≠ [])
    (clean : ∀ r ∈ head, ¬r.Marked) (whole : read.data = bytesOf id head) :
    Taken c (read :: reads) q ↔
      if ∃ r ∈ head, r.IsStdin then takeAll (pairsOf head) nothing = q
      else Taken (applyAll id head (start c)).client reads q := by
  have parsed := parse_whole ready small filled whole
  have applied := applyAll_applied (s := start c) (expected_append.mp ready.expected).1
  rw [if_neg fun ⟨r, member, mark⟩ => clean r member mark] at parsed
  by_cases body : ∃ r ∈ head, r.IsStdin
  · rw [taken_done parsed (applied.fullyParsed.mpr (.inr body)), applied.asked, if_pos body]
    rfl
  · rw [taken_waits parsed (ready_next ready body).fullyParsed, if_neg body]

theorem taken_iff (ready : Ready id c rs) (small : id < 65536) (clean : ∀ r ∈ rs, ¬r.Marked)
    (cut : (reads.map Read.data).flatten = bytesOf id rs) :
    Taken c reads q ↔ Aligned id q rs reads := by
  induction reads generalizing c rs with
  | nil =>
    refine iff_of_false (fun taken => ?_) not_aligned_nil
    have wrong : [] = [q] := taken.handed
    cases wrong
  | cons read reads ih =>
    rw [List.map_cons, List.flatten_cons] at cut
    obtain ⟨head, tail, rfl, whole, rest⟩ | ⟨head, r, tail, part, rfl, data, filled, front, short⟩ :=
      split_records cut
    · have clean_head : ∀ r ∈ head, ¬r.Marked := fun r member =>
        clean r (List.mem_append_left _ member)
      have clean_tail : ∀ r ∈ tail, ¬r.Marked := fun r member =>
        clean r (List.mem_append_right _ member)
      by_cases filled : head = []
      · -- an empty read is no read
        subst filled
        have ignored : parse c read = none := by
          refine if_pos ?_
          rw [whole]
          exact Bool.or_true _
        rw [taken_ignored ignored, aligned_whole whole, if_neg fun ⟨r, member, _⟩ => by simp at member]
        exact ih ready clean_tail rest
      · rw [taken_whole ready small filled clean_head whole, aligned_whole whole]
        by_cases body : ∃ r ∈ head, r.IsStdin
        · rw [if_pos body, if_pos body]
        · rw [if_neg body, if_neg body]
          exact ih (ready_next ready body) clean_tail rest
    · obtain ⟨fault, parsed, faulty⟩ := parse_part ready small filled front short data
      exact iff_of_false (taken_refused parsed faulty) (not_aligned_part filled short data)

/-- A record that begins the request, its parameters, and its body. -/
def IsRequest (rs : List Record) : Prop :=
  ∃ first params body, rs = first :: (params ++ body) ∧ first.part.kind = 1 ∧
    (∀ r ∈ params, r.part.kind = 4) ∧ (∀ r ∈ body, r.IsStdin) ∧ body ≠ []

theorem expected_later (later : ∀ r ∈ rs, r.part.kind ≠ 1) : Expected id (some id) rs := by
  induction rs with
  | nil => trivial
  | cons r rs ih =>
    have other := later r List.mem_cons_self
    exact ⟨(if_neg other).symm, ih fun r member => later r (List.mem_cons_of_mem _ member)⟩

theorem ready_new (request : IsRequest rs) : Ready id .new rs := by
  obtain ⟨first, params, body, rfl, begins, fourth, fifth, -⟩ := request
  refine ⟨rfl, rfl, (if_pos begins).symm, expected_later fun r member wrong => ?_⟩
  rcases List.mem_append.mp member with param | data
  · rw [fourth r param] at wrong
    cases wrong
  · have kind : r.part.kind = 5 := fifth r data
    rw [kind] at wrong
    cases wrong

theorem request_body (request : IsRequest rs) : rs ≠ [] ∧ ∃ r ∈ rs, r.IsStdin := by
  obtain ⟨first, params, body, rfl, -, -, fifth, some_body⟩ := request
  obtain ⟨r, member⟩ := List.exists_mem_of_ne_nil body some_body
  exact ⟨List.cons_ne_nil _ _, r, List.mem_cons_of_mem _ (List.mem_append_right _ member),
    fifth r member⟩

/-- A new client does with the reads what it does with the one read: it is not
disconnected by the parsing, has the same fields in the end, and goes on once. -/
structure AsOne (reads : List Read) (one : Read) : Prop where
  connected : ∀ m ∈ met .new reads, ¬Disconnects m.1 m.2
  handed : ∃ q, handed .new one = some q ∧ handedAll .new reads = [q]
  acted : actions .new reads = [(readyToRead .new one).2]

theorem asOne_iff_taken {one : Read} {s : Scan} (read : parse .new one = some (.parsed s))
    (done : s.client.fullyParsed = true) : AsOne reads one ↔ Taken .new reads (asked s) := by
  have given : handed .new one = some (asked s) := by
    rw [handed, read]
    exact if_pos done
  have led := (readyToRead_done read done).2
  constructor
  · intro same
    obtain ⟨q, one_handed, all_handed⟩ := same.handed
    obtain rfl := Option.some.inj (given.symm.trans one_handed)
    exact ⟨same.connected, all_handed, same.acted.trans (congrArg (fun x => [x]) led)⟩
  · intro taken
    exact ⟨taken.connected, ⟨_, given, taken.handed⟩,
      taken.acted.trans (congrArg (fun x => [x]) led.symm)⟩

/-- When the cuts of a request do not show. -/
theorem cuts_read_as_one_iff (stale : ℕ → Byte) (small : id < 65536) (request : IsRequest rs)
    (cut : (reads.map Read.data).flatten = bytesOf id rs) :
    AsOne reads ⟨bytesOf id rs, stale⟩ ↔ (∀ r ∈ rs, ¬r.Marked) ∧
      Aligned id (takeAll (pairsOf rs) nothing) rs reads := by
  obtain ⟨filled, body⟩ := request_body request
  have ready : Ready id .new rs := ready_new request
  rw [← List.append_nil rs] at ready
  have parsed := parse_whole ready small filled
    (show (⟨bytesOf id rs, stale⟩ : Read).data = bytesOf id rs from rfl)
  by_cases mark : ∃ r ∈ rs, r.Marked
  · rw [if_pos mark] at parsed
    refine iff_of_false (fun same => ?_) fun both => ?_
    · obtain ⟨q, one_handed, -⟩ := same.handed
      rw [handed, parsed] at one_handed
      cases one_handed
    · obtain ⟨r, member, marked⟩ := mark
      exact both.1 r member marked
  · have clean : ∀ r ∈ rs, ¬r.Marked := fun r member marked => mark ⟨r, member, marked⟩
    have applied := applyAll_applied (s := start .new) (expected_append.mp ready.expected).1
    rw [if_neg mark] at parsed
    rw [asOne_iff_taken parsed (applied.fullyParsed.mpr (.inr body)), applied.asked,
      taken_iff (ready_new request) small clean cut]
    exact (and_iff_right clean).symm

end Aligned

section Page

def pagePairs : List Pair :=
  [⟨ascii "HTTP_HOST", ascii "x", false, false⟩, ⟨ascii "REQUEST_URI", ascii "/a.com/x", false, false⟩]

theorem begin_sized : (Part.begin [0, 1, 0, 0, 0, 0, 0, 0]).content.length < 65536 := by decide

set_option maxRecDepth 4096 in
theorem pagePairs_sized : (Part.params pagePairs).content.length < 65536 := by decide

theorem params_sized : (Part.params []).content.length < 65536 := by decide

theorem stdin_sized : (Part.stdin []).content.length < 65536 := by decide

theorem unpadded : ([] : Bytes).length < 256 := by decide

def bare (part : Part) (sized : part.content.length < 65536) : Record :=
  ⟨part, [], 0, sized, unpadded⟩

def pageRequest : List Record :=
  [bare _ begin_sized, bare _ pagePairs_sized, bare _ params_sized, bare _ stdin_sized]

def pageReads (records : ℕ) : List Read :=
  [⟨bytesOf 1 (pageRequest.take records), fun _ => 0⟩,
    ⟨bytesOf 1 (pageRequest.drop records), fun _ => 0⟩]

theorem pageRequest_isRequest : IsRequest pageRequest := by
  refine ⟨bare _ begin_sized, [bare _ pagePairs_sized, bare _ params_sized], [bare _ stdin_sized],
    rfl, rfl, ?_, ?_, List.cons_ne_nil _ _⟩
  · intro r member
    rcases List.mem_cons.mp member with rfl | later
    · rfl
    · rw [List.mem_singleton.mp later]
      rfl
  · intro r member
    rw [List.mem_singleton.mp member]
    rfl

theorem pageReads_cut (records : ℕ) :
    ((pageReads records).map Read.data).flatten = bytesOf 1 pageRequest := by
  change bytesOf 1 (pageRequest.take records) ++ (bytesOf 1 (pageRequest.drop records) ++ []) = _
  rw [List.append_nil, ← bytesOf_append, List.take_append_drop]

set_option maxRecDepth 8192 in
theorem begin_is_kept : AsOne (pageReads 1) ⟨bytesOf 1 pageRequest, fun _ => 0⟩ := by
  refine (cuts_read_as_one_iff _ (by decide) pageRequest_isRequest (pageReads_cut 1)).mpr
    ⟨by decide, ?_⟩
  exact .next (pageRequest.take 1) (pageRequest.drop 1) rfl (by decide)
    (.last (pageRequest.drop 1) [] rfl (by decide) (by decide))

set_option maxRecDepth 8192 in
/-- A cut in front of the last record loses the host and the path. -/
theorem params_are_forgotten : IsRequest pageRequest ∧
    ((pageReads 3).map Read.data).flatten = bytesOf 1 pageRequest ∧
    (∀ r ∈ pageReads 3, r.data.length ≤ 4096) ∧
    (∃ q, (readyToRead .new ⟨bytesOf 1 pageRequest, fun _ => 0⟩).2 = .download q) ∧
    actions .new (pageReads 3) = [.answered badUsage] ∧
    ¬AsOne (pageReads 3) ⟨bytesOf 1 pageRequest, fun _ => 0⟩ := by
  have whole : (readyToRead .new ⟨bytesOf 1 pageRequest, fun _ => 0⟩).2 =
      .download ⟨false, ascii "a.com", ascii "/x", []⟩ := by decide
  have cut : actions .new (pageReads 3) = [.answered badUsage] := by decide
  refine ⟨pageRequest_isRequest, pageReads_cut 3, by decide, ⟨_, whole⟩, cut, fun same => ?_⟩
  have wrong := cut.symm.trans (same.acted.trans (congrArg (fun x => [x]) whole))
  cases wrong

end Page

end FastCgiCdn.RecordCuts
