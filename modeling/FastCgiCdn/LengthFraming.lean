import FastCgiCdn.FieldValues
import FastCgiCdn.ResponseReading

/-! A body with a declared length. Every read is stored whole by one call of
`write`, which then asks whether the length has been reached: a read that brings
bytes from behind the body stores them too, and a length of 0 is never asked
about when the head has been read. -/

namespace FastCgiCdn.LengthFraming

open BodyReading ChunkCuts FieldValues HeadCuts HeadReading HttpModel Numerals ResponseReading

section Pieces

variable {α : Type*}

/-- The pieces up to the one that brings the element number `n`. -/
def upTo : ℕ → List (List α) → List α
  | _, [] => []
  | n, p :: pieces => if n ≤ p.length then p else p ++ upTo (n - p.length) pieces

/-- A cut stands behind the element number `n`, or there are fewer elements. -/
def CutAt (n : ℕ) (pieces : List (List α)) : Prop :=
  pieces.flatten.length < n ∨ ∃ k, (pieces.take k).flatten.length = n

theorem cutAt_cons {n : ℕ} {p : List α} (pieces : List (List α)) (short : p.length < n) :
    CutAt n (p :: pieces) ↔ CutAt (n - p.length) pieces := by
  unfold CutAt
  rw [List.flatten_cons, List.length_append]
  constructor
  · rintro (fewer | ⟨k, here⟩)
    · left
      omega
    · right
      cases k with
      | zero =>
        rw [List.take_zero, List.flatten_nil, List.length_nil] at here
        omega
      | succ k =>
        rw [List.take_succ_cons, List.flatten_cons, List.length_append] at here
        exact ⟨k, by omega⟩
  · rintro (fewer | ⟨k, here⟩)
    · left
      omega
    · right
      refine ⟨k + 1, ?_⟩
      rw [List.take_succ_cons, List.flatten_cons, List.length_append]
      omega

/-- Nothing is taken from behind the element number `n` exactly when there is a
cut behind it. -/
theorem upTo_eq_take (pieces : List (List α)) : ∀ n, 0 < n →
    (upTo n pieces = pieces.flatten.take n ↔ CutAt n pieces) := by
  induction pieces with
  | nil =>
    intro n positive
    exact ⟨fun _ => .inl positive, fun _ => by simp [upTo]⟩
  | cons p pieces ih =>
    intro n positive
    rw [upTo, List.flatten_cons]
    by_cases full : n ≤ p.length
    · rw [if_pos full, List.take_append_of_le_length full]
      constructor
      · intro same
        have length := congrArg List.length same
        rw [List.length_take] at length
        refine .inr ⟨1, ?_⟩
        rw [List.take_succ_cons, List.take_zero, List.flatten_cons, List.length_append]
        simp only [List.flatten_nil, List.length_nil]
        omega
      · rintro (fewer | ⟨k, here⟩)
        · rw [List.flatten_cons, List.length_append] at fewer
          omega
        · cases k with
          | zero =>
            rw [List.take_zero, List.flatten_nil, List.length_nil] at here
            omega
          | succ k =>
            rw [List.take_succ_cons, List.flatten_cons, List.length_append] at here
            rw [List.take_of_length_le (by omega)]
    · rw [if_neg full, cutAt_cons pieces (by omega), ← ih (n - p.length) (by omega),
        List.take_append, List.take_of_length_le (show p.length ≤ n by omega),
        List.append_cancel_left_eq]

end Pieces

section Writes

theorem writes_edits (pieces : List Piece) : ∀ h : Http, h.endDetected = false →
    ∃ m, Edited h m ∧ (writes h pieces = m ∧ (writes h pieces).endDetected = false ∨
      writes h pieces = m.endDownload) := by
  induction pieces with
  | nil => exact fun h going => ⟨h, .refl h, .inl ⟨rfl, going⟩⟩
  | cons p pieces ih =>
    intro h going
    rw [writes_cons]
    obtain ⟨m, edited, same | ended⟩ := write_edited going p
    · have still : m.endDetected = false := by
        rw [edited]
        exact going
      obtain ⟨m', edited', rest⟩ := ih m still
      rw [same]
      exact ⟨m', edited.trans edited', rest⟩
    · have finished : m.endDownload.endDetected = true := rfl
      rw [ended, writes_ended finished]
      exact ⟨m, edited, .inr rfl⟩

theorem reaching_data (pieces : List Piece) : ∀ n : ℕ,
    ((reaching n pieces).map Piece.data).flatten = upTo n (pieces.map Piece.data) := by
  induction pieces with
  | nil => exact fun _ => rfl
  | cons p pieces ih =>
    intro n
    have size : p.size = p.data.length := rfl
    rw [reaching, List.map_cons, upTo]
    by_cases full : n ≤ p.data.length
    · rw [if_pos (by omega), if_pos full]
      simp
    · have left : (n : ℤ) - p.size = (n - p.data.length : ℕ) := by omega
      rw [if_neg (by omega), if_neg full, left, ← ih]
      rfl

theorem writes_declared (pieces : List Piece) (h : Http) (n : ℕ) (going : h.endDetected = false)
    (stored : h.tempCache.isSome) (sized : 0 ≤ h.contentsize)
    (left : h.contentsize = h.contentwritten + n) :
    (writes h pieces).tempCache.map Cache.asked =
        (h.tempCache.map Cache.asked).map (· ++ upTo n (pieces.map Piece.data)) ∧
      ((writes h pieces).endDetected = true ↔
        pieces ≠ [] ∧ n ≤ (pieces.map Piece.data).flatten.length) := by
  refine ⟨?_, (ended_sized going stored sized).trans (and_congr_right fun _ => by omega)⟩
  obtain ⟨e, -, result⟩ := writes_sized pieces h going stored sized
  have count : h.contentsize - h.contentwritten = n := by omega
  have received : ChunkDecoder.Receives h (⟨e, h.chunkLength, h.chunkHeader⟩,
      upTo n (pieces.map Piece.data)) (writes h pieces) := by
    rw [← reaching_data, ← count]
    exact ⟨_, _, rfl, result⟩
  exact received.asked

end Writes

section Deliver

variable (env : Surroundings) (fuel : ℕ)

theorem feed_writes (reads : List Read) : ∀ h : Http, Reading h →
    (feed h reads).http = writes h (reads.map piece) ∧
      ((feed h reads).unread = [] ∨ (feed h reads).http.backend = none) := by
  induction reads with
  | nil => exact fun h _ => ⟨rfl, .inl rfl⟩
  | cons r reads ih =>
    intro h reading
    rw [feed, List.map_cons, writes_cons]
    obtain ⟨m, edited, same | ended⟩ := write_edited reading.going (piece r)
    · have reading' : Reading (h.write (piece r)).1 := by
        rw [same]
        exact reading.edited edited
      rw [if_neg (by simp [reading'.going])]
      exact ih _ reading'
    · have finished : (h.write (piece r)).1.endDetected = true := by rw [ended]; rfl
      rw [if_pos finished]
      refine ⟨(writes_ended finished _).symm, .inr ?_⟩
      rw [ended]
      rfl

theorem deliver_writes (calls : List (List Read)) : ∀ (h : Http) (unread : List Read), Reading h →
    (calls = [] → unread = []) → ∃ p, deliver env fuel h unread calls = some p ∧
      p.http = writes h ((unread ++ calls.flatten).map piece) := by
  induction calls with
  | nil =>
    intro h unread _ nothing
    rw [nothing rfl]
    exact ⟨_, rfl, rfl⟩
  | cons call calls ih =>
    intro h unread reading _
    obtain ⟨wrote, left⟩ := feed_writes (unread ++ call) h reading
    have joined : writes h ((unread ++ (call :: calls).flatten).map piece) =
        writes (feed h (unread ++ call)).http (calls.flatten.map piece) := by
      rw [wrote, List.flatten_cons, ← List.append_assoc, List.map_append]
      exact List.foldl_append ..
    rw [deliver, readyToRead_feed env fuel reading, Option.bind_some, joined]
    obtain ⟨m, edited, ⟨same, -⟩ | ended⟩ :=
      writes_edits ((unread ++ call).map piece) h reading.going
    · have reading' : Reading (feed h (unread ++ call)).http := by
        rw [wrote, same]
        exact reading.edited edited
      have taken : (feed h (unread ++ call)).unread = [] :=
        left.resolve_right (Option.isSome_iff_ne_none.mp reading'.linked)
      obtain ⟨p, delivered, result⟩ := ih _ [] reading' fun _ => rfl
      rw [taken, delivered]
      exact ⟨_, rfl, result⟩
    · have gone : (feed h (unread ++ call)).http.backend = none := by
        rw [wrote, ended]
        rfl
      have finished : (feed h (unread ++ call)).http.endDetected = true := by
        rw [wrote, ended]
        rfl
      rw [deliver_disconnected env fuel calls _ _ gone, writes_ended finished]
      exact ⟨_, rfl, rfl⟩

theorem deliver_head {h : Http} {head : Head} (awaiting : Awaiting h)
    (accepted : Common.atoi16 head.code = 200) (small : head.bytes.length < 65536)
    (enough : head.bytes.length ≤ fuel) (ready : Ready env (headed env h head)) (first : Read)
    (more : List Read) (later : List (List Read)) (start : Bytes)
    (stands : first.data = head.bytes ++ start) (last : start = [] → later = [] → more = []) :
    ∃ behind p, deliver env fuel h [] ((first :: more) :: later) = some p ∧
      p.http = writes (behindHead env h head) (pieces start behind (more ++ later.flatten)) := by
  have reading : Reading (behindHead env h head) := reading_behindHead awaiting
  by_cases none_left : start = []
  · have bare := first_call_bare awaiting accepted small enough ready first more
      (by rw [stands, none_left, List.append_nil])
    obtain ⟨p, delivered, result⟩ := deliver_writes env fuel later _ more reading (last none_left)
    refine ⟨0, ⟨p.http, p.unread, p.passed⟩, ?_, ?_⟩
    · rw [deliver, List.nil_append, bare, Option.bind_some, delivered]
      rfl
    · rw [pieces, if_pos none_left, result]
  · obtain ⟨behind, call⟩ := first_call_more awaiting accepted small enough ready first more start
      stands none_left
    obtain ⟨p, delivered, result⟩ := deliver_writes env fuel
      ((⟨start, fun _ => behind⟩ :: more) :: later) _ [] reading fun _ => rfl
    refine ⟨behind, p, ?_, ?_⟩
    · rw [deliver, List.nil_append, call]
      exact delivered
    · rw [result, pieces, if_neg none_left, ← piece_first]
      rfl

end Deliver

section Negative

/-- How many bytes have been handed to the cache file. -/
def askedLength (h : Http) : ℕ := ((h.tempCache.map Cache.asked).map List.length).getD 0

theorem askedLength_store (data : Bytes) (h : Http) :
    askedLength (h.store data) ≤ askedLength h + data.length := by
  unfold askedLength Http.store
  cases h.tempCache with
  | none => exact Nat.zero_le _
  | some c => simp [Cache.asked, Cache.write]

theorem askedLength_sizeLine (p : Piece) (s : Http.Scan) :
    askedLength ((Http.sizeLine p).run s).http = askedLength s.http := by
  apply Http.sizeLine_rule p (P := fun s t => askedLength t.http = askedLength s.http)
  case outside => exact fun _ _ => rfl
  case complete =>
    intro s _ _ _
    unfold Http.readSize
    split <;> rfl
  case blank => exact fun _ _ _ _ _ later => later
  case char => exact fun _ _ _ _ later => later

theorem askedLength_keepHeader (p : Piece) (s : Http.Scan) :
    askedLength (Http.keepHeader p s).http = askedLength s.http := by
  unfold Http.keepHeader
  split
  · split <;> rfl
  · rfl

theorem askedLength_takeChunk (p : Piece) (s : Http.Scan) (inside : s.pos < p.size)
    (positive : 0 < s.http.chunkLength) : s.pos < (Http.takeChunk p s).pos ∧
      askedLength (Http.takeChunk p s).http + (p.size - (Http.takeChunk p s).pos) ≤
        askedLength s.http + (p.size - s.pos) := by
  have length (stop : ℕ) : (p.slice s.pos stop).length = min stop p.size - s.pos := by
    rw [Piece.slice, List.length_drop, List.length_take]
    rfl
  unfold Http.takeChunk
  split
  · have stored := askedLength_store (p.slice s.pos p.size) s.http
    rw [length] at stored
    refine ⟨inside, ?_⟩
    change askedLength (s.http.store (p.slice s.pos p.size)) + (p.size - p.size) ≤ _
    omega
  · rename_i fits
    have stored := askedLength_store (p.slice s.pos (s.pos + s.http.chunkLength.toNat)) s.http
    rw [length] at stored
    refine ⟨by simp only; omega, ?_⟩
    change askedLength (s.http.store (p.slice s.pos (s.pos + s.http.chunkLength.toNat))) +
      (p.size - (s.pos + s.http.chunkLength.toNat)) ≤ _
    omega

theorem askedLength_chunks (p : Piece) (s : Http.Scan) :
    askedLength ((Http.chunks p).run s) ≤ askedLength s.http + (p.size - s.pos) := by
  apply Http.chunks_rule p (P := fun s r => askedLength r ≤ askedLength s.http + (p.size - s.pos))
  case outside => exact fun _ _ => Nat.le_add_right _ _
  case last =>
    intro s inside zero
    rw [askedLength, Http.endDownload_asked, ← askedLength, askedLength_sizeLine]
    exact Nat.le_add_right _ _
  case chunk =>
    intro s r inside positive later
    exact Nat.le_trans later (askedLength_takeChunk p s inside positive).2
  case line =>
    intro s r inside nonzero later
    have moved := Http.lt_sizeLine_pos p s inside
    rw [askedLength_keepHeader, askedLength_sizeLine, Http.keepHeader_pos] at later
    omega

theorem askedLength_chunks_lt (p : Piece) (s : Http.Scan) (inside : s.pos < p.size)
    (nothing : ¬0 < s.http.chunkLength) :
    askedLength ((Http.chunks p).run s) < askedLength s.http + (p.size - s.pos) := by
  by_cases zero : ((Http.sizeLine p).run s).http.chunkLength = 0
  · have taken : (Http.chunks p).body s = .stop ((Http.sizeLine p).run s).http.endDownload := by
      rw [Http.chunks_body, Http.chunksBody, if_pos inside, if_neg nothing, if_pos zero]
    rw [(Http.chunks p).run_stop taken, askedLength, Http.endDownload_asked, ← askedLength,
      askedLength_sizeLine]
    omega
  · have taken : (Http.chunks p).body s = .again (Http.keepHeader p ((Http.sizeLine p).run s)) := by
      rw [Http.chunks_body, Http.chunksBody, if_pos inside, if_neg nothing, if_neg zero]
    have later := askedLength_chunks p (Http.keepHeader p ((Http.sizeLine p).run s))
    have moved := Http.lt_sizeLine_pos p s inside
    rw [(Http.chunks p).run_again taken]
    rw [askedLength_keepHeader, askedLength_sizeLine, Http.keepHeader_pos] at later
    omega

section Unsized

variable {h : Http} (unsized : h.contentsize < 0) (p : Piece)

include unsized

theorem write_unsized : (h.write p).1 = h ∨ (h.write p).1 = (Http.chunks p).run ⟨h, 0, 0⟩ := by
  unfold Http.write
  split
  · exact .inl rfl
  · split
    · exact .inl rfl
    · rw [if_neg (by omega)]
      split
      · exact .inr rfl
      · exact .inl rfl

theorem askedLength_write : askedLength (h.write p).1 ≤ askedLength h + p.size := by
  rcases write_unsized unsized p with same | decoded
  · rw [same]
    exact Nat.le_add_right _ _
  · rw [decoded]
    exact askedLength_chunks p ⟨h, 0, 0⟩

theorem contentsize_write : (h.write p).1.contentsize < 0 := by
  by_cases ended : h.endDetected = true
  · rwa [Http.write, if_pos ended]
  · obtain ⟨m, edited, same | finished⟩ := write_edited (by simpa using ended) p
    · rw [same, edited]
      exact unsized
    · rw [finished]
      change m.contentsize < 0
      rw [edited]
      exact unsized

end Unsized

theorem askedLength_writes (pieces : List Piece) : ∀ h : Http, h.contentsize < 0 →
    askedLength (writes h pieces) ≤ askedLength h + (pieces.map Piece.data).flatten.length := by
  induction pieces with
  | nil => exact fun h _ => Nat.le_add_right _ _
  | cons p pieces ih =>
    intro h unsized
    have first := askedLength_write unsized p
    have rest := ih _ (contentsize_write unsized p)
    have size : p.size = p.data.length := rfl
    rw [writes_cons, List.map_cons, List.flatten_cons, List.length_append]
    omega

theorem askedLength_writes_lt {h : Http} (unsized : h.contentsize < 0) (chunkLength : h.chunkLength = -1)
    {p : Piece} (nonempty : p.data ≠ []) (pieces : List Piece) :
    askedLength (writes h (p :: pieces)) <
      askedLength h + ((p :: pieces).map Piece.data).flatten.length := by
  have rest := askedLength_writes pieces _ (contentsize_write unsized p)
  have some_bytes : 0 < p.size := List.length_pos_of_ne_nil nonempty
  have size : p.size = p.data.length := rfl
  have first : askedLength (h.write p).1 < askedLength h + p.size := by
    rcases write_unsized unsized p with same | decoded
    · rw [same]
      omega
    · rw [decoded]
      exact askedLength_chunks_lt p ⟨h, 0, 0⟩ some_bytes (by rw [chunkLength]; decide)
  rw [writes_cons, List.map_cons, List.flatten_cons, List.length_append]
  omega

end Negative

/-- What a declared length of `n` asks of the object behind the head's `o`, when
so many bytes have come. -/
structure Framed (n : ℕ) (o : Http) (received : Bytes) (h : Http) : Prop where
  stored : h.tempCache.map Cache.asked = (o.tempCache.map Cache.asked).map (· ++ received.take n)
  completed : h.endDetected = true ↔ n ≤ received.length

section Framed

variable {o : Http} {n : ℕ} {ps : List Piece}

theorem framed_sized (going : o.endDetected = false) (stored : o.tempCache.isSome)
    (unwritten : o.contentwritten = 0) (sized : o.contentsize = n) (nonempty : ∀ p ∈ ps, p.data ≠ []) :
    Framed n o (ps.map Piece.data).flatten (writes o ps) ↔ 0 < n ∧ CutAt n (ps.map Piece.data) := by
  obtain ⟨asked, ended⟩ := writes_declared ps o n going stored (by omega) (by omega)
  obtain ⟨c, cache⟩ := Option.isSome_iff_exists.mp stored
  have taken : (writes o ps).tempCache.map Cache.asked =
      (o.tempCache.map Cache.asked).map (· ++ (ps.map Piece.data).flatten.take n) ↔
        upTo n (ps.map Piece.data) = (ps.map Piece.data).flatten.take n := by
    rw [asked, cache]
    simp
  constructor
  · rintro ⟨whole, completed⟩
    have same := taken.mp whole
    have positive : 0 < n := by
      by_contra none_declared
      obtain rfl : n = 0 := by omega
      cases ps with
      | nil => exact absurd rfl (ended.mp (completed.mpr (Nat.zero_le _))).1
      | cons p ps =>
        rw [List.map_cons, upTo, if_pos (Nat.zero_le _), List.take_zero] at same
        exact nonempty p (List.mem_cons_self ..) same
    exact ⟨positive, (upTo_eq_take _ n positive).mp same⟩
  · rintro ⟨positive, cut⟩
    refine ⟨taken.mpr ((upTo_eq_take _ n positive).mpr cut), ended.trans ?_⟩
    constructor
    · exact fun both => both.2
    · intro enough
      refine ⟨?_, enough⟩
      rintro rfl
      exact absurd enough (Nat.not_le.mpr positive)

theorem framed_unsized (going : o.endDetected = false) (stored : o.tempCache.isSome)
    (chunkLength : o.chunkLength = -1) (unsized : o.contentsize < 0)
    (nonempty : ∀ p ∈ ps, p.data ≠ []) (few : (ps.map Piece.data).flatten.length < n) :
    Framed n o (ps.map Piece.data).flatten (writes o ps) ↔ ps = [] := by
  obtain ⟨c, cache⟩ := Option.isSome_iff_exists.mp stored
  constructor
  · rintro ⟨whole, -⟩
    by_contra some_left
    obtain ⟨p, ps, rfl⟩ := List.exists_cons_of_ne_nil some_left
    have less := askedLength_writes_lt unsized chunkLength (nonempty p (List.mem_cons_self ..)) ps
    rw [askedLength, whole, List.take_of_length_le (Nat.le_of_lt few), askedLength, cache] at less
    simp only [Option.map_some, Option.getD_some, List.length_append] at less
    omega
  · rintro rfl
    refine ⟨?_, ?_⟩
    · rw [cache]
      simp [writes, cache]
    · simp only [writes, List.foldl_nil, going, List.map_nil, List.flatten_nil, List.length_nil] at few ⊢
      constructor
      · exact fun wrong => by cases wrong
      · intro none_declared
        omega

theorem framed_iff (going : o.endDetected = false) (stored : o.tempCache.isSome)
    (unwritten : o.contentwritten = 0) (chunkLength : o.chunkLength = -1)
    (size : o.contentsize = Common.toInt64 (Common.toUInt64 false n))
    (nonempty : ∀ p ∈ ps, p.data ≠ []) (fits : (ps.map Piece.data).flatten.length < 2 ^ 63) :
    Framed n o (ps.map Piece.data).flatten (writes o ps) ↔
      0 < n ∧ (n < 2 ^ 63 ∨ ps = []) ∧ CutAt n (ps.map Piece.data) := by
  by_cases small : n < 2 ^ 63
  · have sized : o.contentsize = n := by rw [size, (toInt64_read n n).mpr ⟨rfl, small⟩]
    rw [framed_sized going stored unwritten sized nonempty]
    simp only [small, true_or, true_and]
  · have negative : o.contentsize < 0 := by
      rw [size]
      exact toInt64_large (Nat.not_lt.mp small)
    have few : (ps.map Piece.data).flatten.length < n := by omega
    rw [framed_unsized going stored chunkLength negative nonempty few]
    simp only [small, false_or]
    exact ⟨fun empty => ⟨by omega, empty, .inl few⟩, fun both => both.2.1⟩

end Framed

/-- A response with a declared length, delivered in any calls: the object is
framed as its head declares exactly when the length is positive (and fits) and
no read brings bytes from both sides of the end of the body. -/
theorem length_framing_iff (env : Surroundings) (fuel : ℕ) (h : Http) (unanswered : Unanswered h)
    (linked : h.backend.isSome) (head : SpacedHead) (f : Spaced)
    (announced : head.field? lengthName = some f) (blank : f.before ≠ [])
    (small : head.parsed.bytes.length < 65536) (enough : head.parsed.bytes.length ≤ fuel)
    (ready : Ready env (headed env h head.parsed)) (first : Read) (more : List Read)
    (later : List (List Read)) (start : Bytes) (stands : first.data = head.parsed.bytes ++ start)
    (last : start = [] → later = [] → more = [])
    (nonempty : ∀ r ∈ more ++ later.flatten, r.data ≠ [])
    (fits : (start ++ (more ++ later.flatten).flatMap Read.data).length < 2 ^ 63) :
    ∃ p, deliver env fuel h [] ((first :: more) :: later) = some p ∧
      (p.http.endDetected = true →
        ∃ m, Edited (behindHead env h head.parsed) m ∧ p.http = m.endDownload) ∧
      (Framed (numeral 10 f.value) (behindHead env h head.parsed)
          (start ++ (more ++ later.flatten).flatMap Read.data) p.http ↔
        0 < numeral 10 f.value ∧
        (numeral 10 f.value < 2 ^ 63 ∨ start ++ (more ++ later.flatten).flatMap Read.data = []) ∧
        CutAt (numeral 10 f.value) (bodyCuts start ((more ++ later.flatten).map Read.data))) := by
  have awaiting := unanswered.awaiting linked
  obtain ⟨behind, p, delivered, result⟩ := deliver_head env fuel awaiting rfl small enough ready
    first more later start stands last
  have reading : Reading (behindHead env h head.parsed) := reading_behindHead awaiting
  have flatten := pieces_flatten start behind (more ++ later.flatten)
  have frame := behindHead_frame env h head.parsed
  have filled : ∀ p ∈ pieces start behind (more ++ later.flatten), p.data ≠ [] :=
    pieces_filled nonempty
  have legal := head.sized f (List.mem_of_find?_eq_some announced)
    (List.find?_some (p := (Spaced.isNamed · lengthName)) announced)
  have size : (behindHead env h head.parsed).contentsize =
      Common.toInt64 (Common.toUInt64 false (numeral 10 f.value)) := by
    change (headed env h head.parsed).contentsize = _
    rw [headed_size, announced, Option.map_some, Option.getD_some,
      f.size_of_blank env legal.2 legal.1 blank]
  have framed := framed_iff reading.going rfl (by rw [frame]; exact unanswered.unwritten)
    (by rw [frame]; exact unanswered.chunkLength) size filled (by rw [flatten]; exact fits)
  refine ⟨p, delivered, ?_, ?_⟩
  · intro ended
    rw [result] at ended ⊢
    obtain ⟨m, edited, ⟨-, still⟩ | finished⟩ := writes_edits
      (pieces start behind (more ++ later.flatten)) _ reading.going
    · rw [still] at ended
      cases ended
    · exact ⟨m, edited, finished⟩
  · rw [flatten, pieces_eq_nil nonempty, pieces_data] at framed
    rw [result]
    exact framed

theorem requested_unanswered : Unanswered requested := ⟨rfl, rfl, rfl, rfl, rfl, rfl, rfl, rfl⟩

set_option maxRecDepth 2048 in
def noBytes : SpacedHead :=
  lengthHead [32] (ascii "0") one_blank (by decide) (by decide)

set_option maxRecDepth 2048 in
def fifteenField : Spaced := usual.fields.head (by decide)

set_option maxRecDepth 2048 in
theorem fifteen_bytes_are_framed : ∃ p,
    deliver roomy 100 requested [] [[received (usual.parsed.bytes ++ ascii "hello")],
      [received (ascii "0123456789")]] = some p ∧
    (p.http.endDetected = true →
      ∃ m, Edited (behindHead roomy requested usual.parsed) m ∧ p.http = m.endDownload) ∧
    (Framed (numeral 10 fifteenField.value) (behindHead roomy requested usual.parsed)
        (ascii "hello" ++ [received (ascii "0123456789")].flatMap Read.data) p.http ↔
      0 < numeral 10 fifteenField.value ∧
      (numeral 10 fifteenField.value < 2 ^ 63 ∨
        ascii "hello" ++ [received (ascii "0123456789")].flatMap Read.data = []) ∧
      CutAt (numeral 10 fifteenField.value)
        (bodyCuts (ascii "hello") ([received (ascii "0123456789")].map Read.data))) :=
  length_framing_iff roomy 100 requested requested_unanswered rfl usual fifteenField rfl (by decide)
    (by decide) (by decide) ⟨rfl, rfl, rfl, by decide⟩ (received _) []
    [[received (ascii "0123456789")]] (ascii "hello") rfl (by decide) (by decide) (by decide)

set_option maxRecDepth 2048 in
/-- A body of no bytes is not complete at the end of its head, and of a body of
15 bytes the ones behind it are stored. -/
theorem empty_body_does_not_complete :
    (∃ p, deliver roomy 100 requested [] [[received noBytes.parsed.bytes]] = some p ∧
      ¬Framed 0 (behindHead roomy requested noBytes.parsed) [] p.http) ∧
    ∃ p, deliver roomy 100 requested []
        [[received (usual.parsed.bytes ++ ascii "hello0123456789surplus")]] = some p ∧
      ¬Framed 15 (behindHead roomy requested usual.parsed) (ascii "hello0123456789surplus")
        p.http := by
  constructor
  · have open_end : (deliver roomy 100 requested [] [[received noBytes.parsed.bytes]]).map
        (fun p => p.http.endDetected) = some false := by
      decide
    obtain ⟨p, delivered, still⟩ := Option.map_eq_some_iff.mp open_end
    refine ⟨p, delivered, fun framed => ?_⟩
    rw [framed.completed.mpr (Nat.zero_le _)] at still
    cases still
  · have whole : (deliver roomy 100 requested []
        [[received (usual.parsed.bytes ++ ascii "hello0123456789surplus")]]).map
        (fun p => (p.http.tempCache.map Cache.asked).map List.length) =
          some (((behindHead roomy requested usual.parsed).tempCache.map Cache.asked).map
            fun asked => asked.length + 22) := by
      decide
    obtain ⟨p, delivered, stored⟩ := Option.map_eq_some_iff.mp whole
    refine ⟨p, delivered, fun framed => ?_⟩
    rw [framed.stored] at stored
    revert stored
    decide

end FastCgiCdn.LengthFraming
