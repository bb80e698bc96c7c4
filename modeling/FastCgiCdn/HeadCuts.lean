import FastCgiCdn.BodyReading

/-! Cutting a response into reads and calls of `readyToRead`: what is left of
the independence of cuts when the first read brings the whole head, and what a
cut inside the status line does. -/

namespace FastCgiCdn.HeadCuts

open ChunkFraming HttpModel ChunkDecoder ChunkCuts HeadReading BodyReading MeasuredLoop HeldValues

/-- One call of `readyToRead` after another. What a call leaves unread is there
for the next one. -/
def deliver (env : Surroundings) (fuel : ℕ) : Http → List Read → List (List Read) →
    Option Http.Progress
  | h, unread, [] => some ⟨h, unread, []⟩
  | h, unread, call :: calls =>
    (h.readyToRead env fuel (unread ++ call)).bind fun p =>
    (deliver env fuel p.http p.unread calls).map fun q => { q with passed := p.passed ++ q.passed }

/-- The same head taken over, and the same bytes handed to `write`. -/
def SameResponse (p q : Http.Progress) : Prop :=
  p.http.http_code = q.http.http_code ∧ p.http.contentsize = q.http.contentsize ∧
    p.http.contenttype = q.http.contenttype ∧ p.http.etagBackend = q.http.etagBackend ∧
    p.passed = q.passed

structure Awaiting (h : Http) : Prop where
  linked : h.backend.isSome
  going : h.endDetected = false
  unread : h.http_code = 0
  fresh : h.parsing = .none
  nothing : h.headerBuff = []
  unwritten : h.contentwritten = 0
  chunkLength : h.chunkLength = -1
  chunkHeader : h.chunkHeader = []

/-- No call of `write` but the last one ends the download. -/
def Unended : Http → List Piece → Prop
  | _, [] => True
  | _, [_] => True
  | h, p :: q :: pieces => (h.write p).1.endDetected = false ∧ Unended (h.write p).1 (q :: pieces)

/-- Every piece of the body but the last leaves it incomplete by its framing,
and a chunked body is cut where it may be cut. -/
def Unfinished (contentsize : ℤ) (pieces : List Bytes) : Prop :=
  if 0 ≤ contentsize then pieces.length ≤ 1 ∨ (pieces.dropLast.flatten.length : ℤ) < contentsize
  else (Phase.line 0 []).cleanCuts grammar pieces ∧
    (pieces.length ≤ 1 ∨ (Phase.line 0 []).after grammar pieces.dropLast.flatten ≠ .done)

section Unended

theorem feed_unended (reads : List Read) : ∀ h : Http, Reading h → Unended h (reads.map piece) →
    feed h reads = ⟨writes h (reads.map piece), [], reads.flatMap Read.data⟩ := by
  induction reads with
  | nil => exact fun _ _ _ => rfl
  | cons r reads ih =>
    intro h reading unended
    cases reads with
    | nil =>
      rw [feed]
      split <;> simp [feed, writes]
    | cons r' reads =>
      obtain ⟨still, rest⟩ := unended
      rw [feed, if_neg (by simp [still]), ih _ (reading.edited (write_going reading.going still)) rest]
      rfl

theorem unended_tail {h : Http} {p : Piece} {pieces : List Piece}
    (unended : Unended h (p :: pieces)) : Unended (h.write p).1 pieces := by
  cases pieces with
  | nil => trivial
  | cons q pieces => exact unended.2

theorem unended_sized (pieces : List Piece) : ∀ h : Http, h.endDetected = false →
    h.tempCache.isSome → 0 ≤ h.contentsize →
    (pieces.length ≤ 1 ∨
      h.contentwritten + ((pieces.map Piece.data).dropLast.flatten.length : ℤ) < h.contentsize) →
    Unended h pieces := by
  induction pieces with
  | nil => exact fun _ _ _ _ _ => trivial
  | cons p pieces ih =>
    intro h going stored sized short
    cases pieces with
    | nil => trivial
    | cons q pieces =>
      have room : h.contentwritten + (p.size : ℤ) +
          (((q :: pieces).map Piece.data).dropLast.flatten.length : ℤ) < h.contentsize := by
        rcases short with alone | short
        · simp at alone
        · simpa [Piece.size, Int.add_assoc] using short
      have next : (h.write p).1 = h.count p := by
        rw [write_eq_writeSized going stored sized p, Http.writeSized, if_neg (by omega)]
      have rest := ih (h.count p) going (count_stored stored p) sized (.inr room)
      exact ⟨by rw [next]; exact going, next ▸ rest⟩

theorem unended_chunked (pieces : List Piece) : ∀ (h : Http) (φ : Phase Byte), Live h →
    Resting φ → view h = image φ → (∀ p ∈ pieces, p.data ≠ []) →
    φ.cleanCuts grammar (pieces.map Piece.data) →
    (pieces.length ≤ 1 ∨
      φ.after grammar (pieces.map Piece.data).dropLast.flatten ≠ .done) → Unended h pieces := by
  induction pieces with
  | nil => exact fun _ _ _ _ _ _ _ _ => trivial
  | cons p pieces ih =>
    intro h φ live rests same nonempty clean short
    cases pieces with
    | nil => trivial
    | cons q pieces =>
      obtain ⟨b, bs, whole⟩ := List.exists_cons_of_ne_nil (nonempty q (by simp))
      have open_end : φ.after grammar (p.data ++ ((q :: pieces).map Piece.data).dropLast.flatten) ≠
          .done := by
        rcases short with alone | short
        · simp at alone
        · simpa using short
      rw [Phase.after_append] at open_end
      have going : φ.after grammar p.data ≠ .done := by
        intro ended
        rw [ended] at open_end
        exact open_end (Phase.after_done _ _)
      obtain ⟨ψ, rests', live', same', clean', agree⟩ :=
        write_rests live rests same whole clean going
      refine ⟨live'.going, ih _ ψ live' rests' same'
        (fun q member => nonempty q (List.mem_cons_of_mem _ member)) clean' ?_⟩
      cases pieces with
      | nil => exact .inl le_rfl
      | cons r pieces =>
        right
        have split : ((q :: r :: pieces).map Piece.data).dropLast.flatten =
            b :: (bs ++ ((r :: pieces).map Piece.data).dropLast.flatten) := by
          simp [whole]
        rw [split] at open_end ⊢
        rwa [← (agree _).1]

theorem unended_append (ps : List Piece) : ∀ (h : Http) (qs : List Piece), h.endDetected = false →
    Unended h (ps ++ qs) → Unended h ps ∧ Unended (writes h ps) qs ∧
      (qs ≠ [] → (writes h ps).endDetected = false) := by
  induction ps with
  | nil => exact fun h qs going unended => ⟨trivial, unended, fun _ => going⟩
  | cons p ps ih =>
    intro h qs going unended
    have rest : Unended (h.write p).1 (ps ++ qs) := unended_tail unended
    cases ps with
    | nil =>
      refine ⟨trivial, rest, fun some_left => ?_⟩
      obtain ⟨q, qs, rfl⟩ := List.exists_cons_of_ne_nil some_left
      exact unended.1
    | cons p' ps =>
      obtain ⟨left, right, still⟩ := ih (h.write p).1 qs unended.1 rest
      exact ⟨⟨unended.1, left⟩, right, still⟩

theorem writes_edited (pieces : List Piece) : ∀ h : Http, h.endDetected = false →
    Unended h pieces → ∃ m, Edited h m ∧ (writes h pieces = m ∨ writes h pieces = m.endDownload) := by
  induction pieces with
  | nil => exact fun h _ _ => ⟨h, .refl h, .inl rfl⟩
  | cons p pieces ih =>
    intro h going unended
    cases pieces with
    | nil => exact write_edited going p
    | cons q pieces =>
      obtain ⟨m, edited, ended⟩ := ih (h.write p).1 unended.1 unended.2
      exact ⟨m, (write_going going unended.1).trans edited, ended⟩

theorem reading_of_writes {h : Http} (reading : Reading h) {pieces : List Piece}
    (unended : Unended h pieces) (still : (writes h pieces).endDetected = false) :
    Reading (writes h pieces) := by
  obtain ⟨m, edited, same | ended⟩ := writes_edited pieces h reading.going unended
  · rw [same]
    exact reading.edited edited
  · rw [ended] at still
    cases still

end Unended

section Deliver

variable (env : Surroundings) (fuel : ℕ)

theorem readyToRead_nothing (h : Http) : h.readyToRead env fuel [] = some ⟨h, [], []⟩ := by
  unfold Http.readyToRead Http.drain
  split
  · split <;> rfl
  · rfl

theorem deliver_nothing (h : Http) (calls : List (List Read)) (empty : calls.flatten = []) :
    deliver env fuel h [] calls = some ⟨h, [], []⟩ := by
  induction calls with
  | nil => rfl
  | cons call calls ih =>
    obtain ⟨rfl, rest⟩ := List.append_eq_nil_iff.mp empty
    rw [deliver, List.append_nil, readyToRead_nothing, Option.bind_some, ih rest]
    rfl

theorem deliver_feed (calls : List (List Read)) : ∀ h : Http, Reading h →
    Unended h (calls.flatten.map piece) → deliver env fuel h [] calls =
      some ⟨writes h (calls.flatten.map piece), [], calls.flatten.flatMap Read.data⟩ := by
  induction calls with
  | nil => exact fun _ _ _ => rfl
  | cons call calls ih =>
    intro h reading unended
    rw [List.flatten_cons, List.map_append] at unended
    obtain ⟨first, rest, still⟩ := unended_append _ h _ reading.going unended
    rw [deliver, List.nil_append, readyToRead_feed env fuel reading,
      feed_unended call h reading first, Option.bind_some]
    by_cases empty : calls.flatten = []
    · rw [deliver_nothing env fuel _ calls empty]
      simp [empty]
    · have reading' := reading_of_writes reading first (still (by simpa using empty))
      rw [ih _ reading' rest]
      simp [writes]

end Deliver

def behindHead (env : Surroundings) (h : Http) (head : Head) : Http := opened env (headed env h head)

theorem behindHead_frame (env : Surroundings) (h : Http) (head : Head) :
    behindHead env h head = { answered h head.code with
      parsing := .content
      contentsize := (behindHead env h head).contentsize
      contenttype := (behindHead env h head).contenttype
      etagBackend := (behindHead env h head).etagBackend
      headerWriten := true
      tempCache := (behindHead env h head).tempCache } := by
  unfold behindHead opened
  rw [headed_frame env h head]

section First

variable {env : Surroundings} {fuel : ℕ} {h : Http} {head : Head}

theorem reading_behindHead (awaiting : Awaiting h) : Reading (behindHead env h head) := by
  rw [behindHead_frame]
  exact ⟨awaiting.going, by simpa [answered] using awaiting.linked, rfl, awaiting.nothing⟩

/-- The pieces of the body that the first read and the later ones hold. -/
def pieces (start : Bytes) (behind : Byte) (reads : List Read) : List Piece :=
  if start = [] then reads.map piece else ⟨start, behind⟩ :: reads.map piece

theorem first_call_bare (awaiting : Awaiting h) (accepted : Common.atoi16 head.code = 200)
    (small : head.bytes.length < 65536) (enough : head.bytes.length ≤ fuel)
    (ready : Ready env (headed env h head)) (first : Read) (more : List Read)
    (stands : first.data = head.bytes) :
    h.readyToRead env fuel (first :: more) = some ⟨behindHead env h head, more, []⟩ := by
  obtain ⟨behind, round⟩ := readOne_accepted env h awaiting.unread (by simp [awaiting.fresh]) head
    accepted ready awaiting.going first [] (by rw [stands, List.append_nil]) small enough
  have linked := Option.isSome_iff_ne_none.mp awaiting.linked
  rw [Http.readyToRead, if_neg (by simp [awaiting.going]), awaiting.nothing, Http.readLoop,
    if_neg (by simpa using linked), round]
  rfl

theorem piece_first (start : Bytes) (behind : Byte) :
    piece ⟨start, fun _ => behind⟩ = ⟨start, behind⟩ := by
  simp [piece, Read.buffer]

theorem first_call_more (awaiting : Awaiting h) (accepted : Common.atoi16 head.code = 200)
    (small : head.bytes.length < 65536) (enough : head.bytes.length ≤ fuel)
    (ready : Ready env (headed env h head)) (first : Read) (more : List Read) (start : Bytes)
    (stands : first.data = head.bytes ++ start) (some_left : start ≠ []) :
    ∃ behind, h.readyToRead env fuel (first :: more) =
      (behindHead env h head).readyToRead env fuel (⟨start, fun _ => behind⟩ :: more) := by
  obtain ⟨behind, round⟩ := readOne_accepted env h awaiting.unread (by simp [awaiting.fresh]) head
    accepted ready awaiting.going first start stands small enough
  have reading : Reading (behindHead env h head) := reading_behindHead awaiting
  have linked := Option.isSome_iff_ne_none.mp awaiting.linked
  refine ⟨behind, ?_⟩
  rw [readyToRead_feed env fuel reading, feed, piece_first, Http.readyToRead,
    if_neg (by simp [awaiting.going]), awaiting.nothing, Http.readLoop, if_neg (by simpa using linked),
    round, Option.bind_some, firstRound, if_neg some_left]
  change Reading (opened env (headed env h head)) at reading
  rw [behindHead]
  generalize opened env (headed env h head) = o at reading
  by_cases ended : (o.write ⟨start, behind⟩).1.endDetected = true
  · rw [if_pos ended, if_pos ended]
  · rw [if_neg ended, if_neg ended]
    have going : (o.write ⟨start, behind⟩).1.endDetected = false := by simpa using ended
    have reading' := reading.edited (write_going reading.going going)
    have rest := readLoop_feed env fuel more (more.length + 1) _ (Nat.lt_succ_self _) reading'
    change Option.map _ (Http.readLoop env fuel (more.length + 1) [] _ more) = _
    rw [rest]
    rfl

theorem first_call (awaiting : Awaiting h) (accepted : Common.atoi16 head.code = 200)
    (small : head.bytes.length < 65536) (enough : head.bytes.length ≤ fuel)
    (ready : Ready env (headed env h head)) (first : Read) (more : List Read) (start : Bytes)
    (stands : first.data = head.bytes ++ start) (last : start = [] → more = []) :
    ∃ behind, Unended (behindHead env h head) (pieces start behind more) →
      h.readyToRead env fuel (first :: more) =
        some ⟨writes (behindHead env h head) (pieces start behind more), [],
          start ++ more.flatMap Read.data⟩ := by
  by_cases none_left : start = []
  · refine ⟨0, fun _ => ?_⟩
    rw [pieces, if_pos none_left, last none_left, none_left]
    exact first_call_bare awaiting accepted small enough ready first [] (by
      rw [stands, none_left, List.append_nil])
  · obtain ⟨behind, call⟩ := first_call_more awaiting accepted small enough ready first more start
      stands none_left
    have reading : Reading (behindHead env h head) := reading_behindHead awaiting
    refine ⟨behind, fun unended => ?_⟩
    rw [pieces, if_neg none_left, ← piece_first, ← List.map_cons] at unended ⊢
    rw [call, readyToRead_feed env fuel reading, feed_unended _ _ reading unended]
    rfl

end First

theorem unended_of_unfinished {o : Http} (live : o.tempCache.isSome) (reading : Reading o)
    (answered : o.http_code ≠ 0) (unwritten : o.contentwritten = 0) (chunkLength : o.chunkLength = -1)
    (chunkHeader : o.chunkHeader = []) (ps : List Piece) (nonempty : ∀ p ∈ ps, p.data ≠ [])
    (unfinished : Unfinished o.contentsize (ps.map Piece.data)) :
    Unended o ps ∧ (ps ≠ [] → ((writes o ps).endDetected = true ↔
      if 0 ≤ o.contentsize then o.contentsize ≤ ((ps.map Piece.data).flatten.length : ℤ)
      else (Phase.line 0 []).after grammar (ps.map Piece.data).flatten = .done)) := by
  unfold Unfinished at unfinished
  split at unfinished
  · rename_i sized
    refine ⟨unended_sized ps o reading.going live sized (by simpa [unwritten] using unfinished),
      fun some_piece => ?_⟩
    rw [ended_sized reading.going live sized, unwritten]
    simp [some_piece, sized]
  · rename_i chunked
    have decoding : Live o := ⟨reading.going, live, answered, by omega⟩
    have same : view o = image (.line 0 []) := by
      rw [view, reading.going, chunkLength, chunkHeader]
      rfl
    have unended := unended_chunked ps o _ decoding (.line 0) same nonempty unfinished.1
      (by simpa using unfinished.2)
    refine ⟨unended, fun _ => ?_⟩
    have whole := (writes_receive ps o _ decoding (.line 0) same nonempty unfinished.1).view_eq decoding
    rw [if_neg chunked, show (writes o ps).endDetected = _ from congrArg View.endDetected whole]
    exact image_ended _

theorem same_ending {o : Http} (going : o.endDetected = false) {ps qs : List Piece}
    (unended : Unended o ps) (unended' : Unended o qs)
    (together : (writes o ps).endDetected = (writes o qs).endDetected) :
    (writes o ps).http_code = (writes o qs).http_code ∧
      (writes o ps).contentsize = (writes o qs).contentsize ∧
      (writes o ps).contenttype = (writes o qs).contenttype ∧
      (writes o ps).etagBackend = (writes o qs).etagBackend := by
  obtain ⟨m, edited, done⟩ := writes_edited ps o going unended
  obtain ⟨m', edited', done'⟩ := writes_edited qs o going unended'
  have open_end : m.endDetected = false := by rw [edited]; exact going
  have open_end' : m'.endDetected = false := by rw [edited']; exact going
  rcases done with done | done <;> rcases done' with done' | done'
  · rw [done, done', edited, edited']
    exact ⟨rfl, rfl, rfl, rfl⟩
  · rw [done, done', open_end] at together
    cases together
  · rw [done, done', open_end'] at together
    cases together
  · rw [done, done', edited, edited']
    exact ⟨rfl, rfl, rfl, rfl⟩

theorem pieces_data (start : Bytes) (behind : Byte) (reads : List Read) :
    (pieces start behind reads).map Piece.data =
      (if start = [] then [] else [start]) ++ reads.map Read.data := by
  have same : Piece.data ∘ piece = Read.data := rfl
  unfold pieces
  split <;> simp [same]

theorem pieces_filled {start : Bytes} {behind : Byte} {reads : List Read}
    (nonempty : ∀ r ∈ reads, r.data ≠ []) : ∀ p ∈ pieces start behind reads, p.data ≠ [] := by
  intro p member
  have inside := List.mem_map_of_mem (f := Piece.data) member
  rw [pieces_data] at inside
  rcases List.mem_append.mp inside with here | there
  · split at here
    · cases here
    · rename_i some_start
      rwa [List.mem_singleton.mp here]
  · obtain ⟨r, found, same⟩ := List.mem_map.mp there
    rw [← same]
    exact nonempty r found

theorem pieces_append (start : Bytes) (behind : Byte) (reads reads' : List Read) :
    pieces start behind (reads ++ reads') = pieces start behind reads ++ reads'.map piece := by
  unfold pieces
  split <;> simp

theorem pieces_flatten (start : Bytes) (behind : Byte) (reads : List Read) :
    ((pieces start behind reads).map Piece.data).flatten = start ++ reads.flatMap Read.data := by
  rw [pieces_data, List.flatten_append, List.flatMap_def]
  congr 1
  split
  · rename_i empty
    rw [empty]
    rfl
  · simp

theorem pieces_eq_nil {start : Bytes} {behind : Byte} {reads : List Read}
    (nonempty : ∀ r ∈ reads, r.data ≠ []) :
    pieces start behind reads = [] ↔ start ++ reads.flatMap Read.data = [] := by
  rw [← pieces_flatten start behind reads]
  constructor
  · intro none_left
    rw [none_left]
    rfl
  · intro nothing
    by_contra some_left
    obtain ⟨p, ps, split⟩ := List.exists_cons_of_ne_nil some_left
    have filled := pieces_filled nonempty p (by rw [split]; exact List.mem_cons_self ..)
    rw [split, List.map_cons, List.flatten_cons] at nothing
    exact filled (List.append_eq_nil_iff.mp nothing).1

section Whole

variable {env : Surroundings} {fuel : ℕ} {h : Http} {head : Head}

/-- A response delivered in any calls, its head whole in the first read. -/
theorem deliver_response (awaiting : Awaiting h) (accepted : Common.atoi16 head.code = 200)
    (small : head.bytes.length < 65536) (enough : head.bytes.length ≤ fuel)
    (ready : Ready env (headed env h head)) (first : Read) (more : List Read)
    (later : List (List Read)) (start : Bytes) (stands : first.data = head.bytes ++ start)
    (last : start = [] → more = []) (nonempty : ∀ r ∈ more ++ later.flatten, r.data ≠ [])
    (unfinished : Unfinished (headed env h head).contentsize
      ((if start = [] then [] else [start]) ++ (more ++ later.flatten).map Read.data)) :
    ∃ ps, (ps.map Piece.data).flatten = start ++ (more ++ later.flatten).flatMap Read.data ∧
      Unended (behindHead env h head) ps ∧
      deliver env fuel h [] ((first :: more) :: later) =
        some ⟨writes (behindHead env h head) ps, [],
          start ++ (more ++ later.flatten).flatMap Read.data⟩ ∧
      ((writes (behindHead env h head) ps).endDetected = true ↔
        start ++ (more ++ later.flatten).flatMap Read.data ≠ [] ∧
        if 0 ≤ (headed env h head).contentsize then (headed env h head).contentsize ≤
          ((start ++ (more ++ later.flatten).flatMap Read.data).length : ℤ)
        else (Phase.line 0 []).after grammar
          (start ++ (more ++ later.flatten).flatMap Read.data) = .done) := by
  obtain ⟨behind, firstCall⟩ := first_call awaiting accepted small enough ready first more start
    stands last
  have reading : Reading (behindHead env h head) := reading_behindHead awaiting
  have flatten := pieces_flatten start behind (more ++ later.flatten)
  have filled : ∀ p ∈ pieces start behind (more ++ later.flatten), p.data ≠ [] :=
    pieces_filled nonempty
  have frame := behindHead_frame env h head
  obtain ⟨unended, ended⟩ := unended_of_unfinished (o := behindHead env h head) rfl reading
    (by rw [frame]; simp [answered, accepted]) (by rw [frame]; exact awaiting.unwritten)
    (by rw [frame]; exact awaiting.chunkLength) (by rw [frame]; exact awaiting.chunkHeader)
    (pieces start behind (more ++ later.flatten)) filled (by rw [pieces_data]; exact unfinished)
  refine ⟨_, flatten, unended, ?_, ?_⟩
  · rw [pieces_append] at unended ⊢
    obtain ⟨left, right, still⟩ := unended_append _ _ _ reading.going unended
    rw [deliver, List.nil_append, firstCall left, Option.bind_some]
    by_cases empty : later.flatten = []
    · rw [deliver_nothing env fuel _ later empty]
      simp [empty]
    · have reading' := reading_of_writes reading left (still (by simpa using empty))
      rw [deliver_feed env fuel later _ reading' right]
      simp [writes]
  · by_cases empty : pieces start behind (more ++ later.flatten) = []
    · rw [empty, (pieces_eq_nil nonempty).mp empty]
      simp [writes, reading.going]
    · have some_left := mt (pieces_eq_nil nonempty).mpr empty
      rw [ended empty, flatten]
      simp only [some_left, ne_eq, not_false_eq_true, true_and]
      rfl

theorem unfinished_single (contentsize : ℤ) (body : Bytes) :
    Unfinished contentsize ((if body = [] then [] else [body]) ++ ([] : List Read).map Read.data) := by
  unfold Unfinished
  split <;> split <;> simp [Phase.cleanCuts]

end Whole

/-- A response whose head comes whole with the first read leaves the same object
and the same bytes for `write` however the rest is cut, as long as no read but
the last completes the body. -/
theorem response_survives_cuts (env : Surroundings) (fuel : ℕ) (h : Http) (awaiting : Awaiting h)
    (head : Head) (accepted : Common.atoi16 head.code = 200)
    (small : head.bytes.length < 65536) (enough : head.bytes.length ≤ fuel)
    (ready : Ready env (headed env h head)) (first : Read) (more : List Read)
    (later : List (List Read)) (start : Bytes) (stands : first.data = head.bytes ++ start)
    (last : start = [] → more = []) (nonempty : ∀ r ∈ more ++ later.flatten, r.data ≠ [])
    (unfinished : Unfinished (headed env h head).contentsize
      ((if start = [] then [] else [start]) ++ (more ++ later.flatten).map Read.data))
    (whole : Read)
    (joined : whole.data = head.bytes ++ (start ++ (more ++ later.flatten).flatMap Read.data)) :
    ∃ cut one, deliver env fuel h [] ((first :: more) :: later) = some cut ∧
      deliver env fuel h [] [[whole]] = some one ∧ SameResponse cut one := by
  obtain ⟨ps, bytes, unended, cut, ended⟩ := deliver_response awaiting accepted small enough ready
    first more later start stands last nonempty unfinished
  obtain ⟨qs, bytes', unended', one, ended'⟩ := deliver_response awaiting accepted small enough ready
    whole [] [] _ joined (fun _ => rfl) (by simp) (unfinished_single _ _)
  have reading : Reading (behindHead env h head) := reading_behindHead awaiting
  refine ⟨_, _, cut, one, ?_⟩
  simp only [List.flatten_nil, List.append_nil, List.flatMap_nil] at ended' ⊢
  have together := Bool.eq_iff_iff.mpr (ended.trans ended'.symm)
  obtain ⟨code, size, type, etag⟩ := same_ending reading.going unended unended' together
  exact ⟨code, size, type, etag, rfl⟩

section Refused

variable (env : Surroundings) (fuel : ℕ)

theorem deliver_disconnected (calls : List (List Read)) : ∀ (h : Http) (unread : List Read),
    h.backend = none → deliver env fuel h unread calls = some ⟨h, unread ++ calls.flatten, []⟩ := by
  induction calls with
  | nil =>
    intro h unread _
    rw [deliver, List.flatten_nil, List.append_nil]
  | cons call calls ih =>
    intro h unread gone
    have alone : h.readyToRead env fuel (unread ++ call) = some ⟨h, unread ++ call, []⟩ := by
      rw [Http.readyToRead, if_neg (by simp [gone])]
      cases unread ++ call with
      | nil => rfl
      | cons r reads => rw [Http.readLoop, if_pos (by rw [gone]; rfl)]
    rw [deliver, alone, Option.bind_some, ih h _ gone, List.flatten_cons, List.append_assoc]
    rfl

/-- The start of a status line up to its second blank, as it can be cut. -/
inductive CutStatus (head : Head) : Bytes → Prop
  | version {seen : Bytes} (cut : seen <+: head.version) : CutStatus head seen
  | code {seen : Bytes} (cut : seen <+: head.code) : CutStatus head (head.version ++ 32 :: seen)

theorem cutStatus_read (h : Http) (unread : h.http_code = 0) {head : Head} {seen : Bytes}
    (cut : CutStatus head seen) {buffer : Buffer} (holds : Holds buffer 0 seen)
    (small : seen.length < 65536) (enough : seen.length < fuel) : ∃ fh,
    rounds (Http.statusBody env seen.length) fuel ⟨h, buffer, 0, none⟩ =
      some (.line ⟨h, buffer, seen.length, fh⟩) := by
  have stopped (fh : Option ℕ) : Http.statusBody env seen.length ⟨h, buffer, seen.length, fh⟩ =
      .stop (.line ⟨h, buffer, seen.length, fh⟩) := by
    rw [Http.statusBody, if_neg (fun both => absurd both.1 (lt_irrefl _))]
  cases cut with
  | version cut =>
    have skipped := status_skip env seen.length h none 0 seen holds (by omega) (by omega)
      (fun c member =>
        have clean := head.version_clean c (cut.subset member)
        ⟨clean.2, fun blank => absurd blank clean.1⟩)
    rw [Nat.zero_add] at skipped
    exact ⟨none, rounds_mono (by omega) (skipped.stop (stopped none))⟩
  | @code digits cut =>
    rw [holds_append, Nat.zero_add] at holds
    obtain ⟨version, blank, code⟩ := holds
    have length : (head.version ++ 32 :: digits).length = head.version.length + 1 + digits.length := by
      simp only [List.length_append, List.length_cons]
      omega
    generalize (head.version ++ 32 :: digits).length = size at *
    have skipped := status_skip env size h none 0 head.version version (by omega) (by omega)
      (fun c member =>
        have clean := head.version_clean c member
        ⟨clean.2, fun blank => absurd blank clean.1⟩)
    rw [Nat.zero_add] at skipped
    have first : Http.statusBody env size ⟨h, buffer, head.version.length, none⟩ =
        .again ⟨h, buffer, head.version.length + 1, some (head.version.length + 1)⟩ := by
      have going : head.version.length < size ∧ (32 : Byte) ≠ LF := ⟨by omega, by decide⟩
      simp only [Http.statusBody, blank, if_pos going, unread, and_self, if_true,
        bump_of_lt (show head.version.length + 1 < 65536 by omega)]
    have passed := status_skip env size h (some (head.version.length + 1)) (head.version.length + 1)
      digits code (by omega) (by omega) (fun c member =>
        have clean := digit_plain (head.code_digits c (cut.subset member))
        ⟨clean.1, fun blank => absurd blank clean.2⟩)
    rw [← length] at passed
    exact ⟨_, rounds_mono (by omega) (((skipped.trans (.one first)).trans passed).stop (stopped _))⟩

theorem call_flushes {h : Http} (awaiting : Awaiting h) {first : Read} {g : Http}
    (round : h.readOne env fuel [] first = some (.flushes g)) (more : List Read) :
    h.readyToRead env fuel (first :: more) = some (g.flushRead more) := by
  have linked := Option.isSome_iff_ne_none.mp awaiting.linked
  rw [Http.readyToRead, if_neg (by simp [awaiting.going]), awaiting.nothing, Http.readLoop,
    if_neg (by simpa using linked), round]
  rfl

theorem readOne_cut {h : Http} (awaiting : Awaiting h) {head : Head} (first : Read)
    (cut : CutStatus head first.data) (small : first.data.length < 65536)
    (enough : first.data.length < fuel) : h.readOne env fuel [] first = some (.flushes h) := by
  obtain ⟨fh, status⟩ := cutStatus_read env fuel h awaiting.unread cut (holds_read first) small enough
  have fresh : h.parsing ≠ .content := by simp [awaiting.fresh]
  have none_read : h.http_code ≠ 200 := by simp [awaiting.unread]
  simp only [Http.readOne, if_neg fresh, if_pos awaiting.unread, status, Option.bind_some,
    if_pos none_read]

/-- A first read that ends before the second blank of the status line ends the
download with no code, whatever follows. -/
theorem cut_status_line_refused {h : Http} (awaiting : Awaiting h) {head : Head} (first : Read)
    (cut : CutStatus head first.data) (small : first.data.length < 65536)
    (enough : first.data.length < fuel) (more : List Read) (later : List (List Read)) : ∃ p,
    deliver env fuel h [] ((first :: more) :: later) = some p ∧ p.http.http_code = 0 ∧
      p.passed = [] := by
  have call := call_flushes env fuel awaiting (readOne_cut env fuel awaiting first cut small enough) more
  have rest := deliver_disconnected env fuel later (h.flushRead more).http (h.flushRead more).unread rfl
  refine ⟨⟨(h.flushRead more).http, (h.flushRead more).unread ++ later.flatten, []⟩, ?_, ?_, rfl⟩
  · rw [deliver, List.nil_append, call, Option.bind_some, rest]
    rfl
  · exact awaiting.unread

end Refused

def roomy : Surroundings where
  created := true
  fieldsStored := true
  touched := true
  disk := fun _ => 4096
  randomIndex := []
  date := []
  expire := []
  uninitialised := 0

def requested : Http :=
  { Http.new false (ascii "cache/0") with
    host := ascii "a", uri := ascii "/", clientsList := [0], requestSended := true
    backend := some ⟨false⟩ }

theorem requested_awaiting : Awaiting requested where
  linked := rfl
  going := rfl
  unread := rfl
  fresh := rfl
  nothing := rfl
  unwritten := rfl
  chunkLength := rfl
  chunkHeader := rfl

set_option maxRecDepth 2048 in
theorem contentLength_clean : ∀ c ∈ ascii "Content-Length", c ≠ 58 ∧ c ≠ CR ∧ c ≠ LF := by decide

set_option maxRecDepth 2048 in
def fiveBytes : Head where
  version := ascii "HTTP/1.1"
  code := ascii "200"
  reason := ascii "OK"
  fields := [⟨ascii "Content-Length", ascii " 5", contentLength_clean, by decide⟩]
  version_clean := by decide
  code_digits := by decide
  reason_clean := by decide

def received (data : Bytes) : Read := ⟨data, fun _ => 0⟩

set_option maxRecDepth 2048 in
theorem cut_body_is_harmless : ∃ cut one,
    deliver roomy 100 requested [] [[received (fiveBytes.bytes ++ ascii "he")],
      [received (ascii "l"), received (ascii "lo")]] = some cut ∧
    deliver roomy 100 requested [] [[received (fiveBytes.bytes ++ ascii "hello")]] = some one ∧
    SameResponse cut one :=
  response_survives_cuts roomy 100 requested requested_awaiting fiveBytes (by decide) (by decide)
    (by decide) ⟨rfl, rfl, rfl, by decide⟩ (received _) [] _ (ascii "he") rfl (by decide) (by decide)
    (by rw [Unfinished, if_pos (by decide)]; exact .inr (by decide)) (received _) (by decide)

set_option maxRecDepth 4096 in
/-- Cut inside its code, the status line is given up and no header is read. -/
theorem cut_inside_status_line_loses_response : Awaiting requested ∧ ∃ cut one,
    deliver roomy 100 requested [] [[received (ascii "HTTP/1.1 2"),
      received (ascii "00 OK\r\nContent-Length: 5\r\n\r\nhello")]] = some cut ∧
    deliver roomy 100 requested []
      [[received (ascii "HTTP/1.1 200 OK\r\nContent-Length: 5\r\n\r\nhello")]] = some one ∧
    ¬SameResponse cut one := by
  have cutCode : (deliver roomy 100 requested [] [[received (ascii "HTTP/1.1 2"),
      received (ascii "00 OK\r\nContent-Length: 5\r\n\r\nhello")]]).map
        (fun p => p.http.http_code) = some 0 := by
    decide
  have wholeCode : (deliver roomy 100 requested []
      [[received (ascii "HTTP/1.1 200 OK\r\nContent-Length: 5\r\n\r\nhello")]]).map
        (fun p => p.http.http_code) = some 200 := by
    decide
  obtain ⟨cut, apart, none_read⟩ := Option.map_eq_some_iff.mp cutCode
  obtain ⟨one, together, accepted⟩ := Option.map_eq_some_iff.mp wholeCode
  refine ⟨requested_awaiting, cut, one, apart, together, fun same => ?_⟩
  have codes := same.1
  rw [none_read, accepted] at codes
  cases codes

end FastCgiCdn.HeadCuts
