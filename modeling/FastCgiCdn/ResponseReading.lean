import FastCgiCdn.HeadCuts

/-! A response as its server frames it, and the download object while its reads
come in. `Fits` says which cuts the reading code gets right; under them the
object ends its download with the last byte of the response and not before. -/

namespace FastCgiCdn.ResponseReading

open ChunkFraming HttpModel ChunkDecoder ChunkCuts HeadReading BodyReading HeadCuts

structure Unanswered (h : Http) : Prop where
  going : h.endDetected = false
  unread : h.http_code = 0
  fresh : h.parsing = .none
  nothing : h.headerBuff = []
  unsized : h.contentsize = -1
  unwritten : h.contentwritten = 0
  chunkLength : h.chunkLength = -1
  chunkHeader : h.chunkHeader = []

theorem unanswered_new (cachefd : Bool) (cachePath : Bytes) : Unanswered (.new cachefd cachePath) :=
  ⟨rfl, rfl, rfl, rfl, rfl, rfl, rfl, rfl⟩

section Unanswered

variable {h g : Http}

theorem Unanswered.congr (unanswered : Unanswered h) (going : g.endDetected = h.endDetected)
    (unread : g.http_code = h.http_code) (fresh : g.parsing = h.parsing)
    (nothing : g.headerBuff = h.headerBuff) (unsized : g.contentsize = h.contentsize)
    (unwritten : g.contentwritten = h.contentwritten) (chunkLength : g.chunkLength = h.chunkLength)
    (chunkHeader : g.chunkHeader = h.chunkHeader) : Unanswered g :=
  ⟨going.trans unanswered.going, unread.trans unanswered.unread, fresh.trans unanswered.fresh,
    nothing.trans unanswered.nothing, unsized.trans unanswered.unsized,
    unwritten.trans unanswered.unwritten, chunkLength.trans unanswered.chunkLength,
    chunkHeader.trans unanswered.chunkHeader⟩

theorem Unanswered.awaiting (unanswered : Unanswered h) (linked : h.backend.isSome) : Awaiting h :=
  ⟨linked, unanswered.going, unanswered.unread, unanswered.fresh, unanswered.nothing,
    unanswered.unwritten, unanswered.chunkLength, unanswered.chunkHeader⟩

end Unanswered

/-- A response with an announced length has a body of that length; without one
its body is chunked. -/
structure Response where
  head : Head
  body : Bytes
  contentLength : Option ℕ
  announces : ∀ (env : Surroundings) (h : Http), h.contentsize = -1 →
    (headed env h head).contentsize = contentLength.elim (-1) fun n => (n : ℤ)
  framed : ∀ n ∈ contentLength, body.length = n

namespace Response

variable (r : Response)

def bytes : Bytes := r.head.bytes ++ r.body

def announced : ℤ := r.contentLength.elim (-1) fun n => (n : ℤ)

def ok : Prop := Common.atoi16 r.head.code = 200

end Response

def bodyCuts (start : Bytes) (rest : List Bytes) : List Bytes :=
  (if start = [] then [] else [start]) ++ rest

/-- A chunked body is cut only where it may be, and its zero-size line comes
with everything behind it. -/
def BodyFits (r : Response) (pieces : List Bytes) : Prop :=
  r.contentLength = none → (Phase.line 0 []).cleanCuts grammar pieces ∧
    ∀ n, (Phase.line 0 []).after grammar (pieces.take n).flatten = .done →
      (pieces.take n).flatten = r.body

def Behind (r : Response) (cuts pieces : List Bytes) : Prop :=
  ∃ start rest, cuts = (r.head.bytes ++ start) :: rest ∧ pieces = bodyCuts start rest

/-- The reads of a response that the code gets right. -/
def Fits (r : Response) (cuts : List Bytes) : Prop :=
  ∃ pieces, Behind r cuts pieces ∧ BodyFits r pieces

theorem bodyCuts_flatten (start : Bytes) (rest : List Bytes) :
    (bodyCuts start rest).flatten = start ++ rest.flatten := by
  unfold bodyCuts
  split
  · rename_i empty
    rw [empty]
    rfl
  · rfl

theorem bodyCuts_append (start : Bytes) (rest more : List Bytes) :
    bodyCuts start (rest ++ more) = bodyCuts start rest ++ more := by
  unfold bodyCuts
  rw [List.append_assoc]

section Behind

variable {r : Response} {cuts pieces : List Bytes}

theorem Behind.append (behind : Behind r cuts pieces) (more : List Bytes) :
    Behind r (cuts ++ more) (pieces ++ more) := by
  obtain ⟨start, rest, rfl, rfl⟩ := behind
  exact ⟨start, rest ++ more, rfl, (bodyCuts_append start rest more).symm⟩

theorem Behind.unique {pieces' : List Bytes} (behind : Behind r cuts pieces)
    (behind' : Behind r cuts pieces') : pieces = pieces' := by
  obtain ⟨start, rest, rfl, rfl⟩ := behind
  obtain ⟨start', rest', same, rfl⟩ := behind'
  obtain ⟨front, rfl⟩ := List.cons.inj same
  rw [List.append_cancel_left front]

theorem Behind.flatten (behind : Behind r cuts pieces) :
    cuts.flatten = r.head.bytes ++ pieces.flatten := by
  obtain ⟨start, rest, rfl, rfl⟩ := behind
  rw [bodyCuts_flatten, List.flatten_cons, List.append_assoc]

theorem Behind.inside (behind : Behind r cuts pieces) (inside : cuts.flatten <+: r.bytes) :
    pieces.flatten <+: r.body := by
  rw [behind.flatten, Response.bytes] at inside
  exact (List.prefix_append_right_inj _).mp inside

theorem Behind.filled (behind : Behind r cuts pieces) (nonempty : ∀ d ∈ cuts, d ≠ []) :
    ∀ d ∈ pieces, d ≠ [] := by
  obtain ⟨start, rest, rfl, rfl⟩ := behind
  intro d member
  unfold bodyCuts at member
  rcases List.mem_append.mp member with here | there
  · split at here
    · cases here
    · rwa [List.mem_singleton.mp here]
  · exact nonempty d (List.mem_cons_of_mem _ there)

theorem Fits.body (fits : Fits r cuts) (behind : Behind r cuts pieces) : BodyFits r pieces := by
  obtain ⟨pieces', behind', body⟩ := fits
  rwa [behind.unique behind']

end Behind

theorem data_ne_nil {ps : List Piece} (filled : ∀ d ∈ ps.map Piece.data, d ≠ []) :
    ∀ p ∈ ps, p.data ≠ [] :=
  fun _ member => filled _ (List.mem_map_of_mem member)

theorem dropLast_lt {pieces : List Bytes} {body : Bytes} (inside : pieces.flatten <+: body)
    (nonempty : ∀ d ∈ pieces, d ≠ []) (several : ¬pieces.length ≤ 1) :
    pieces.dropLast.flatten.length < body.length := by
  have some_left : pieces ≠ [] := by
    rintro rfl
    simp at several
  have split := List.dropLast_append_getLast some_left
  have total := inside.length_le
  have last := List.length_pos_of_ne_nil (nonempty _ (List.getLast_mem some_left))
  rw [← split] at total
  simp only [List.flatten_append, List.flatten_singleton, List.length_append] at total
  omega

def Response.payload (r : Response) (body : Bytes) : Bytes :=
  if r.contentLength = none then (Phase.line 0 []).emitted grammar body else body

/-- The object after a part of the body that does not end it. -/
structure Midway (r : Response) (body : Bytes) (h : Http) : Prop where
  reading : Reading h
  stored : h.tempCache.isSome
  answered : h.http_code ≠ 0
  announced : h.contentsize = r.announced
  connected : h.backend = some ⟨true⟩
  counted : r.contentLength ≠ none → h.contentwritten = body.length
  decoded : r.contentLength = none → view h = image ((Phase.line 0 []).after grammar body)

theorem midway_behindHead {env : Surroundings} {h : Http} {r : Response} (awaiting : Awaiting h)
    (unsized : h.contentsize = -1) (accepted : r.ok) : Midway r [] (behindHead env h r.head) := by
  have frame := behindHead_frame env h r.head
  obtain ⟨b, linked⟩ := Option.isSome_iff_exists.mp awaiting.linked
  refine ⟨reading_behindHead awaiting, rfl, ?_, r.announces env h unsized, ?_, fun _ => ?_, fun _ => ?_⟩
  · have code : Common.atoi16 r.head.code = 200 := accepted
    rw [frame]
    simp [answered, code]
  · rw [frame]
    simp [answered, linked]
  · rw [frame]
    exact awaiting.unwritten
  · rw [frame, view]
    simp only [answered, awaiting.going, awaiting.chunkLength, awaiting.chunkHeader]
    rfl

/-- Where a chunked body is cut, a piece may start, with the same effect. -/
theorem resting_between {before : List Bytes} {d : Bytes} {rest : List Bytes} {b : Byte} {bs : Bytes}
    (whole : d = b :: bs) (clean : (Phase.line 0 []).cleanCuts grammar (before ++ d :: rest))
    (going : (Phase.line 0 []).after grammar before.flatten ≠ .done) :
    ∃ ψ, Resting ψ ∧ image ψ = image ((Phase.line 0 []).after grammar before.flatten) ∧
      ψ.cleanCuts grammar (d :: rest) ∧
      ∀ cs, ((Phase.line 0 []).after grammar before.flatten).after grammar (d ++ cs) =
          ψ.after grammar (d ++ cs) ∧
        ((Phase.line 0 []).after grammar before.flatten).emitted grammar (d ++ cs) =
          ψ.emitted grammar (d ++ cs) := by
  by_cases first : before = []
  · rw [first] at clean ⊢
    exact ⟨_, .line 0, rfl, clean, fun _ => ⟨rfl, rfl⟩⟩
  · obtain ⟨here, later⟩ := Phase.cleanCuts_append grammar first clean
    generalize (Phase.line 0 []).after grammar before.flatten = φ at here later going
    obtain ⟨ψ, rests, same, agree⟩ := resting_of_mayCut (here b (by simp [whole])) going
    rw [whole] at later ⊢
    refine ⟨ψ, rests, same, (cleanCuts_congr ?_).mp later, fun cs => ?_⟩
    · exact (agree bs).1
    · exact agree (bs ++ cs)

section Writes

variable {r : Response} {h : Http} {before : List Bytes} {ps : List Piece}

/-- What pieces of the body leave of an object midway: more payload, and an end
only with the whole body. -/
def Continues (r : Response) (h : Http) (before : List Bytes) (ps : List Piece) : Prop :=
  Unended h ps ∧ ∃ v part, Receives h (v, part) (writes h ps) ∧
    r.payload (before ++ ps.map Piece.data).flatten = r.payload before.flatten ++ part ∧
    (v.endDetected = true → (before ++ ps.map Piece.data).flatten = r.body) ∧
    (v.endDetected = false → Midway r (before ++ ps.map Piece.data).flatten (writes h ps))

theorem receives_still {r : Http} {v : View} {part : Bytes} (received : Receives h (v, part) r)
    (going : v.endDetected = false) : Edited h r := by
  obtain ⟨ws, w, -, rfl⟩ := received
  rw [settle, if_neg (by simp [going])]
  rfl

theorem sized_continues {n : ℕ} (sized : r.contentLength = some n)
    (midway : Midway r before.flatten h)
    (filled : ∀ d ∈ before ++ ps.map Piece.data, d ≠ [])
    (inside : (before ++ ps.map Piece.data).flatten <+: r.body) : Continues r h before ps := by
  have length := r.framed n (Option.mem_def.mpr sized)
  have announced : h.contentsize = n := by rw [midway.announced, Response.announced, sized]; rfl
  have counted := midway.counted (by simp [sized])
  have total := inside.length_le
  rw [List.flatten_append, List.length_append] at total
  have short : ps.length ≤ 1 ∨
      h.contentwritten + ((ps.map Piece.data).dropLast.flatten.length : ℤ) < h.contentsize := by
    by_cases alone : ps.length ≤ 1
    · exact .inl alone
    · have less := dropLast_lt (List.prefix_refl (ps.map Piece.data).flatten)
        (fun d member => filled d (List.mem_append_right _ member)) (by simpa using alone)
      exact .inr (by omega)
  have unended := unended_sized ps h midway.reading.going midway.stored (by omega) short
  obtain ⟨e, ended, result⟩ := writes_sized ps h midway.reading.going midway.stored (by omega)
  have left : ps.length ≤ 1 ∨ ((ps.map Piece.data).dropLast.flatten.length : ℤ) <
      h.contentsize - h.contentwritten := short.imp_right fun less => by omega
  rw [reaching_short ps _ left] at result
  refine ⟨unended, ⟨e, h.chunkLength, h.chunkHeader⟩, (ps.map Piece.data).flatten,
    ⟨_, _, rfl, result⟩, ?_, ?_, ?_⟩
  · simp [Response.payload, sized]
  · intro atEnd
    have reached := (ended.mp atEnd).2
    apply inside.eq_of_length_le
    rw [List.flatten_append, List.length_append]
    omega
  · rintro rfl
    have counter : (writes h ps).contentwritten =
        h.contentwritten + ((ps.map Piece.data).flatten.length : ℤ) := by
      rw [result]
      rfl
    have edited : Edited h (writes h ps) := by
      rw [result]
      rfl
    refine ⟨midway.reading.edited edited, ?_, ?_, ?_, ?_, fun _ => ?_, fun chunked => ?_⟩
    · rw [result]
      simpa [settle, fed] using midway.stored
    · rw [edited]
      exact midway.answered
    · rw [edited]
      exact midway.announced
    · rw [edited]
      exact midway.connected
    · rw [counter, counted, List.flatten_append, List.length_append, Int.natCast_add]
    · rw [sized] at chunked
      cases chunked

theorem chunked_continues (chunked : r.contentLength = none)
    (midway : Midway r before.flatten h) (some_piece : ps ≠ [])
    (filled : ∀ d ∈ before ++ ps.map Piece.data, d ≠ [])
    (fits : BodyFits r (before ++ ps.map Piece.data))
    (inside : (before ++ ps.map Piece.data).flatten <+: r.body) : Continues r h before ps := by
  obtain ⟨clean, last⟩ := fits chunked
  have decoded := midway.decoded chunked
  have going : (Phase.line 0 []).after grammar before.flatten ≠ .done := by
    intro ended
    have detected := congrArg View.endDetected decoded
    rw [ended] at detected
    exact absurd (midway.reading.going.symm.trans detected) (by decide)
  have announced : h.contentsize = -1 := by rw [midway.announced, Response.announced, chunked]; rfl
  have live : Live h := ⟨midway.reading.going, midway.stored, midway.answered, by omega⟩
  have nonempty : ∀ p ∈ ps, p.data ≠ [] :=
    data_ne_nil fun d member => filled d (List.mem_append_right _ member)
  obtain ⟨p, ps, rfl⟩ := List.exists_cons_of_ne_nil some_piece
  obtain ⟨b, bs, whole⟩ := List.exists_cons_of_ne_nil (nonempty p (List.mem_cons_self ..))
  obtain ⟨ψ, rests, same, clean', agree⟩ := resting_between whole clean going
  have short : (p :: ps).length ≤ 1 ∨
      ψ.after grammar ((p :: ps).map Piece.data).dropLast.flatten ≠ .done := by
    cases ps with
    | nil => exact .inl le_rfl
    | cons q ps =>
      right
      have front : ((p :: q :: ps).map Piece.data).dropLast.flatten =
          p.data ++ ((q :: ps).map Piece.data).dropLast.flatten := rfl
      intro ended
      rw [front, ← (agree _).1, ← Phase.after_append, ← front, ← List.flatten_append,
        ← List.dropLast_append_of_ne_nil (by simp), List.dropLast_eq_take] at ended
      have less := dropLast_lt inside filled (by
        simp only [List.length_append, List.length_map, List.length_cons]
        omega)
      rw [List.dropLast_eq_take, last _ ended] at less
      exact absurd less (lt_irrefl _)
  have unended := unended_chunked (p :: ps) h ψ live rests (decoded.trans same.symm) nonempty clean' short
  have received := writes_receive (p :: ps) h ψ live rests (decoded.trans same.symm) nonempty clean'
  have joined : ((p :: ps).map Piece.data).flatten = p.data ++ (ps.map Piece.data).flatten := rfl
  have reads : reading ψ ((p :: ps).map Piece.data).flatten =
      reading ((Phase.line 0 []).after grammar before.flatten)
        ((p :: ps).map Piece.data).flatten := by
    rw [joined, reading, reading, (agree _).1, (agree _).2]
  rw [reads, reading, ← Phase.after_append, ← List.flatten_append] at received
  refine ⟨unended, _, _, received, ?_, ?_, ?_⟩
  · simp only [Response.payload, chunked, if_true]
    rw [List.flatten_append, Phase.emitted_append]
  · intro atEnd
    have complete := last (before ++ (p :: ps).map Piece.data).length
    rw [List.take_length] at complete
    exact complete ((image_ended _).mp atEnd)
  · intro still
    have edited := receives_still received still
    refine ⟨midway.reading.edited edited, (received.live live still).stored, ?_, ?_, ?_,
      fun sized => absurd chunked sized, fun _ => received.view_eq live⟩
    · rw [edited]
      exact midway.answered
    · rw [edited]
      exact midway.announced
    · rw [edited]
      exact midway.connected

theorem Midway.continues (midway : Midway r before.flatten h) (some_piece : ps ≠ [])
    (filled : ∀ d ∈ before ++ ps.map Piece.data, d ≠ [])
    (fits : BodyFits r (before ++ ps.map Piece.data))
    (inside : (before ++ ps.map Piece.data).flatten <+: r.body) : Continues r h before ps := by
  cases framing : r.contentLength with
  | some n => exact sized_continues framing midway filled inside
  | none => exact chunked_continues framing midway some_piece filled fits inside

end Writes

theorem take_first (first : Read) (more : List Read) :
    (first :: more).take ((first :: more).length - more.length) = [first] := by
  rw [List.length_cons, Nat.add_sub_cancel_left]
  rfl

section Calls

variable {env : Surroundings} {fuel : ℕ} {r : Response} {h : Http}

variable (env fuel) in
theorem call_midway {seen pieces : List Bytes} (behind : Behind r seen pieces)
    (midway : Midway r pieces.flatten h) (reads : List Read) (some_read : reads ≠ [])
    (fits : Fits r (seen ++ reads.map Read.data))
    (inside : (seen ++ reads.map Read.data).flatten <+: r.bytes)
    (nonempty : ∀ d ∈ seen ++ reads.map Read.data, d ≠ []) :
    h.readyToRead env fuel reads =
        some ⟨writes h (reads.map piece), [], reads.flatMap Read.data⟩ ∧
      Behind r (seen ++ reads.map Read.data) (pieces ++ (reads.map piece).map Piece.data) ∧
      Continues r h pieces (reads.map piece) := by
  have same : (reads.map piece).map Piece.data = reads.map Read.data := by
    rw [List.map_map]
    rfl
  have joined := behind.append (reads.map Read.data)
  have body := fits.body joined
  have within := joined.inside inside
  have filled := joined.filled nonempty
  rw [← same] at body within filled joined
  have goes := midway.continues (by simpa using some_read) filled body within
  refine ⟨?_, by rwa [← same], goes⟩
  rw [readyToRead_feed env fuel midway.reading, feed_unended reads h midway.reading goes.1]

theorem call_begins (awaiting : Awaiting h) (unsized : h.contentsize = -1) (accepted : r.ok)
    (small : r.head.bytes.length < 65536) (enough : r.head.bytes.length ≤ fuel)
    (ready : Ready env (headed env h r.head)) (first : Read) (more : List Read)
    (fits : Fits r ((first :: more).map Read.data))
    (inside : ((first :: more).map Read.data).flatten <+: r.bytes)
    (nonempty : ∀ d ∈ (first :: more).map Read.data, d ≠ []) :
    (h.readyToRead env fuel (first :: more) = some ⟨behindHead env h r.head, more, []⟩ ∧
      Behind r [first.data] []) ∨
    ∃ ps passed, h.readyToRead env fuel (first :: more) =
        some ⟨writes (behindHead env h r.head) ps, [], passed⟩ ∧
      Behind r ((first :: more).map Read.data) (ps.map Piece.data) ∧
      Continues r (behindHead env h r.head) [] ps := by
  have midway : Midway r [] (behindHead env h r.head) := midway_behindHead awaiting unsized accepted
  obtain ⟨cuts, behind, body⟩ := fits
  obtain ⟨start, rest, stands, rfl⟩ := id behind
  obtain ⟨front, rfl⟩ := List.cons.inj stands
  by_cases bare : start = []
  · left
    rw [bare, List.append_nil] at front
    exact ⟨first_call_bare awaiting accepted small enough ready first more front,
      [], [], by rw [front, List.append_nil], rfl⟩
  · right
    obtain ⟨place, call⟩ := first_call awaiting accepted small enough ready first more start front
      fun none_left => absurd none_left bare
    have data : (pieces start place more).map Piece.data = bodyCuts start (more.map Read.data) :=
      pieces_data start place more
    have within := behind.inside inside
    have filled := behind.filled nonempty
    rw [← data] at within filled body behind
    have some_piece : pieces start place more ≠ [] := by
      rw [pieces, if_neg bare]
      exact List.cons_ne_nil _ _
    have goes : Continues r (behindHead env h r.head) [] (pieces start place more) := by
      apply Midway.continues
      · exact midway
      · exact some_piece
      · exact filled
      · exact body
      · exact within
    exact ⟨_, _, call goes.1, behind, goes⟩

/-- A response whose file could not be created is read and dropped. -/
structure Sunk (h : Http) : Prop where
  reading : Reading h
  unstored : h.tempCache = none

theorem write_sunk {h : Http} (sunk : Sunk h) (p : Piece) : (h.write p).1 = h := by
  unfold Http.write
  rw [if_neg (by simp [sunk.reading.going]), sunk.unstored]

theorem call_sunk (sunk : Sunk h) (reads : List Read) :
    h.readyToRead env fuel reads = some ⟨h, [], reads.flatMap Read.data⟩ := by
  rw [readyToRead_feed env fuel sunk.reading]
  congr 1
  induction reads with
  | nil => rfl
  | cons r reads ih =>
    rw [feed, write_sunk sunk, if_neg (by simp [sunk.reading.going]), ih]
    rfl

def unstored (env : Surroundings) (h : Http) (head : Head) : Http :=
  { headed env h head with tempCache := none }.disconnectFrontend

theorem sunk_unstored (awaiting : Awaiting h) (head : Head) : Sunk (unstored env h head) := by
  unfold unstored
  rw [headed_frame]
  exact ⟨⟨awaiting.going, by simpa [answered, Http.disconnectFrontend] using awaiting.linked, rfl, rfl⟩,
    rfl⟩

theorem call_uncreated (awaiting : Awaiting h) (accepted : r.ok)
    (small : r.head.bytes.length < 65536) (enough : r.head.bytes.length ≤ fuel)
    (uncreated : env.created = false) (first : Read) (more : List Read) (start : Bytes)
    (stands : first.data = r.head.bytes ++ start) :
    h.readyToRead env fuel (first :: more) = some ⟨unstored env h r.head, more, []⟩ := by
  obtain ⟨buffer, -, round⟩ := readOne_headed env h awaiting.unread (by simp [awaiting.fresh]) r.head
    accepted first start stands small enough
  have linked := Option.isSome_iff_ne_none.mp awaiting.linked
  rw [Http.openCache, if_pos (by simp [uncreated])] at round
  rw [Http.readyToRead, if_neg (by simp [awaiting.going]), awaiting.nothing, Http.readLoop,
    if_neg (by simpa using linked), round]
  rfl

theorem readLoop_disconnected (budget : ℕ) (kept : Bytes) {g : Http} (gone : g.backend = none)
    (reads : List Read) : Http.readLoop env fuel (budget + 1) kept g reads = some ⟨g, reads, []⟩ := by
  cases reads with
  | nil => rfl
  | cons r reads => rw [Http.readLoop, if_pos (by rw [gone]; rfl)]

def unwritable (env : Surroundings) (h : Http) (head : Head) (headerWriten : Bool) : Http :=
  { headed env h head with
    headerWriten := headerWriten, tempCache := none }.disconnectFrontend.disconnectBackend

theorem unwritable_renamed (h : Http) (head : Head) (written : Bool) :
    (unwritable env h head written).renamed = h.renamed := by
  change (headed env h head).renamed ++ [] = _
  rw [headed_frame, List.append_nil]
  rfl

theorem call_returns (awaiting : Awaiting h) {first : Read} {g : Http} {passed : Bytes}
    (round : h.readOne env fuel [] first = some (.returns g passed)) (more : List Read) :
    h.readyToRead env fuel (first :: more) = some ⟨g, more, passed⟩ := by
  have linked := Option.isSome_iff_ne_none.mp awaiting.linked
  rw [Http.readyToRead, if_neg (by simp [awaiting.going]), awaiting.nothing, Http.readLoop,
    if_neg (by simpa using linked), round]
  rfl

theorem call_disconnects (awaiting : Awaiting h) {first : Read} {g : Http} {passed : Bytes}
    (round : h.readOne env fuel [] first = some (.goesOn g passed)) (gone : g.backend = none)
    (more : List Read) : h.readyToRead env fuel (first :: more) = some ⟨g, more, passed⟩ := by
  have linked := Option.isSome_iff_ne_none.mp awaiting.linked
  rw [Http.readyToRead, if_neg (by simp [awaiting.going]), awaiting.nothing, Http.readLoop,
    if_neg (by simpa using linked), round]
  change (Http.readLoop env fuel (more.length + 1) [] g more).map _ = _
  rw [readLoop_disconnected more.length [] gone more, Option.map_some, List.append_nil]

theorem call_unwritable (awaiting : Awaiting h) (once : h.headerWriten = false) (accepted : r.ok)
    (small : r.head.bytes.length < 65536) (enough : r.head.bytes.length ≤ fuel)
    (created : env.created = true) (full : env.fieldsStored = false ∨
      env.disk 0 < (Http.header env (headed env h r.head)).length) (first : Read) (more : List Read)
    (start : Bytes) (stands : first.data = r.head.bytes ++ start) : ∃ written passed,
    h.readyToRead env fuel (first :: more) = some ⟨unwritable env h r.head written, more, passed⟩ := by
  obtain ⟨buffer, content, round⟩ := readOne_headed env h awaiting.unread (by simp [awaiting.fresh])
    r.head accepted first start stands small enough
  by_cases fields : env.fieldsStored = false
  · rw [Http.openCache, if_neg (by simp [created]), if_pos (by simp [fields])] at round
    refine ⟨h.headerWriten, [], ?_⟩
    rw [call_returns awaiting round more, unwritable, headed_frame]
    rfl
  · have short := full.resolve_left fields
    have fresh : ¬(headed env h r.head).headerWriten = true := by
      rw [headed_frame]
      simp [answered, once]
    rw [Http.openCache, if_neg (by simp [created]), if_neg (by simpa using fields), if_neg fresh,
      if_pos short] at round
    have given : { headed env h r.head with
        headerWriten := true, tempCache := none }.disconnectFrontend.disconnectBackend =
        unwritable env h r.head true := rfl
    rw [given] at round
    have gone : (unwritable env h r.head true).backend = none := rfl
    have parsing : (unwritable env h r.head true).parsing = .content := by
      change (headed env h r.head).parsing = _
      rw [headed_frame]
    have ignored (p : Piece) : (unwritable env h r.head true).write p =
        (unwritable env h r.head true, (p.size : ℤ)) := rfl
    simp only [Http.afterHead, parsing, ignored] at round
    split at round
    · exact ⟨true, _, call_returns awaiting round more⟩
    · split at round
      · exact ⟨true, _, call_returns awaiting round more⟩
      · exact ⟨true, _, call_disconnects awaiting round gone more⟩

end Calls

def hello : Response where
  head := fiveBytes
  body := ascii "hello"
  contentLength := some 5
  announces := fun _ _ _ => rfl
  framed := by decide

end FastCgiCdn.ResponseReading
