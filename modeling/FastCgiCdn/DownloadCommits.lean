import FastCgiCdn.DownloadModel

/-! What is renamed into the cache: under reads that fit a well-formed response,
on a disk that stores them, and unless a download is ended midway by a path that
keeps its name, every file renamed is complete. -/

namespace FastCgiCdn.DownloadCommits

open ChunkFraming HttpModel ChunkDecoder ChunkCuts HeadReading BodyReading HeadCuts ResponseReading
open DownloadModel GuardedRuns

/-- The first read ends the download with no file: it ends before the second
blank of the status line, or the code is not 200. -/
def Refused (first : Bytes) : Prop :=
  ∃ head : Head, (CutStatus head first ∧ first.length < 65536) ∨
    (Common.atoi16 head.code ≠ 200 ∧ head.codeLine <+: first ∧ head.codeLine.length ≤ 65536)

/-- The last request was answered by a well-formed response with the code 200. -/
structure Answers (d : Download) (r : Response) : Prop where
  answer : d.served.head? = some (.response r)
  accepted : r.ok
  wellFormed : ∃ payload, Data r payload

/-- The reads of a call that leave no wrong file behind: none, any for a download
that stores nothing, a refused answer, or those of a well-formed response to the
last request, whose head comes whole, whose body is cut where it may be, and
whose file has room for it. -/
def ReadsFit (env : Surroundings) (d : Download) (reads : List Bytes) : Prop :=
  reads = [] ∨ (d.http.parsing = .content ∧ d.http.tempCache = none) ∨
    (d.seen = [] ∧ d.http.http_code = 0 ∧ ∃ first ∈ reads.head?, Refused first) ∨
    ∃ r, Answers d r ∧ r.head.bytes.length < 65536 ∧ Fits r (d.seen ++ reads) ∧
      (d.seen = [] → d.http.http_code = 0 ∧ ∀ i, r.bytes.length ≤ env.disk (i + 1))

/-- There is no file, or no name for it. -/
def NothingToSave (d : Download) : Prop := d.http.tempCache = none ∨ d.http.cachePath = []

def Sound : Event → Download → Prop
  | .readyToRead env _ reads, d => ReadsFit env d (reads.map Read.data)
  | .httpTimeout, d => d.http.backend.isSome ∨ NothingToSave d
  | .notAlive, d => NothingToSave d
  | _, _ => True

structure Waiting (h : Http) : Prop extends Unanswered h where
  unstored : h.tempCache = none
  once : h.headerWriten = false

structure Kept (r : Response) (body : Bytes) (c : Cache) : Prop where
  writes : ∃ env h ws, h.contentsize = -1 ∧ c.writes = Http.header env (headed env h r.head) :: ws ∧
    ws.flatten = r.payload body ∧ (Http.header env (headed env h r.head)).length ≤ c.disk 0
  room : ∀ i, r.bytes.length ≤ c.disk (i + 1)

/-- A part of the response has been read and is in the file. -/
structure Underway (d : Download) (r : Response) (pieces : List Bytes) : Prop extends
    Answers d r where
  behind : Behind r d.seen pieces
  filled : ∀ s ∈ d.seen, s ≠ []
  midway : Midway r pieces.flatten d.http
  kept : ∃ c, d.http.tempCache = some c ∧ Kept r pieces.flatten c

/-- How far a download is. `cut` is a download that has lost its connection
midway, or has sent its request again since. -/
inductive Stage (d : Download) : Prop
  | waiting : Waiting d.http → d.seen = [] → Stage d
  | midway (r : Response) (pieces : List Bytes) : Underway d r pieces → d.queued = false → Stage d
  | sunk : d.http.http_code ≠ 0 → d.http.parsing = .content → d.http.tempCache = none →
      d.http.endDetected = false → d.http.headerBuff = [] → Stage d
  | cut : d.http.http_code ≠ 0 → d.http.tempCache.isSome → d.queued = false →
      (d.seen = [] ∨ d.isValid = false ∨ d.http.backend = none) → Stage d
  | atEnd : d.http.backend = none → d.queued = false → Stage d

structure Sane (d : Download) : Prop where
  complete : ∀ q ∈ d.http.renamed, ∃ answer ∈ d.served, Complete q.2 answer
  free : d.http.backend.isSome → d.queued = false
  stage : Stage d

section Files

variable {r : Response} {body : Bytes} {c : Cache}

theorem Kept.more (kept : Kept r body c) {body' part : Bytes} {ws : List Bytes}
    (more : r.payload body' = r.payload body ++ part) (stored : ws.flatten = part) :
    Kept r body' { c with writes := c.writes ++ ws } := by
  obtain ⟨⟨env, h, before, unsized, writes, flatten, header⟩, room⟩ := kept
  refine ⟨⟨env, h, before ++ ws, unsized, ?_, ?_, header⟩, room⟩
  · rw [writes, List.cons_append]
  · rw [List.flatten_append, flatten, stored, more]

theorem mapIdx_take (disk : ℕ → ℕ) (ws : List Bytes) (room : ∀ w ∈ ws, ∀ i, w.length ≤ disk i) :
    ws.mapIdx (fun i data => data.take (disk i)) = ws := by
  apply List.ext_getElem
  · simp
  · intro i _ inside
    rw [List.getElem_mapIdx]
    exact List.take_of_length_le (room _ (List.getElem_mem inside) i)

theorem payload_length_le (r : Response) (body : Bytes) : (r.payload body).length ≤ body.length := by
  unfold Response.payload
  split
  · exact Phase.emitted_length_le _ _ _
  · exact le_rfl

theorem payload_of_data {payload : Bytes} (data : Data r payload) : r.payload r.body = payload := by
  unfold Data at data
  unfold Response.payload
  split
  · rename_i chunked
    rw [if_pos chunked] at data
    exact data.read.2
  · rename_i sized
    rw [if_neg sized] at data
    exact data.symm

theorem Kept.complete (kept : Kept r r.body c) (accepted : r.ok) {payload : Bytes}
    (data : Data r payload) : Complete c (.response r) := by
  obtain ⟨⟨env, h, ws, unsized, writes, flatten, header⟩, room⟩ := kept
  refine ⟨r, payload, env, h, rfl, accepted, data, unsized, by rw [writes]; rfl, ?_⟩
  have short : ∀ w ∈ ws, ∀ i, w.length ≤ c.disk (i + 1) := by
    intro w member i
    have inside := (List.sublist_flatten_of_mem member).length_le
    have bound := payload_length_le r r.body
    have total := room i
    rw [flatten] at inside
    rw [Response.bytes, List.length_append] at total
    omega
  have stored := mapIdx_take (fun i => c.disk (i + 1)) ws short
  rw [Cache.content, writes, List.mapIdx_cons, List.flatten_cons, stored, flatten, payload_of_data data,
    List.take_of_length_le header]

end Files

section Renames

variable {h : Http}

theorem mem_renamed {q : Bytes × Cache} (member : q ∈ h.disconnectBackend.renamed) :
    q ∈ h.renamed ∨ (h.tempCache = some q.2 ∧ h.cachePath ≠ []) := by
  rcases List.mem_append.mp member with before | now
  · exact .inl before
  · obtain ⟨c, kept, rfl⟩ := List.mem_map.mp now
    obtain ⟨stored, savable⟩ := Option.filter_eq_some_iff.mp (Option.mem_toList.mp kept)
    refine .inr ⟨stored, ?_⟩
    intro unnamed
    simp [Http.savable, unnamed] at savable

theorem renamed_nothing (nothing : h.tempCache = none ∨ h.cachePath = []) {q : Bytes × Cache}
    (member : q ∈ h.disconnectBackend.renamed) : q ∈ h.renamed := by
  rcases mem_renamed member with before | ⟨stored, named⟩
  · exact before
  · rcases nothing with unstored | unnamed
    · rw [unstored] at stored
      cases stored
    · exact absurd unnamed named

theorem continues_kept {r : Response} {before : List Bytes} {ps : List Piece} {c : Cache}
    (stored : h.tempCache = some c) (kept : Kept r before.flatten c) (accepted : r.ok)
    (wellFormed : ∃ payload, Data r payload) (goes : Continues r h before ps) :
    (∀ q ∈ (writes h ps).renamed, q ∈ h.renamed ∨ Complete q.2 (.response r)) ∧
      ((writes h ps).backend = none ∨
        (Midway r (before ++ ps.map Piece.data).flatten (writes h ps) ∧
          ∃ c', (writes h ps).tempCache = some c' ∧
            Kept r (before ++ ps.map Piece.data).flatten c')) := by
  obtain ⟨-, v, part, ⟨ws, w, flatten, made⟩, payload, ended, still⟩ := goes
  have later := kept.more payload flatten
  have file : (fed h ws v w).tempCache = some { c with writes := c.writes ++ ws } := by
    rw [fed, stored]
    rfl
  cases atEnd : v.endDetected with
  | true =>
    rw [made, settle, if_pos atEnd]
    refine ⟨fun q member => ?_, .inl rfl⟩
    rcases mem_renamed member with before | ⟨saved, -⟩
    · exact .inl before
    · obtain ⟨data, announced⟩ := wellFormed
      rw [ended atEnd] at later
      rw [Option.some.inj (file.symm.trans saved)] at later
      exact .inr (later.complete accepted announced)
  | false =>
    have midway := still atEnd
    rw [made, settle, if_neg (by simp [atEnd])] at midway ⊢
    exact ⟨fun q member => .inl member, .inr ⟨midway, _, file, later⟩⟩

end Renames

section Reads

variable {d : Download} {p : Http.Progress} {reads : List Read}

def Download.after (d : Download) (p : Http.Progress) (reads : List Read) : Download :=
  { d with
    http := p.http
    seen := d.seen ++ (reads.take (reads.length - p.unread.length)).map Read.data }

theorem read_sunk (sane : Sane d) (linked : d.http.backend.isSome) (answered : d.http.http_code ≠ 0)
    (body : d.http.parsing = .content) (unstored : d.http.tempCache = none)
    (going : d.http.endDetected = false) (nothing : d.http.headerBuff = [])
    {env : Surroundings} {fuel : ℕ} (returned : d.http.readyToRead env fuel reads = some p) :
    Sane (Download.after d p reads) := by
  have sunk : Sunk d.http := ⟨⟨going, linked, body, nothing⟩, unstored⟩
  obtain rfl := Option.some.inj ((call_sunk sunk reads).symm.trans returned)
  exact ⟨sane.complete, sane.free, .sunk answered body unstored going nothing⟩

theorem read_refused (sane : Sane d) (linked : d.http.backend.isSome) (waiting : Waiting d.http)
    {first : Read} {more : List Read} (refused : Refused first.data) {env : Surroundings} {fuel : ℕ}
    (returned : d.http.readyToRead env fuel (first :: more) = some p) :
    Sane (Download.after d p (first :: more)) := by
  have awaiting := waiting.awaiting linked
  have result := Http.readyToRead_mono (le_max_left fuel (first.data.length + 65537)) returned
  have enough := le_max_right fuel (first.data.length + 65537)
  generalize max fuel (first.data.length + 65537) = n at result enough
  have ends : ∃ g : Http, d.http.readOne env n [] first = some (.flushes g) ∧
      g.tempCache = none ∧ g.renamed = d.http.renamed := by
    obtain ⟨head, ⟨cut, small⟩ | ⟨other, front, small⟩⟩ := refused
    · exact ⟨_, readOne_cut env n awaiting first cut small (by omega), waiting.unstored, rfl⟩
    · have length := codeLine_length head
      refine ⟨_, readOne_refused env d.http awaiting.unread (by simp [awaiting.fresh]) head other first
        front (by omega) (by omega), ?_⟩
      unfold Http.HttpReturnCode
      split
      · exact ⟨waiting.unstored, rfl⟩
      · split
        · exact ⟨waiting.unstored, rfl⟩
        · exact ⟨waiting.unstored, rfl⟩
  obtain ⟨g, round, unstored, renamed⟩ := ends
  obtain rfl := Option.some.inj ((call_flushes env n awaiting round more).symm.trans result)
  refine ⟨fun q member => ?_, nofun, .atEnd rfl (sane.free linked)⟩
  have before := renamed_nothing (.inl unstored) member
  rw [renamed] at before
  exact sane.complete q before

theorem after_all (d : Download) (h : Http) (passed : Bytes) (reads : List Read) :
    Download.after d ⟨h, [], passed⟩ reads =
      { d with http := h, seen := d.seen ++ reads.map Read.data } := by
  rw [Download.after, List.length_nil, Nat.sub_zero, List.take_length]

theorem continues_sane (sane : Sane d) (unqueued : d.queued = false) {r : Response}
    (answers : Answers d r) {h : Http} (renamed : h.renamed = d.http.renamed)
    {before : List Bytes} (kept : ∃ c, h.tempCache = some c ∧ Kept r before.flatten c)
    {ps : List Piece} (goes : Continues r h before ps) {seen : List Bytes}
    (behind : Behind r seen (before ++ ps.map Piece.data)) (filled : ∀ s ∈ seen, s ≠ []) :
    Sane { d with http := writes h ps, seen := seen } := by
  obtain ⟨c, stored, kept⟩ := kept
  obtain ⟨complete, atEnd | ⟨midway, file⟩⟩ :=
    continues_kept stored kept answers.accepted answers.wellFormed goes
  all_goals
    have all_complete : ∀ q ∈ (writes h ps).renamed, ∃ answer ∈ d.served, Complete q.2 answer := by
      intro q member
      rcases complete q member with before | now
      · exact sane.complete q (renamed ▸ before)
      · exact ⟨_, List.mem_of_mem_head? answers.answer, now⟩
  · exact ⟨all_complete, fun _ => unqueued, .atEnd atEnd unqueued⟩
  · exact ⟨all_complete, fun _ => unqueued,
      .midway r _ ⟨⟨answers.answer, answers.accepted, answers.wellFormed⟩, behind, filled, midway, file⟩
        unqueued⟩

theorem read_midway (sane : Sane d) (unqueued : d.queued = false) {r : Response}
    {pieces : List Bytes} (underway : Underway d r pieces) (some_read : reads ≠ [])
    (fits : Fits r (d.seen ++ reads.map Read.data))
    (inside : (d.seen ++ reads.map Read.data).flatten <+: r.bytes)
    (nonempty : ∀ s ∈ d.seen ++ reads.map Read.data, s ≠ []) {env : Surroundings} {fuel : ℕ}
    (returned : d.http.readyToRead env fuel reads = some p) : Sane (Download.after d p reads) := by
  obtain ⟨call, behind, goes⟩ := call_midway env fuel underway.behind underway.midway reads some_read
    fits inside nonempty
  obtain rfl := Option.some.inj (call.symm.trans returned)
  rw [after_all]
  exact continues_sane sane unqueued underway.toAnswers rfl underway.kept goes behind nonempty

section Begins

variable {r : Response} {env : Surroundings} {fuel : ℕ} {first : Read} {more : List Read}

theorem begins_uncreated (sane : Sane d) (unqueued : d.queued = false) (awaiting : Awaiting d.http)
    (accepted : r.ok) : Sane (Download.after d ⟨unstored env d.http r.head, more, []⟩ (first :: more)) := by
  have code : Common.atoi16 r.head.code = 200 := accepted
  have sunk : Sunk (unstored env d.http r.head) := sunk_unstored awaiting r.head
  have frame := headed_frame env d.http r.head
  refine ⟨?_, fun _ => unqueued,
    .sunk ?_ sunk.reading.body sunk.unstored sunk.reading.going sunk.reading.nothing⟩
  · change ∀ q ∈ (headed env d.http r.head).renamed, _
    rw [frame]
    exact sane.complete
  · change (headed env d.http r.head).http_code ≠ 0
    rw [frame]
    simp [HeadReading.answered, code]

theorem begins_unwritable (sane : Sane d) (unqueued : d.queued = false) (written : Bool)
    (passed : Bytes) :
    Sane (Download.after d ⟨unwritable env d.http r.head written, more, passed⟩ (first :: more)) := by
  refine ⟨?_, fun _ => unqueued, .atEnd rfl unqueued⟩
  change ∀ q ∈ (unwritable env d.http r.head written).renamed, _
  rw [unwritable_renamed]
  exact sane.complete

theorem begins_ready (sane : Sane d) (unqueued : d.queued = false) (awaiting : Awaiting d.http)
    (unsized : d.http.contentsize = -1) (first_read : d.seen = []) (answers : Answers d r)
    (small : r.head.bytes.length < 65536) (enough : r.head.bytes.length ≤ fuel)
    (room : ∀ i, r.bytes.length ≤ env.disk (i + 1)) (ready : Ready env (headed env d.http r.head))
    (fits : Fits r ((first :: more).map Read.data))
    (inside : ((first :: more).map Read.data).flatten <+: r.bytes)
    (nonempty : ∀ s ∈ (first :: more).map Read.data, s ≠ [])
    (returned : d.http.readyToRead env fuel (first :: more) = some p) :
    Sane (Download.after d p (first :: more)) := by
  have midway : Midway r [] (behindHead env d.http r.head) :=
    midway_behindHead awaiting unsized answers.accepted
  have renamed : (behindHead env d.http r.head).renamed = d.http.renamed := by
    rw [behindHead_frame]
    rfl
  have kept : ∃ c, (behindHead env d.http r.head).tempCache = some c ∧
      Kept r ([] : List Bytes).flatten c := by
    refine ⟨_, rfl, ⟨⟨env, d.http, [], unsized, rfl, ?_, ready.header⟩, room⟩⟩
    unfold Response.payload
    split <;> rfl
  rcases call_begins awaiting unsized answers.accepted small enough ready first more fits inside nonempty
    with ⟨call, behind⟩ | ⟨ps, passed, call, behind, goes⟩
  · obtain rfl := Option.some.inj (call.symm.trans returned)
    have seen : (Download.after d ⟨behindHead env d.http r.head, more, []⟩ (first :: more)).seen =
        [first.data] := by
      rw [Download.after, take_first, first_read]
      rfl
    refine ⟨?_, fun _ => unqueued,
      .midway r [] ⟨⟨answers.answer, answers.accepted, answers.wellFormed⟩, ?_, ?_, midway, kept⟩
        unqueued⟩
    · change ∀ q ∈ (behindHead env d.http r.head).renamed, _
      rw [renamed]
      exact sane.complete
    · rwa [seen]
    · rw [seen]
      intro s member
      exact nonempty s (by rw [List.mem_singleton.mp member]; exact List.mem_cons_self ..)
  · obtain rfl := Option.some.inj (call.symm.trans returned)
    rw [after_all, first_read, List.nil_append]
    exact continues_sane sane unqueued answers renamed kept goes behind nonempty

end Begins

theorem read_begins (sane : Sane d) (linked : d.http.backend.isSome) (waiting : Waiting d.http)
    (first_read : d.seen = []) {r : Response} (answers : Answers d r)
    (small : r.head.bytes.length < 65536) {env : Surroundings} {fuel : ℕ}
    (room : ∀ i, r.bytes.length ≤ env.disk (i + 1)) (fits : Fits r (reads.map Read.data))
    (inside : (reads.map Read.data).flatten <+: r.bytes)
    (nonempty : ∀ s ∈ reads.map Read.data, s ≠ [])
    (returned : d.http.readyToRead env fuel reads = some p) : Sane (Download.after d p reads) := by
  have awaiting := waiting.awaiting linked
  have unqueued := sane.free linked
  have result := Http.readyToRead_mono (le_max_left fuel r.head.bytes.length) returned
  have enough := le_max_right fuel r.head.bytes.length
  generalize max fuel r.head.bytes.length = n at result enough
  obtain ⟨first, more, start, rfl, stands⟩ : ∃ first more start, reads = first :: more ∧
      first.data = r.head.bytes ++ start := by
    obtain ⟨pieces, ⟨start, rest, stands, -⟩, -⟩ := fits
    obtain ⟨first, more, rfl⟩ := List.exists_cons_of_ne_nil (l := reads) (by rintro rfl; cases stands)
    exact ⟨first, more, start, rfl, (List.cons.inj stands).1⟩
  by_cases uncreated : env.created = false
  · have call := call_uncreated awaiting answers.accepted small enough uncreated first more start stands
    obtain rfl := Option.some.inj (call.symm.trans result)
    exact begins_uncreated sane unqueued awaiting answers.accepted
  · by_cases full : env.fieldsStored = false ∨
        env.disk 0 < (Http.header env (headed env d.http r.head)).length
    · obtain ⟨written, passed, call⟩ := call_unwritable awaiting waiting.once answers.accepted small
        enough (by simpa using uncreated) full first more start stands
      obtain rfl := Option.some.inj (call.symm.trans result)
      exact begins_unwritable sane unqueued written passed
    · obtain ⟨stored, header⟩ := not_or.mp full
      have once : (headed env d.http r.head).headerWriten = false := by
        rw [headed_frame]
        exact waiting.once
      exact begins_ready sane unqueued awaiting waiting.unsized first_read answers small enough room
        ⟨by simpa using uncreated, by simpa using stored, once, not_lt.mp header⟩ fits inside nonempty
        result

theorem read_sane (sane : Sane d) (offers : d.Offers reads) {env : Surroundings} {fuel : ℕ}
    (fit : ReadsFit env d (reads.map Read.data))
    (returned : d.http.readyToRead env fuel reads = some p) : Sane (Download.after d p reads) := by
  obtain ⟨linked, valid, nonempty, inside⟩ := offers
  by_cases none_read : reads = []
  · subst none_read
    obtain rfl := Option.some.inj ((readyToRead_nothing env fuel d.http).symm.trans returned)
    rw [after_all, List.map_nil, List.append_nil]
    exact sane
  have filled : ∀ s ∈ reads.map Read.data, s ≠ [] := by
    intro s member
    obtain ⟨r, here, rfl⟩ := List.mem_map.mp member
    exact nonempty r here
  cases sane.stage with
  | sunk answered body unstored going nothing =>
    exact read_sunk sane linked answered body unstored going nothing returned
  | atEnd gone _ =>
    rw [gone] at linked
    cases linked
  | waiting waiting first_read =>
    rcases fit with none_left | ⟨body, -⟩ | ⟨-, -, first, first_data, refused⟩ |
      ⟨r, answers, small, fits, fresh⟩
    · exact absurd (List.map_eq_nil_iff.mp none_left) none_read
    · rw [waiting.fresh] at body
      cases body
    · obtain ⟨w, more, rfl⟩ := List.exists_cons_of_ne_nil none_read
      obtain rfl : w.data = first := Option.some.inj first_data
      exact read_refused sane linked waiting refused returned
    · rw [first_read, List.nil_append] at fits
      rw [first_read, answers.answer, List.flatten_nil, List.nil_append, List.flatMap_def] at inside
      exact read_begins sane linked waiting first_read answers small (fresh first_read).2 fits inside
        filled returned
  | midway r pieces underway unqueued =>
    have begun : d.seen ≠ [] := by
      obtain ⟨start, rest, stands, -⟩ := underway.behind
      rw [stands]
      exact List.cons_ne_nil _ _
    rcases fit with none_left | ⟨-, unstored⟩ | ⟨first_read, -⟩ | ⟨r', answers, small, fits, -⟩
    · exact absurd (List.map_eq_nil_iff.mp none_left) none_read
    · have stored := underway.midway.stored
      rw [unstored] at stored
      cases stored
    · exact absurd first_read begun
    · obtain rfl : r = r' :=
        Served.response.inj (Option.some.inj (underway.answer.symm.trans answers.answer))
      rw [answers.answer, List.flatMap_def, ← List.flatten_append] at inside
      refine read_midway sane unqueued underway none_read fits inside ?_ returned
      intro s member
      rcases List.mem_append.mp member with before | now
      · exact underway.filled s before
      · exact filled s now
  | cut answered stored unqueued idle =>
    rcases fit with none_left | ⟨-, unstored⟩ | ⟨-, unread, -⟩ | ⟨r, -, -, -, fresh⟩
    · exact absurd (List.map_eq_nil_iff.mp none_left) none_read
    · rw [unstored] at stored
      cases stored
    · exact absurd unread answered
    · rcases idle with first_read | invalid | gone
      · exact absurd (fresh first_read).1 answered
      · rw [valid] at invalid
        cases invalid
      · rw [gone] at linked
        cases linked

end Reads

section Events

variable {d : Download}

theorem Stage.edited (stage : Stage d) (left : List ClientId) (cachePath contenttype kept : Bytes)
    (nothing : d.http.headerBuff = [] → kept = []) (valid : Bool)
    (invalid : d.isValid = false → valid = false) :
    Stage { d with
      http := { d.http with
        clientsList := left, cachePath := cachePath, contenttype := contenttype, headerBuff := kept }
      isValid := valid } := by
  cases stage with
  | waiting w first_read =>
    exact .waiting ⟨⟨w.going, w.unread, w.fresh, nothing w.nothing, w.unsized, w.unwritten,
      w.chunkLength, w.chunkHeader⟩, w.unstored, w.once⟩ first_read
  | midway r pieces underway unqueued =>
    have m := underway.midway
    exact .midway r pieces
      ⟨⟨underway.answer, underway.accepted, underway.wellFormed⟩, underway.behind, underway.filled,
        ⟨⟨m.reading.going, m.reading.linked, m.reading.body, nothing m.reading.nothing⟩, m.stored,
          m.answered, m.announced, m.connected, m.counted, m.decoded⟩, underway.kept⟩ unqueued
  | sunk answered body unstored going empty => exact .sunk answered body unstored going (nothing empty)
  | cut answered stored unqueued idle =>
    exact .cut answered stored unqueued (idle.imp_right (Or.imp_left invalid))
  | atEnd gone unqueued => exact .atEnd gone unqueued

theorem ended_sane (sane : Sane d) {h : Http} (renamed : h.renamed = d.http.renamed)
    (nothing : h.tempCache = none ∨ h.cachePath = []) : Sane (d.disconnectBackend h) := by
  refine ⟨fun q member => sane.complete q ?_, nofun, .atEnd rfl rfl⟩
  rw [← renamed]
  exact renamed_nothing nothing member

theorem complete_served (sane : Sane d) (answer : Served) :
    ∀ q ∈ d.http.renamed, ∃ a ∈ answer :: d.served, Complete q.2 a := by
  intro q member
  obtain ⟨a, served, complete⟩ := sane.complete q member
  exact ⟨a, List.mem_cons_of_mem _ served, complete⟩

theorem serve_sane (sane : Sane d) (queued : d.queued = true) (b : Backend) (answer : Served) :
    Sane (d.connect b answer) := by
  have stage : ∀ g : Download, g.http = { d.http with backend := some b, requestSended := g.http.requestSended } →
      (d.seen = [] → g.seen = []) → Stage g := by
    intro g http first_read
    cases sane.stage with
    | waiting w fresh =>
      refine .waiting ?_ (first_read fresh)
      rw [http]
      exact ⟨w.toUnanswered.congr rfl rfl rfl rfl rfl rfl rfl rfl, w.unstored, w.once⟩
    | midway _ _ _ unqueued => simp [queued] at unqueued
    | sunk answered body unstored going nothing =>
      refine .sunk ?_ ?_ ?_ ?_ ?_
      all_goals
        rw [http]
        assumption
    | cut _ _ unqueued _ => simp [queued] at unqueued
    | atEnd _ unqueued => simp [queued] at unqueued
  unfold Download.connect
  split
  · rename_i sent
    exact ⟨sane.complete, fun _ => rfl, stage _ rfl id⟩
  · exact ⟨complete_served sane answer, fun _ => rfl, stage _ rfl fun _ => rfl⟩

theorem reset_answered {h : Http} (answered : h.http_code ≠ 0) : h.resetRequestSended = h :=
  if_pos answered

/-- The loss of a connection sends a request again that has no answer, and cuts
one that has. -/
theorem closed_stage (stage : Stage d) (linked : d.http.backend.isSome) {g : Download}
    (http : g.http = { d.http.resetRequestSended with
      requestSended := g.http.requestSended, backend := g.http.backend })
    (unread : g.seen = [] ∨ (g.seen = d.seen ∧ g.isValid = false)) (unqueued : g.queued = false) :
    Stage g := by
  cases stage with
  | waiting w first_read =>
    refine .waiting ?_ (unread.elim id fun same => same.1.trans first_read)
    rw [http, Http.resetRequestSended, if_neg (by simp [w.unread])]
    exact ⟨⟨w.going, w.unread, rfl, w.nothing, rfl, rfl, rfl, w.chunkHeader⟩, w.unstored, w.once⟩
  | midway r pieces underway _ =>
    rw [reset_answered underway.midway.answered] at http
    refine .cut ?_ ?_ unqueued (unread.imp_right fun same => .inl same.2)
    · rw [http]
      exact underway.midway.answered
    · rw [http]
      exact underway.midway.stored
  | sunk answered body unstored going nothing =>
    rw [reset_answered answered] at http
    refine .sunk ?_ ?_ ?_ ?_ ?_
    all_goals
      rw [http]
      assumption
  | cut answered stored _ _ =>
    rw [reset_answered answered] at http
    refine .cut ?_ ?_ unqueued (unread.imp_right fun same => .inl same.2)
    all_goals
      rw [http]
      assumption
  | atEnd gone _ =>
    rw [gone] at linked
    cases linked

theorem reset_renamed (h : Http) : h.resetRequestSended.renamed = h.renamed := by
  unfold Http.resetRequestSended
  split <;> rfl

theorem closed_sane (sane : Sane d) (linked : d.http.backend.isSome) (b : Backend)
    (next : Option (Backend × Served)) : Sane (d.remoteSocketClosed b next) := by
  have unqueued := sane.free linked
  have renamed := reset_renamed d.http
  unfold Download.remoteSocketClosed
  split
  · cases next with
    | none =>
      refine ⟨?_, fun _ => unqueued, closed_stage sane.stage linked rfl (.inr ⟨rfl, rfl⟩) unqueued⟩
      change ∀ q ∈ d.http.resetRequestSended.renamed, _
      rw [renamed]
      exact sane.complete
    | some target =>
      refine ⟨?_, fun _ => rfl, closed_stage sane.stage linked rfl (.inl rfl) rfl⟩
      change ∀ q ∈ d.http.resetRequestSended.renamed, ∃ a ∈ target.2 :: d.served, _
      rw [renamed]
      exact complete_served sane target.2
  · refine ⟨?_, nofun, closed_stage sane.stage linked rfl (.inr ⟨rfl, rfl⟩) unqueued⟩
    change ∀ q ∈ d.http.resetRequestSended.renamed, _
    rw [renamed]
    exact sane.complete

theorem next_sane (sane : Sane d) {e : Event} (sound : Sound e d) {d' : Download}
    (step : d.next e = some d') : Sane d' := by
  cases e with
  | clients left =>
    obtain rfl := Option.some.inj step
    exact ⟨sane.complete, sane.free, sane.stage.edited left _ _ _ id _ id⟩
  | serve b answer =>
    obtain ⟨waits, rfl⟩ := Download.next_serve step
    exact serve_sane sane (Bool.and_eq_true_iff.mp waits).1 b answer
  | readyToRead env fuel reads =>
    obtain ⟨offers, p, returned, rfl⟩ := Download.next_readyToRead step
    exact read_sane sane offers sound returned
  | remoteSocketClosed next =>
    obtain ⟨b, linked, rfl⟩ := Option.map_eq_some_iff.mp step
    exact closed_sane sane (by rw [linked]; rfl) b next
  | httpTimeout =>
    obtain rfl := Option.some.inj step
    unfold Download.httpTimeout
    split
    · rename_i linked
      exact ⟨sane.complete, sane.free, sane.stage.edited [] _ _ _ (fun _ => rfl) _ fun _ => rfl⟩
    · rename_i gone
      exact ended_sane sane rfl (sound.resolve_left gone)
  | backendTimeout =>
    obtain ⟨b, -, rfl⟩ := Option.map_eq_some_iff.mp step
    exact ended_sane sane rfl (.inr rfl)
  | connectProblem dismissed =>
    obtain ⟨-, rfl⟩ := Download.next_connectProblem step
    cases dismissed with
    | true => exact ended_sane sane rfl (.inr rfl)
    | false => exact ⟨sane.complete, sane.free, sane.stage.edited [] _ _ _ (fun _ => rfl) _ id⟩
  | notAlive =>
    obtain ⟨-, rfl⟩ := Download.next_notAlive step
    exact ended_sane sane rfl sound
  | deleted =>
    obtain rfl := Option.some.inj step
    exact ended_sane sane rfl (.inl rfl)

end Events

theorem created_sane (cachefd : Bool) (cachePath host uri etag : Bytes) (queued : Bool) :
    Sane { Download.created cachefd cachePath host uri etag with queued := queued } := by
  have unanswered := unanswered_new cachefd cachePath
  have nothing : ∀ q ∈ ([] : List (Bytes × Cache)), ∃ a ∈ ([] : List Served), Complete q.2 a := by simp
  exact ⟨nothing, nofun,
    .waiting ⟨unanswered.congr rfl rfl rfl rfl rfl rfl rfl rfl, rfl, rfl⟩ rfl⟩

theorem initial_sane {d : Download} (initial : Download.Initial d) : Sane d := by
  obtain ⟨cachefd, cachePath, host, uri, etag, rfl | rfl | ⟨b, answer, rfl⟩⟩ := initial
  · exact created_sane cachefd cachePath host uri etag false
  · exact created_sane cachefd cachePath host uri etag true
  · exact serve_sane (created_sane cachefd cachePath host uri etag true) rfl b answer

/-- In a run whose steps are all sound, every file renamed into the cache is
complete. -/
theorem only_complete_bodies_are_committed {d : Download}
    (reached : Reach Download.Step Sound Download.Initial d) :
    ∀ q ∈ d.http.renamed, ∃ answer ∈ d.served, Complete q.2 answer := by
  have sane : Sane d :=
    reached.invariant (fun _ => initial_sane) fun _ _ _ sane sound step => next_sane sane sound step
  exact sane.complete

def answeredHello : Download :=
  (Download.created false (ascii "cache/0") (ascii "a") (ascii "/") []).connect ⟨false⟩ (.response hello)

theorem initial_answeredHello : Download.Initial answeredHello :=
  ⟨_, _, _, _, _, .inr (.inr ⟨_, _, rfl⟩)⟩

set_option maxRecDepth 4096 in
theorem whole_answer_is_committed : ∃ d, Reach Download.Step Sound Download.Initial d ∧
    d.http.renamed ≠ [] ∧ ∀ q ∈ d.http.renamed, ∃ answer ∈ d.served, Complete q.2 answer := by
  let reads := [received hello.bytes]
  have run : (answeredHello.next (.readyToRead roomy 100 reads)).map
      (fun d => d.http.renamed.isEmpty) = some false := by
    decide
  obtain ⟨d, taken, committed⟩ := Option.map_eq_some_iff.mp run
  have accepted : hello.ok := by
    change Common.atoi16 fiveBytes.code = 200
    decide
  have room : hello.bytes.length ≤ 4096 := by decide
  have fit : Sound (.readyToRead roomy 100 reads) answeredHello :=
    .inr (.inr (.inr ⟨hello, ⟨rfl, accepted, ascii "hello", rfl⟩, by decide,
      ⟨_, ⟨ascii "hello", [], rfl, rfl⟩, nofun⟩, fun _ => ⟨rfl, fun _ => room⟩⟩))
  have reached : Reach Download.Step Sound Download.Initial d :=
    .next (.start initial_answeredHello) fit taken
  refine ⟨d, reached, ?_, only_complete_bodies_are_committed reached⟩
  intro none_committed
  rw [none_committed] at committed
  cases committed

theorem complete_length {c : Cache} {r : Response} {n : ℕ} (sized : r.contentLength = some n)
    (complete : Complete c (.response r)) :
    c.content.length = (c.writes.head?.getD []).length + n := by
  obtain ⟨r', payload, env, h, same, -, data, -, header, content⟩ := complete
  obtain rfl := Served.response.inj same
  rw [Data, if_neg (by simp [sized])] at data
  rw [content, header, data, List.length_append, r.framed n sized]
  rfl

def declares (length : ℕ) : Served → Bool
  | .response r => r.contentLength = some length
  | .other _ => false

set_option maxRecDepth 4096 in
/-- A connection is lost behind two bytes of the body. The request is sent again,
and all of its answer is stored behind these two bytes. -/
theorem answer_to_resent_request_is_stored_as_body : ∃ d,
    Reach Download.Step anyStep Download.Initial d ∧
    ∃ q ∈ d.http.renamed, ∀ answer ∈ d.served, ¬Complete q.2 answer := by
  have run : (follow (fun e (d : Download) => d.next e)
      [.readyToRead roomy 100 [received (fiveBytes.bytes ++ ascii "he")],
        .remoteSocketClosed (some (⟨true⟩, .response hello)),
        .readyToRead roomy 100 [received hello.bytes]] answeredHello).map
      (fun d => (d.http.renamed.any fun q =>
          q.2.content.length ≠ (q.2.writes.head?.getD []).length + 5,
        d.served.all (declares 5))) = some (true, true) := by
    decide
  obtain ⟨d, followed, facts⟩ := Option.map_eq_some_iff.mp run
  refine ⟨d, reach_follow _ (.start initial_answeredHello) followed, ?_⟩
  obtain ⟨q, member, longer⟩ := List.any_eq_true.mp (congrArg Prod.fst facts)
  refine ⟨q, member, ?_⟩
  intro answer served complete
  have sized := List.all_eq_true.mp (congrArg Prod.snd facts) answer served
  cases answer with
  | response r => exact absurd (complete_length (by simpa [declares] using sized) complete) (by simpa using longer)
  | other bytes => cases sized

end FastCgiCdn.DownloadCommits
