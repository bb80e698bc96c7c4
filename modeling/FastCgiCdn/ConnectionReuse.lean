import FastCgiCdn.ConnectionModel

/-! When a connection changes hands: under reads that fit the response, nothing
of an answer is left on the connection when it is made idle or given to the next
request, so every request is answered by its own response. -/

namespace FastCgiCdn.ConnectionReuse

open HttpModel HeadReading BodyReading HeadCuts ChunkCuts ResponseReading ConnectionModel GuardedRuns

structure Fresh (h : Http) : Prop extends Unanswered h where
  unsent : h.requestSended = false

theorem Fresh.awaiting {h : Http} (fresh : Fresh h) (b : Backend) :
    Awaiting { h with backend := some b, requestSended := true } :=
  Unanswered.awaiting (fresh.toUnanswered.congr rfl rfl rfl rfl rfl rfl rfl rfl) rfl

theorem Fresh.clients {h : Http} (fresh : Fresh h) (left : List ClientId) :
    Fresh { h with clientsList := left } :=
  ⟨fresh.toUnanswered.congr rfl rfl rfl rfl rfl rfl rfl rfl, fresh.unsent⟩

/-- The reads of a call that the code gets right: none, the whole response in
one, any for a download that stores nothing, or those of an accepted answer
whose head comes whole and whose body is cut where it may be. -/
def ReadsFit (env : Surroundings) (h : Http) (r : Response) (seen reads : List Bytes) : Prop :=
  reads = [] ∨ seen ++ reads = [r.bytes] ∨ (h.parsing = .content ∧ h.tempCache = none) ∨
    (r.ok ∧ r.head.bytes.length < 65536 ∧ Fits r (seen ++ reads) ∧
      (seen = [] → env.created = false ∨ Ready env (headed env h r.head)))

/-- Nothing of an answer is on its way, or the connection never had one. -/
def MayEnd (c : Connection) : Prop :=
  c.unread = [] ∨ ∀ h ∈ c.http, h.backend = some ⟨false⟩

def Sound (answer : ℕ → Response) : Event → Connection → Prop
  | .arrive h, _ => Fresh h
  | .readyToRead env _ reads, c => ∀ h ∈ c.http,
      ReadsFit env h (answer (c.sent - 1)) c.seen (reads.map Read.data)
  | .backendTimeout, c => MayEnd c
  | .notAlive, c => MayEnd c
  | _, _ => True

/-- How far the download of a response is. -/
inductive Stage (r : Response) (seen : List Bytes) (h : Http) : Prop
  | awaiting : seen = [] → Awaiting h → h.contentsize = -1 → Stage r seen h
  | midway (pieces : List Bytes) : Behind r seen pieces → Midway r pieces.flatten h → Stage r seen h
  | sunk : Sunk h → Stage r seen h

def Held (answer : ℕ → Response) (c : Connection) (h : Http) : Prop :=
  ∃ rest, c.unread = tagged (c.sent - 1) rest ∧
    c.seen.flatten ++ rest = (answer (c.sent - 1)).bytes ∧ (∀ d ∈ c.seen, d ≠ []) ∧
    Stage (answer (c.sent - 1)) c.seen h

structure Core (c : Connection) : Prop where
  own : ∀ q ∈ c.parsed, q.1 = q.2
  whole : ∀ left ∈ c.handedOver, left = []
  queued : ∀ h ∈ c.pending, Fresh h

structure Clean (answer : ℕ → Response) (c : Connection) : Prop extends Core c where
  idle : c.http = none → c.isValid → c.unread = []
  linked : ∀ h ∈ c.http, h.backend.isSome
  attached : ∀ h ∈ c.http, c.isValid → c.unread = [] ∨ Held answer c h

theorem Stage.clients {r : Response} {seen : List Bytes} {h : Http} (stage : Stage r seen h)
    (left : List ClientId) : Stage r seen { h with clientsList := left } := by
  cases stage with
  | awaiting first a unsized =>
    exact .awaiting first ⟨a.linked, a.going, a.unread, a.fresh, a.nothing, a.unwritten,
      a.chunkLength, a.chunkHeader⟩ unsized
  | midway pieces behind m =>
    exact .midway pieces behind ⟨⟨m.reading.going, m.reading.linked, m.reading.body,
      m.reading.nothing⟩, m.stored, m.answered, m.announced, m.connected, m.counted, m.decoded⟩
  | sunk s =>
    exact .sunk ⟨⟨s.reading.going, s.reading.linked, s.reading.body, s.reading.nothing⟩, s.unstored⟩

section HandOver

variable {answer : ℕ → Response} {c : Connection}

theorem attach_clean (core : Core c) (empty : c.unread = []) {h : Http} (fresh : Fresh h) :
    Clean answer (c.attach answer h) := by
  have sent : (c.attach answer h) = { c with
      http := some { h with backend := some c.backend, requestSended := true }
      sent := c.sent + 1
      unread := c.unread ++ tagged c.sent (answer c.sent).bytes
      seen := [] } := by
    rw [Connection.attach, Connection.readyToWrite, if_neg (by simp [fresh.unsent])]
  rw [sent]
  refine ⟨⟨core.own, core.whole, core.queued⟩, nofun, ?_, ?_⟩
  · intro g held
    rw [← Option.some.inj held]
    rfl
  · intro g held _
    rw [← Option.some.inj held]
    right
    refine ⟨(answer c.sent).bytes, ?_, rfl, by simp, .awaiting rfl (fresh.awaiting _) fresh.unsized⟩
    rw [empty]
    rfl

theorem serveNext_clean (core : Core c) (empty : c.unread = []) :
    Clean answer (c.serveNext answer) := by
  have rest : ∀ h ∈ c.pending.dropWhile (!·.haveUrlAndFrontendConnected), Fresh h := fun h member =>
    core.queued h ((List.dropWhile_suffix _).subset member)
  have ended : ∀ left ∈ c.handedOver ++ [c.unread], left = [] := by
    intro left member
    rcases List.mem_append.mp member with before | now
    · exact core.whole left before
    · rw [List.mem_singleton.mp now, empty]
  unfold Connection.serveNext
  split
  · rename_i h later served
    rw [served] at rest
    apply attach_clean
    · exact ⟨core.own, ended, fun g member => rest g (List.mem_cons_of_mem _ member)⟩
    · exact empty
    · exact rest h (List.mem_cons_self ..)
  · have logged : ∀ left ∈ (if c.isValid then c.handedOver ++ [c.unread] else c.handedOver), left = [] := by
      split
      · exact ended
      · exact core.whole
    exact ⟨⟨core.own, logged, by simp⟩, fun _ _ => empty, by simp, by simp⟩

theorem settle_clean (core : Core c) (h : Http)
    (attached : h.backend.isSome → c.isValid → c.unread = [] ∨ Held answer c h)
    (ended : h.backend = none → c.unread = [] ∨
      (h.finished.getD c.backend).wasTCPConnected = false) :
    Clean answer (c.settle answer h) := by
  unfold Connection.settle
  split
  · rename_i linked
    refine ⟨⟨core.own, core.whole, core.queued⟩, nofun, ?_, ?_⟩
    · intro g held
      rwa [← Option.some.inj held]
    · intro g held
      rw [← Option.some.inj held]
      exact attached linked
  · rename_i gone
    unfold Connection.downloadFinished
    split
    · rename_i connected
      apply serveNext_clean
      · exact ⟨core.own, core.whole, core.queued⟩
      rcases ended (by simpa using gone) with empty | never
      · exact empty
      · rw [never] at connected
        cases connected
    · exact ⟨⟨core.own, core.whole, core.queued⟩, by simp, by simp, by simp⟩

theorem settle_ended (clean : Clean answer c) (mayEnd : MayEnd c) {h : Http} (held : c.http = some h)
    (g : Http) (gone : g.backend = none) (given : g.finished = h.backend.or h.finished) :
    Clean answer (c.settle answer g) := by
  have linked := clean.linked h held
  refine settle_clean clean.toCore g (fun some_backend => ?_) fun _ => ?_
  · rw [gone] at some_backend
    cases some_backend
  · rcases mayEnd with empty | never
    · exact .inl empty
    · right
      rw [given, never h held]
      rfl

end HandOver

section Reading

variable {answer : ℕ → Response} {c : Connection} {h : Http}

theorem consume_core (core : Core c) {rest : Bytes} (rests : c.unread = tagged (c.sent - 1) rest)
    (taken : List Read) : Core (c.consume taken) := by
  refine ⟨?_, core.whole, core.queued⟩
  intro q member
  rcases List.mem_append.mp member with before | now
  · exact core.own q before
  · obtain ⟨t, inside, rfl⟩ := List.mem_map.mp now
    rw [rests] at inside
    obtain ⟨b, -, rfl⟩ := List.mem_map.mp (List.mem_of_mem_take inside)
    rfl

theorem consume_unread {rest : Bytes} (rests : c.unread = tagged (c.sent - 1) rest)
    (taken : List Read) (offered : taken.flatMap Read.data <+: rest) : ∃ rest',
    (c.consume taken).unread = tagged (c.sent - 1) rest' ∧
      rest = taken.flatMap Read.data ++ rest' := by
  obtain ⟨rest', rfl⟩ := offered
  refine ⟨rest', ?_, rfl⟩
  rw [Connection.consume, rests, tagged, List.map_append, ← List.length_map, List.drop_left]
  rfl

theorem consume_nil : c.consume [] = c := by
  simp [Connection.consume]

theorem nothing_read (env : Surroundings) (fuel : ℕ) (clean : Clean answer c) (held : c.http = some h)
    {d : Connection} (taken : c.read answer env fuel [] = some d) : Clean answer d := by
  have alone : c.Offers [] → some d = some (c.settle answer h) := by
    intro offers
    rw [← taken, Connection.read, if_pos offers, held]
    simp only
    rw [readyToRead_nothing, Option.map_some]
    exact congrArg (fun k : Connection => some (k.settle answer h)) consume_nil
  have offers : c.Offers [] := by
    by_contra refused
    rw [Connection.read, if_neg refused] at taken
    cases taken
  obtain rfl := Option.some.inj (alone offers)
  have linked := clean.linked h held
  exact settle_clean clean.toCore h (fun _ => clean.attached h held) fun gone => by simp [gone] at linked

def Outcome (r : Response) (cuts : List Bytes) (g : Http) : Prop :=
  g.backend.isSome ∧ Stage r cuts g ∨ cuts.flatten = r.bytes

theorem settle_outcome (core : Core c) {rest : Bytes} (rests : c.unread = tagged (c.sent - 1) rest)
    (whole : c.seen.flatten ++ rest = (answer (c.sent - 1)).bytes) (filled : ∀ d ∈ c.seen, d ≠ [])
    {taken : List Read} (offered : taken.flatMap Read.data <+: rest)
    (nonempty : ∀ r ∈ taken, r.data ≠ []) {g : Http}
    (outcome : Outcome (answer (c.sent - 1)) (c.seen ++ taken.map Read.data) g) :
    Clean answer ((c.consume taken).settle answer g) := by
  obtain ⟨rest', unread, rfl⟩ := consume_unread rests taken offered
  have total : (c.seen ++ taken.map Read.data).flatten ++ rest' = (answer (c.sent - 1)).bytes := by
    rw [← whole, List.flatten_append, List.flatMap_def, List.append_assoc]
  apply settle_clean (consume_core core rests taken)
  · intro linked _
    rcases outcome with ⟨-, stage⟩ | exhausted
    · right
      refine ⟨rest', unread, total, ?_, stage⟩
      intro d member
      rcases List.mem_append.mp member with before | now
      · exact filled d before
      · obtain ⟨r, here, rfl⟩ := List.mem_map.mp now
        exact nonempty r here
    · left
      rw [exhausted] at total
      rw [unread, List.append_right_eq_self.mp total]
      rfl
  · intro gone
    left
    rcases outcome with ⟨linked, -⟩ | exhausted
    · simp [gone] at linked
    · rw [exhausted] at total
      rw [unread, List.append_right_eq_self.mp total]
      rfl

theorem outcome_continues {r : Response} {cuts before : List Bytes} {ps : List Piece}
    (behind : Behind r cuts (before ++ ps.map Piece.data)) (goes : Continues r h before ps) :
    Outcome r cuts (writes h ps) := by
  obtain ⟨-, v, part, received, -, ended, still⟩ := goes
  cases detected : v.endDetected with
  | true =>
    right
    rw [behind.flatten, ended detected]
    rfl
  | false =>
    have midway := still detected
    exact .inl ⟨by rw [midway.connected]; rfl, .midway _ behind midway⟩

theorem begins_outcome {env : Surroundings} {fuel : ℕ} {r : Response} (awaiting : Awaiting h)
    (unsized : h.contentsize = -1) (accepted : r.ok) (small : r.head.bytes.length < 65536)
    (taken : env.created = false ∨ Ready env (headed env h r.head)) {reads : List Read}
    (fits : Fits r (reads.map Read.data)) (inside : (reads.map Read.data).flatten <+: r.bytes)
    (nonempty : ∀ d ∈ reads.map Read.data, d ≠ []) {p : Http.Progress}
    (returned : h.readyToRead env fuel reads = some p) :
    Outcome r ((reads.take (reads.length - p.unread.length)).map Read.data) p.http := by
  have enough := le_max_right fuel r.head.bytes.length
  have result := Http.readyToRead_mono (le_max_left fuel r.head.bytes.length) returned
  obtain ⟨first, more, rfl⟩ : ∃ first more, reads = first :: more := by
    obtain ⟨pieces, ⟨start, rest, stands, -⟩, -⟩ := fits
    exact List.exists_cons_of_ne_nil (by rintro rfl; cases stands)
  rcases taken with uncreated | ready
  · obtain ⟨pieces, ⟨start, rest, stands, -⟩, -⟩ := fits
    have call := call_uncreated awaiting accepted small enough uncreated first more start
      (List.cons.inj stands).1
    obtain rfl := Option.some.inj (call.symm.trans result)
    have sunk : Sunk (unstored env h r.head) := sunk_unstored awaiting r.head
    exact .inl ⟨sunk.reading.linked, .sunk sunk⟩
  · have midway : Midway r [] (behindHead env h r.head) := midway_behindHead awaiting unsized accepted
    rcases call_begins awaiting unsized accepted small enough ready first more fits inside nonempty
      with ⟨call, behind⟩ | ⟨ps, passed, call, behind, goes⟩
    · obtain rfl := Option.some.inj (call.symm.trans result)
      simp only [take_first]
      exact .inl ⟨by rw [midway.connected]; rfl, .midway [] behind midway⟩
    · obtain rfl := Option.some.inj (call.symm.trans result)
      rw [List.length_nil, Nat.sub_zero, List.take_length]
      exact outcome_continues behind goes

theorem read_outcome {env : Surroundings} {fuel : ℕ} {r : Response} {seen : List Bytes}
    (linked : h.backend.isSome) (stage : Stage r seen h) {reads : List Read} (some_read : reads ≠ [])
    (fit : ReadsFit env h r seen (reads.map Read.data))
    (inside : (seen ++ reads.map Read.data).flatten <+: r.bytes)
    (nonempty : ∀ d ∈ seen ++ reads.map Read.data, d ≠ []) {p : Http.Progress}
    (returned : h.readyToRead env fuel reads = some p) :
    Outcome r (seen ++ (reads.take (reads.length - p.unread.length)).map Read.data) p.http := by
  have sinks (sunk : Sunk h) :
      Outcome r (seen ++ (reads.take (reads.length - p.unread.length)).map Read.data) p.http := by
    obtain rfl := Option.some.inj ((call_sunk sunk reads).symm.trans returned)
    exact .inl ⟨linked, .sunk sunk⟩
  rcases fit with none_read | single | ⟨body, unstored⟩ | ⟨accepted, small, fits, taken⟩
  · exact absurd (List.map_eq_nil_iff.mp none_read) some_read
  · have alone : seen = [] ∧ reads.map Read.data = [r.bytes] := by
      cases seen with
      | nil => exact ⟨rfl, single⟩
      | cons d seen =>
        have atEnd := (List.cons.inj single).2
        exact absurd (List.map_eq_nil_iff.mp (List.append_eq_nil_iff.mp atEnd).2) some_read
    obtain ⟨rfl, only⟩ := alone
    obtain ⟨w, rfl, whole⟩ := List.map_eq_singleton_iff.mp only
    right
    rw [Http.unread_single linked returned]
    simpa using whole
  · cases stage with
    | awaiting _ awaiting _ =>
      rw [awaiting.fresh] at body
      cases body
    | midway _ _ midway =>
      have stored := midway.stored
      simp [unstored] at stored
    | sunk sunk => exact sinks sunk
  · cases stage with
    | awaiting first awaiting unsized =>
      obtain rfl := first
      exact begins_outcome awaiting unsized accepted small (taken rfl) fits inside nonempty returned
    | midway pieces behind midway =>
      obtain ⟨call, behind', goes⟩ := call_midway env fuel behind midway reads some_read fits inside
        nonempty
      obtain rfl := Option.some.inj (call.symm.trans returned)
      rw [List.length_nil, Nat.sub_zero, List.take_length]
      exact outcome_continues behind' goes
    | sunk sunk => exact sinks sunk

theorem front_of_take (n : ℕ) (reads : List Read) :
    (reads.take n).flatMap Read.data <+: reads.flatMap Read.data :=
  ⟨(reads.drop n).flatMap Read.data, by rw [← List.flatMap_append, List.take_append_drop]⟩

theorem tagged_snd (k : ℕ) (bytes : Bytes) : (tagged k bytes).map Prod.snd = bytes := by
  rw [tagged, List.map_map]
  exact List.map_id bytes

theorem read_clean (clean : Clean answer c) (held : c.http = some h) {env : Surroundings} {fuel : ℕ}
    {reads : List Read} (fit : ReadsFit env h (answer (c.sent - 1)) c.seen (reads.map Read.data))
    {d : Connection} (taken : c.read answer env fuel reads = some d) : Clean answer d := by
  by_cases none_read : reads = []
  · rw [none_read] at taken
    exact nothing_read env fuel clean held taken
  · unfold Connection.read at taken
    split at taken
    · rename_i offers
      rw [held] at taken
      obtain ⟨p, returned, rfl⟩ := Option.map_eq_some_iff.mp taken
      obtain ⟨valid, nonempty, offered⟩ := offers
      rcases clean.attached h held valid with empty | ⟨rest, rests, whole, filled, stage⟩
      · obtain ⟨r, more, rfl⟩ := List.exists_cons_of_ne_nil none_read
        rw [empty] at offered
        have nothing := List.prefix_nil.mp offered
        exact absurd (List.append_eq_nil_iff.mp nothing).1 (nonempty r (List.mem_cons_self ..))
      · rw [rests, tagged_snd] at offered
        have inside : (c.seen ++ reads.map Read.data).flatten <+: (answer (c.sent - 1)).bytes := by
          rw [List.flatten_append, ← List.flatMap_def, ← whole]
          exact (List.prefix_append_right_inj _).mpr offered
        have all_filled : ∀ d ∈ c.seen ++ reads.map Read.data, d ≠ [] := by
          intro d member
          rcases List.mem_append.mp member with before | now
          · exact filled d before
          · obtain ⟨r, here, rfl⟩ := List.mem_map.mp now
            exact nonempty r here
        apply settle_outcome clean.toCore rests whole filled ((front_of_take _ reads).trans offered)
        · exact fun r member => nonempty r (List.mem_of_mem_take member)
        · exact read_outcome (clean.linked h held) stage none_read fit inside all_filled returned
    · cases taken

end Reading

section Runs

variable {answer : ℕ → Response} {c d : Connection}

theorem arrive_clean (clean : Clean answer c) {h : Http} (fresh : Fresh h)
    (taken : c.arrive answer h = some d) : Clean answer d := by
  unfold Connection.arrive at taken
  split at taken
  · rename_i g held
    obtain rfl := Option.some.inj taken
    refine ⟨⟨clean.own, clean.whole, ?_⟩, clean.idle, clean.linked, clean.attached⟩
    intro q member
    rcases List.mem_append.mp member with before | now
    · exact clean.queued q before
    · rwa [List.mem_singleton.mp now]
  · rename_i free
    split at taken
    · rename_i valid
      obtain rfl := Option.some.inj taken
      exact attach_clean clean.toCore (clean.idle free valid) fresh
    · cases taken

theorem clients_clean (clean : Clean answer c) (left : List ClientId) :
    Clean answer { c with http := c.http.map ({ · with clientsList := left }) } := by
  refine ⟨⟨clean.own, clean.whole, clean.queued⟩, fun free => ?_, ?_, ?_⟩
  · exact clean.idle (Option.map_eq_none_iff.mp free)
  · intro g member
    obtain ⟨h, held, rfl⟩ := Option.map_eq_some_iff.mp member
    exact clean.linked h held
  · intro g member valid
    obtain ⟨h, held, rfl⟩ := Option.map_eq_some_iff.mp member
    rcases clean.attached h held valid with empty | ⟨rest, rests, whole, filled, stage⟩
    · exact .inl empty
    · exact .inr ⟨rest, rests, whole, filled, stage.clients left⟩

theorem queued_clean (clean : Clean answer c) {queue : List Http} (fresh : ∀ h ∈ queue, Fresh h) :
    Clean answer { c with pending := queue } :=
  ⟨⟨clean.own, clean.whole, fresh⟩, clean.idle, clean.linked, clean.attached⟩

theorem closed_clean {http : Option Http} (core : Core c) (linked : ∀ h ∈ http, h.backend.isSome) :
    Clean answer { c with http := http, isValid := false } :=
  ⟨⟨core.own, core.whole, core.queued⟩, fun _ valid => absurd valid Bool.false_ne_true, linked,
    fun _ _ valid => absurd valid Bool.false_ne_true⟩

theorem next_clean (clean : Clean answer c) {e : Event} (sound : Sound answer e c)
    (taken : c.next answer e = some d) : Clean answer d := by
  cases e with
  | arrive h => exact arrive_clean clean sound taken
  | clients left =>
    obtain rfl := Option.some.inj taken
    exact clients_clean clean left
  | queuedClients index left =>
    obtain rfl := Option.some.inj taken
    refine queued_clean clean fun q member => ?_
    obtain ⟨i, inside, rfl⟩ := List.mem_iff_getElem.mp member
    rw [List.getElem_modify]
    have fresh := clean.queued _ (List.getElem_mem (by simpa using inside))
    split
    · exact fresh.clients left
    · exact fresh
  | leaves index =>
    obtain rfl := Option.some.inj taken
    exact queued_clean clean fun q member => clean.queued q ((List.eraseIdx_subset ..) member)
  | readyToRead env fuel reads =>
    cases held : c.http with
    | some h => exact read_clean clean held (sound h held) taken
    | none =>
      change c.read answer env fuel reads = some d at taken
      unfold Connection.read at taken
      split at taken
      · rename_i offers
        rw [held] at taken
        obtain rfl := Option.some.inj taken
        have empty := clean.idle held offers.1
        refine ⟨⟨clean.own, clean.whole, clean.queued⟩, fun _ _ => ?_, by simp, by simp⟩
        simp [empty]
      · cases taken
  | httpTimeout =>
    obtain ⟨h, held, rfl⟩ := Option.map_eq_some_iff.mp taken
    apply closed_clean clean.toCore
    intro g now
    rw [← Option.some.inj now]
    exact clean.linked h held
  | backendTimeout =>
    obtain ⟨h, held, rfl⟩ := Option.map_eq_some_iff.mp taken
    have ended := settle_ended clean sound held h.backendError.disconnectFrontend.disconnectBackend rfl rfl
    exact closed_clean ended.toCore (by simp)
  | notAlive =>
    obtain ⟨h, dead, rfl⟩ := Option.map_eq_some_iff.mp taken
    have held := (Option.filter_eq_some_iff.mp dead).1
    exact settle_ended clean sound held h.disconnectFrontend.disconnectBackend rfl rfl
  | closed =>
    obtain rfl := Option.some.inj taken
    exact closed_clean clean.toCore (by simp)

theorem opened_clean : Clean answer .opened := by
  constructor <;> simp [Connection.opened]
  constructor <;> simp

/-- In every run whose reads fit the responses, each byte that a download parses
answers its own request, and nothing is left on the connection when it is made
idle or given to the next request. -/
theorem responses_never_mix (answer : ℕ → Response)
    (reached : Reach (Connection.Step answer) (Sound answer) (· = .opened) c) :
    (∀ q ∈ c.parsed, q.1 = q.2) ∧ ∀ left ∈ c.handedOver, left = [] := by
  have clean : Clean answer c := by
    refine reached.invariant ?_ fun e c d clean sound taken => next_clean clean sound taken
    rintro _ rfl
    exact opened_clean
  exact ⟨clean.own, clean.whole⟩

end Runs

def request (client : ClientId) : Http :=
  { Http.new false (ascii "cache/0") with host := ascii "a", uri := ascii "/", clientsList := [client] }

theorem fresh_request (client : ClientId) : Fresh (request client) :=
  ⟨⟨rfl, rfl, rfl, rfl, rfl, rfl, rfl, rfl⟩, rfl⟩

set_option maxRecDepth 2048 in
def notFound : Response where
  head := {
    version := ascii "HTTP/1.1"
    code := ascii "404"
    reason := ascii "Not Found"
    fields := [⟨ascii "Content-Length", ascii " 3", contentLength_clean, by decide⟩]
    version_clean := fiveBytes.version_clean
    code_digits := by decide
    reason_clean := by decide }
  body := ascii "abc"
  contentLength := some 3
  announces := fun _ _ _ => rfl
  framed := by decide

set_option maxRecDepth 4096 in
/-- Two requests on one connection: the first is answered in two reads, and the
connection goes to the second. -/
theorem second_request_gets_clean_connection : ∃ c,
    Reach (Connection.Step fun _ => hello) (Sound fun _ => hello) (· = .opened) c ∧
    c.sent = 2 ∧ c.parsed ≠ [] ∧ (∀ q ∈ c.parsed, q.1 = q.2) ∧ ∀ left ∈ c.handedOver, left = [] := by
  let reads := [received (fiveBytes.bytes ++ ascii "he"), received (ascii "llo")]
  let queued : Connection :=
    { Connection.opened.attach (fun _ => hello) (request 0) with pending := [request 1] }
  have run : (queued.next (fun _ => hello) (.readyToRead roomy 100 reads)).map
      (fun c => (c.sent, c.parsed.isEmpty)) = some (2, false) := by
    decide
  obtain ⟨c, taken, facts⟩ := Option.map_eq_some_iff.mp run
  have fit : Sound (fun _ => hello) (.readyToRead roomy 100 reads) queued := by
    intro h held
    obtain rfl := Option.some.inj held
    refine .inr (.inr (.inr ⟨?_, by decide, ⟨_, ⟨ascii "he", [ascii "llo"], rfl, rfl⟩, nofun⟩,
      fun _ => .inr ⟨rfl, rfl, rfl, by decide⟩⟩))
    change Common.atoi16 fiveBytes.code = 200
    decide
  have reached : Reach (Connection.Step fun _ => hello) (Sound fun _ => hello) (· = .opened) c :=
    .next (.next (e := .arrive (request 1)) (.next (e := .arrive (request 0)) (.start rfl)
      (fresh_request 0) rfl) (fresh_request 1) rfl) fit taken
  refine ⟨c, reached, congrArg Prod.fst facts, ?_, responses_never_mix _ reached⟩
  rintro empty
  rw [empty] at facts
  cases congrArg Prod.snd facts

set_option maxRecDepth 4096 in
/-- The rest of a refused answer is read as the start of the next one. -/
theorem refused_answer_is_left_behind : ∃ c,
    Reach (Connection.Step fun _ => notFound) anyStep (· = .opened) c ∧
    (∃ q ∈ c.parsed, q.1 ≠ q.2) ∧ ∃ left ∈ c.handedOver, left ≠ [] := by
  have run : (follow (fun e (c : Connection) => c.next (fun _ => notFound) e) [.arrive (request 0), .arrive (request 1),
      .readyToRead roomy 100 [received notFound.head.bytes],
      .readyToRead roomy 100 [received notFound.body]] .opened).map
        (fun c => (c.parsed.any fun q => q.1 ≠ q.2, c.handedOver.any fun left => left ≠ [])) =
      some (true, true) := by
    decide
  obtain ⟨c, followed, facts⟩ := Option.map_eq_some_iff.mp run
  refine ⟨c, reach_follow _ (.start rfl) followed, ?_, ?_⟩
  · have mixed := congrArg Prod.fst facts
    simpa using mixed
  · have early := congrArg Prod.snd facts
    simpa using early

end FastCgiCdn.ConnectionReuse
