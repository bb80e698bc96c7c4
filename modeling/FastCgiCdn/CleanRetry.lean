import FastCgiCdn.DownloadCommits

/-! What a download that has sent its request again stores. When every lost
connection that it is moved from was lost before its status line, the parser
starts again as it was made, and the download cannot be told from one that had
its last connection alone. -/

namespace FastCgiCdn.CleanRetry

open HttpModel HeadReading BodyReading HeadCuts ResponseReading MeasuredLoop DownloadModel
open DownloadCommits GuardedRuns

/-- The remote side closes an answered connection, and the request is sent again
on another one. -/
def Reassigns : Event → Download → Prop
  | .remoteSocketClosed (some _), d => d.http.backend.any Backend.wasTCPConnected = true
  | _, _ => False

/-- The connection is closed before its status line has been read. -/
def CleanClose (e : Event) (d : Download) : Prop := Reassigns e d → d.http.http_code = 0

def NoRetry (e : Event) (d : Download) : Prop := ¬Reassigns e d

/-- The parser and the body decoder stand as the constructor leaves them. -/
structure CleanParser (h : Http) : Prop where
  http_code : h.http_code = 0
  parsing : h.parsing = .none
  contentsize : h.contentsize = -1
  contentwritten : h.contentwritten = 0
  chunkLength : h.chunkLength = -1
  chunkHeader : h.chunkHeader = []
  headerBuff : h.headerBuff = []
  headerWriten : h.headerWriten = false
  tempCache : h.tempCache = none
  contenttype : h.contenttype = []
  endDetected : h.endDetected = false

/-- The download without the answers of its earlier connections. -/
def onLastConnection (d : Download) : Download := { d with served := d.served.take 1 }

section Reading

variable {env : Surroundings} {fuel : ℕ}

@[simp] theorem write_http_code (h : Http) (p : Piece) : (h.write p).1.http_code = h.http_code := by
  cases going : h.endDetected with
  | true => simp [Http.write, going]
  | false =>
    obtain ⟨m, edited, same | ended⟩ := write_edited going p
    · rw [same, edited]
    · rw [ended, edited]
      rfl

def headHttp : Http.HeadEnd → Http
  | .parsed s => s.http
  | .returned h => h

theorem openCache_http_code (h : Http) (pos pos2 : ℕ) :
    (headHttp (Http.openCache env h pos pos2)).http_code = h.http_code := by
  unfold Http.openCache
  split
  · rfl
  · split
    · rfl
    · split
      · rfl
      · split <;> rfl

theorem takeValue_http_code (value : Bytes) (h : Http) :
    (Http.takeValue env value h).http_code = h.http_code := by
  unfold Http.takeValue
  split <;> rfl

theorem headBody_again {buffer : Buffer} {size : ℕ} {s t : Http.HeadScan}
    (taken : Http.headBody env buffer size s = .again t) : t.http.http_code = s.http.http_code := by
  unfold Http.headBody at taken
  split at taken
  · split at taken
    · obtain rfl := Outcome.again.inj taken
      rfl
    · split at taken
      · split at taken
        · cases taken
        · split at taken
          · cases taken
          · obtain rfl := Outcome.again.inj taken
            exact takeValue_http_code _ _
      · obtain rfl := Outcome.again.inj taken
        rfl
  · cases taken

theorem headBody_stop {buffer : Buffer} {size : ℕ} {s : Http.HeadScan} {e : Http.HeadEnd}
    (taken : Http.headBody env buffer size s = .stop e) :
    (headHttp e).http_code = s.http.http_code := by
  unfold Http.headBody at taken
  split at taken
  · split at taken
    · cases taken
    · split at taken
      · split at taken
        · obtain rfl := Outcome.stop.inj taken
          exact openCache_http_code _ _ _
        · split at taken
          · obtain rfl := Outcome.stop.inj taken
            rfl
          · cases taken
      · cases taken
  · obtain rfl := Outcome.stop.inj taken
    rfl

theorem head_http_code {buffer : Buffer} {size n : ℕ} {s : Http.HeadScan} {e : Http.HeadEnd}
    (parsed : rounds (Http.headBody env buffer size) n s = some e) :
    (headHttp e).http_code = s.http.http_code := by
  refine rounds_invariant (P := fun t => t.http.http_code = s.http.http_code)
    (Q := fun e => (headHttp e).http_code = s.http.http_code) ?_ ?_ n rfl parsed
  · intro t u same taken
    rw [headBody_again taken, same]
  · intro t e same taken
    rw [headBody_stop taken, same]

/-- A round that goes on, or ends the call, has read the status line. -/
def Answered : Http.ReadEnd → Prop
  | .returns h _ => h.http_code ≠ 0
  | .goesOn h _ => h.http_code ≠ 0
  | .recurses h => h.http_code ≠ 0
  | .flushes _ => True

theorem afterHead_answered (buffer : Buffer) (size : ℕ) {s : Http.HeadScan}
    (answered : s.http.http_code ≠ 0) : Answered (Http.afterHead buffer size s) := by
  unfold Http.afterHead
  split
  · split
    · exact answered
    · simp only
      split
      · exact (write_http_code s.http _).trans_ne answered
      · exact (write_http_code s.http _).trans_ne answered
  · split <;> exact answered
  · split <;> exact answered
  · split <;> exact answered
  · exact answered

theorem readOne_answered {kept : Bytes} {h : Http} {r : Read} {e : Http.ReadEnd}
    (apart : h.http_code ≠ 0 ∨ h.parsing ≠ .content)
    (round : h.readOne env fuel kept r = some e) : Answered e := by
  unfold Http.readOne at round
  split at round
  · rename_i body
    have answered := apart.resolve_right (not_not_intro body)
    obtain rfl := Option.some.inj round
    split
    · exact (write_http_code h _).trans_ne answered
    · exact (write_http_code h _).trans_ne answered
  · obtain ⟨line, -, rest⟩ := Option.bind_eq_some_iff.mp round
    cases line with
    | refused h =>
      obtain rfl := Option.some.inj rest
      trivial
    | line s =>
      simp only at rest
      split at rest
      · obtain rfl := Option.some.inj rest
        trivial
      · rename_i accepted
        obtain ⟨head, parsed, rfl⟩ := Option.map_eq_some_iff.mp rest
        have code := head_http_code parsed
        have answered : (headHttp head).http_code ≠ 0 := by
          rw [code]
          change s.http.http_code ≠ 0
          omega
        cases head with
        | parsed t => exact afterHead_answered _ _ answered
        | returned h => exact answered

def Past (h : Http) : Prop := h.http_code ≠ 0 ∨ h.backend = none

theorem readLoop_past (budget : ℕ) : ∀ {kept : Bytes} {h : Http} {reads : List Read}
    {p : Http.Progress}, Past h ∨ (h.parsing ≠ .content ∧ reads ≠ []) →
    Http.readLoop env fuel budget kept h reads = some p → Past p.http := by
  induction budget with
  | zero =>
    intro kept h reads p apart returned
    cases returned
  | succ budget ih =>
    intro kept h reads p apart returned
    cases reads with
    | nil =>
      obtain rfl := Option.some.inj returned
      exact apart.resolve_right fun wrong => wrong.2 rfl
    | cons r reads =>
      rw [Http.readLoop] at returned
      split at returned
      · rename_i alone
        obtain rfl := Option.some.inj returned
        exact .inr (Option.isNone_iff_eq_none.mp alone)
      · rename_i linked
        have apart' : h.http_code ≠ 0 ∨ h.parsing ≠ .content := by
          rcases apart with (answered | gone) | ⟨head, -⟩
          · exact .inl answered
          · exact absurd (by rw [gone]; rfl) linked
          · exact .inr head
        obtain ⟨e, round, rest⟩ := Option.bind_eq_some_iff.mp returned
        have answered := readOne_answered apart' round
        cases e with
        | returns h passed =>
          obtain rfl := Option.some.inj rest
          exact .inl answered
        | flushes h =>
          obtain rfl := Option.some.inj rest
          exact .inr rfl
        | goesOn h passed =>
          obtain ⟨q, later, rfl⟩ := Option.map_eq_some_iff.mp rest
          have past : Past q.http := ih (.inl (.inl answered)) later
          exact past
        | recurses h =>
          obtain ⟨inner, nested, after⟩ := Option.bind_eq_some_iff.mp rest
          obtain ⟨q, later, rfl⟩ := Option.map_eq_some_iff.mp after
          have between : Past inner.http := by
            split at nested
            · obtain rfl := Option.some.inj nested
              exact .inl answered
            · exact ih (.inl (.inl answered)) nested
          have past : Past q.http := ih (.inl between) later
          exact past

/-- The first read of an answer brings the code of its status line, or ends the
download: a status line that is cut before its code is flushed. -/
theorem readyToRead_past {h : Http} {reads : List Read} {p : Http.Progress}
    (clean : CleanParser h) (some_read : reads ≠ [])
    (returned : h.readyToRead env fuel reads = some p) : Past p.http := by
  unfold Http.readyToRead at returned
  rw [if_neg (by simp [clean.endDetected])] at returned
  exact readLoop_past _ (.inr ⟨by simp [clean.parsing], some_read⟩) returned

theorem readyToRead_answered {h : Http} {reads : List Read} {p : Http.Progress}
    (answered : h.http_code ≠ 0) (returned : h.readyToRead env fuel reads = some p) :
    Past p.http := by
  unfold Http.readyToRead at returned
  split at returned
  · obtain rfl := Option.some.inj returned
    exact .inl answered
  · exact readLoop_past _ (.inl (.inl answered)) returned

end Reading

/-- Nothing has happened to the object but that it was given clients and a
connection. -/
def Untouched (h : Http) : Prop :=
  ∃ cachefd cachePath host uri etag, h = { (Download.created cachefd cachePath host uri etag).http with
    clientsList := h.clientsList, backend := h.backend, requestSended := h.requestSended }

theorem Untouched.clean {h : Http} (untouched : Untouched h) : CleanParser h := by
  obtain ⟨cachefd, cachePath, host, uri, etag, same⟩ := untouched
  rw [same]
  exact ⟨rfl, rfl, rfl, rfl, rfl, rfl, rfl, rfl, rfl, rfl, rfl⟩

/-- A download whose answer has not begun is as it was made, and one that waits
in the queue has never been answered. -/
structure Tidy (d : Download) : Prop where
  waiting : d.queued = true → Untouched d.http
  unread : d.http.http_code = 0 → d.http.backend.isSome → Untouched d.http
  free : d.http.backend.isSome → d.queued = false
  first : d.queued = true → d.served = []

section Forgetting

variable {d : Download}

theorem onLastConnection_of_first (first : d.served = []) : onLastConnection d = d := by
  unfold onLastConnection
  rw [first, List.take_nil, ← first]

theorem offers_onLastConnection (reads : List Read) :
    (onLastConnection d).Offers reads ↔ d.Offers reads := by
  have same : (d.served.take 1).head? = d.served.head? := by
    cases d.served with
    | nil => rfl
    | cons answer earlier => rfl
  unfold Download.Offers onLastConnection
  rw [same]

theorem connect_onLastConnection (first : d.served = []) (b : Backend) (answer : Served) :
    onLastConnection (d.connect b answer) = d.connect b answer := by
  unfold Download.connect
  split
  · exact onLastConnection_of_first first
  · rw [first]
    rfl

theorem read_onLastConnection {env : Surroundings} {fuel : ℕ} {reads : List Read} {d' : Download}
    (step : d.read env fuel reads = some d') :
    (onLastConnection d).read env fuel reads = some (onLastConnection d') := by
  obtain ⟨offers, p, returned, rfl⟩ :=
    Download.next_readyToRead (show d.next (.readyToRead env fuel reads) = _ from step)
  rw [Download.read, if_pos ((offers_onLastConnection reads).mpr offers)]
  change (d.http.readyToRead env fuel reads).map _ = _
  rw [returned]
  rfl

theorem timeout_onLastConnection :
    (onLastConnection d).httpTimeout = onLastConnection d.httpTimeout := by
  unfold Download.httpTimeout
  change (if d.http.backend.isSome = true then _ else _) = _
  split <;> rfl

theorem closed_onLastConnection {b : Backend} (linked : d.http.backend = some b)
    {next : Option (Backend × Served)} (kept : NoRetry (.remoteSocketClosed next) d) :
    (onLastConnection d).remoteSocketClosed b next =
      onLastConnection (d.remoteSocketClosed b next) := by
  cases next with
  | none =>
    unfold Download.remoteSocketClosed
    split <;> rfl
  | some target =>
    have never : b.wasTCPConnected = false := by
      simpa [NoRetry, Reassigns, linked] using kept
    unfold Download.remoteSocketClosed
    rw [if_neg (by simp [never]), if_neg (by simp [never])]
    rfl

theorem next_onLastConnection (tidy : Tidy d) {e : Event} (kept : NoRetry e d) {d' : Download}
    (step : d.next e = some d') :
    (onLastConnection d).next e = some (onLastConnection d') := by
  cases e with
  | clients left =>
    obtain rfl := Option.some.inj step
    rfl
  | serve b answer =>
    obtain ⟨waits, rfl⟩ := Download.next_serve step
    have first := tidy.first (Bool.and_eq_true_iff.mp waits).1
    rw [onLastConnection_of_first first, connect_onLastConnection first, Download.next, if_pos waits]
  | readyToRead env fuel reads => exact read_onLastConnection step
  | remoteSocketClosed next =>
    obtain ⟨b, linked, rfl⟩ := Option.map_eq_some_iff.mp step
    change (d.http.backend).map _ = _
    rw [linked, Option.map_some, closed_onLastConnection linked kept]
  | httpTimeout =>
    obtain rfl := Option.some.inj step
    exact congrArg some timeout_onLastConnection
  | backendTimeout =>
    obtain ⟨b, linked, rfl⟩ := Option.map_eq_some_iff.mp step
    change (d.http.backend).map _ = _
    rw [linked]
    rfl
  | connectProblem dismissed =>
    obtain ⟨queued, rfl⟩ := Download.next_connectProblem step
    change (if d.queued = true then _ else _) = _
    rw [if_pos queued]
    cases dismissed <;> rfl
  | notAlive =>
    obtain ⟨gone, rfl⟩ := Download.next_notAlive step
    change (if d.http.isAlive = true then _ else _) = _
    rw [if_neg gone]
    rfl
  | deleted =>
    obtain rfl := Option.some.inj step
    rfl

end Forgetting

section Invariant

variable {d : Download}

theorem created_untouched (cachefd : Bool) (cachePath host uri etag : Bytes) :
    Untouched (Download.created cachefd cachePath host uri etag).http :=
  ⟨cachefd, cachePath, host, uri, etag, rfl⟩

theorem Untouched.linked {h : Http} (untouched : Untouched h) (clients : List ClientId)
    (backend : Option Backend) (sended : Bool) :
    Untouched { h with clientsList := clients, backend := backend, requestSended := sended } := by
  obtain ⟨cachefd, cachePath, host, uri, etag, same⟩ := untouched
  refine ⟨cachefd, cachePath, host, uri, etag, ?_⟩
  rw [same]

theorem Untouched.reset {h : Http} (untouched : Untouched h) : Untouched h.resetRequestSended := by
  obtain ⟨cachefd, cachePath, host, uri, etag, same⟩ := untouched
  refine ⟨cachefd, cachePath, host, uri, etag, ?_⟩
  rw [same]
  rfl

/-- What an error or a timeout takes from an object that has not been answered
was not there. -/
theorem Untouched.dropped {h : Http} (untouched : Untouched h) :
    Untouched h.disconnectFrontend ∧ Untouched h.backendError.disconnectFrontend := by
  obtain ⟨cachefd, cachePath, host, uri, etag, same⟩ := untouched
  rw [same]
  exact ⟨⟨cachefd, cachePath, host, uri, etag, rfl⟩, ⟨cachefd, [], host, uri, etag, rfl⟩⟩

theorem reset_http_code (h : Http) : h.resetRequestSended.http_code = h.http_code := by
  unfold Http.resetRequestSended
  split <;> rfl

theorem tidy_linked {g : Download} (unqueued : g.queued = false)
    (unread : g.http.http_code = 0 → g.http.backend.isSome → Untouched g.http) : Tidy g := by
  refine ⟨?_, unread, fun _ => unqueued, ?_⟩
  · intro queued
    rw [unqueued] at queued
    cases queued
  · intro queued
    rw [unqueued] at queued
    cases queued

theorem tidy_connect (b : Backend) (answer : Served) (unread : d.http.http_code = 0 → Untouched d.http) :
    Tidy (d.connect b answer) := by
  unfold Download.connect
  split
  · exact tidy_linked rfl fun code _ => (unread code).linked _ _ _
  · exact tidy_linked rfl fun code _ => (unread code).linked _ _ _

theorem tidy_ended (h : Http) : Tidy (d.disconnectBackend h) := by
  refine tidy_linked rfl ?_
  intro _ linked
  cases linked

theorem tidy_closed (tidy : Tidy d) (linked : d.http.backend.isSome) (b : Backend)
    (next : Option (Backend × Served)) : Tidy (d.remoteSocketClosed b next) := by
  have unqueued := tidy.free linked
  have unread : d.http.resetRequestSended.http_code = 0 → Untouched d.http.resetRequestSended := by
    intro code
    rw [reset_http_code] at code
    exact (tidy.unread code linked).reset
  unfold Download.remoteSocketClosed
  split
  · cases next with
    | none => exact tidy_linked unqueued fun code _ => (unread code).linked _ _ _
    | some target => exact tidy_connect _ _ fun code => (unread code).linked _ _ _
  · refine tidy_linked unqueued ?_
    intro _ wrong
    cases wrong

theorem tidy_read (tidy : Tidy d) {env : Surroundings} {fuel : ℕ} {reads : List Read}
    (offers : d.Offers reads) {p : Http.Progress}
    (returned : d.http.readyToRead env fuel reads = some p) (seen : List Bytes) :
    Tidy { d with http := p.http, seen := seen } := by
  have unqueued := tidy.free offers.1
  refine tidy_linked unqueued ?_
  intro code linked
  by_cases nothing : reads = []
  · subst nothing
    obtain rfl := Option.some.inj ((readyToRead_nothing env fuel d.http).symm.trans returned)
    exact tidy.unread code linked
  have past : Past p.http := by
    by_cases unread : d.http.http_code = 0
    · exact readyToRead_past (tidy.unread unread offers.1).clean nothing returned
    · exact readyToRead_answered unread returned
  rcases past with answered | gone
  · exact absurd code answered
  · rw [show ({ d with http := p.http, seen := seen } : Download).http.backend = none from gone] at linked
    cases linked

theorem next_tidy (tidy : Tidy d) {e : Event} {d' : Download} (step : d.next e = some d') :
    Tidy d' := by
  cases e with
  | clients left =>
    obtain rfl := Option.some.inj step
    exact ⟨fun queued => (tidy.waiting queued).linked _ _ _,
      fun code linked => (tidy.unread code linked).linked _ _ _, tidy.free, tidy.first⟩
  | serve b answer =>
    obtain ⟨waits, rfl⟩ := Download.next_serve step
    exact tidy_connect b answer fun _ => tidy.waiting (Bool.and_eq_true_iff.mp waits).1
  | readyToRead env fuel reads =>
    obtain ⟨offers, p, returned, rfl⟩ := Download.next_readyToRead step
    exact tidy_read tidy offers returned _
  | remoteSocketClosed next =>
    obtain ⟨b, linked, rfl⟩ := Option.map_eq_some_iff.mp step
    exact tidy_closed tidy (by rw [linked]; rfl) b next
  | httpTimeout =>
    obtain rfl := Option.some.inj step
    unfold Download.httpTimeout
    split
    · exact ⟨fun queued => (tidy.waiting queued).dropped.1,
        fun code linked => (tidy.unread code linked).dropped.1, tidy.free, tidy.first⟩
    · exact tidy_ended _
  | backendTimeout =>
    obtain ⟨b, -, rfl⟩ := Option.map_eq_some_iff.mp step
    exact tidy_ended _
  | connectProblem dismissed =>
    obtain ⟨-, rfl⟩ := Download.next_connectProblem step
    cases dismissed with
    | true => exact tidy_ended _
    | false =>
      exact ⟨fun queued => (tidy.waiting queued).dropped.2,
        fun code linked => (tidy.unread code linked).dropped.2, tidy.free, tidy.first⟩
  | notAlive =>
    obtain ⟨-, rfl⟩ := Download.next_notAlive step
    exact tidy_ended _
  | deleted =>
    obtain rfl := Option.some.inj step
    exact tidy_ended _

theorem initial_tidy (initial : Download.Initial d) : Tidy d := by
  obtain ⟨cachefd, cachePath, host, uri, etag, rfl | rfl | ⟨b, answer, rfl⟩⟩ := initial
  · exact tidy_linked rfl fun _ _ => created_untouched _ _ _ _ _
  · refine ⟨fun _ => created_untouched _ _ _ _ _, fun _ _ => created_untouched _ _ _ _ _, ?_, fun _ => rfl⟩
    intro linked
    cases linked
  · exact tidy_connect b answer fun _ => created_untouched _ _ _ _ _

end Invariant

section Retries

variable {d : Download}

theorem initial_onLastConnection (initial : Download.Initial d) :
    Download.Initial (onLastConnection d) := by
  obtain ⟨cachefd, cachePath, host, uri, etag, rfl | rfl | ⟨b, answer, rfl⟩⟩ := initial
  · exact ⟨cachefd, cachePath, host, uri, etag, .inl rfl⟩
  · exact ⟨cachefd, cachePath, host, uri, etag, .inr (.inl rfl)⟩
  · rw [connect_onLastConnection rfl]
    exact ⟨cachefd, cachePath, host, uri, etag, .inr (.inr ⟨b, answer, rfl⟩)⟩

theorem moved_is_initial (untouched : Untouched d.http) {b : Backend}
    (connected : b.wasTCPConnected = true) (b' : Backend) (answer : Served) :
    ∃ g, Download.Initial g ∧ g.next (.clients d.http.clientsList) =
      some (onLastConnection (d.remoteSocketClosed b (some (b', answer)))) := by
  obtain ⟨cachefd, cachePath, host, uri, etag, same⟩ := untouched
  refine ⟨(Download.created cachefd cachePath host uri etag).connect b' answer,
    ⟨cachefd, cachePath, host, uri, etag, .inr (.inr ⟨b', answer, rfl⟩)⟩, ?_⟩
  unfold Download.remoteSocketClosed
  rw [if_pos connected]
  simp only [Http.resetRequestSended]
  rw [same]
  rfl

theorem reassigns_iff (e : Event) : Reassigns e (onLastConnection d) ↔ Reassigns e d := by
  cases e with
  | remoteSocketClosed next => cases next <;> exact Iff.rfl
  | _ => exact Iff.rfl

/-- A run whose retries are all clean ends as a run with no retry, whatever else
is asked of the steps that earlier answers do not bear on. -/
theorem run_alone {also : Event → Download → Prop}
    (blind : ∀ e d, also e d → also e (onLastConnection d))
    (clients : ∀ left d, also (.clients left) d)
    (reached : Reach Download.Step (fun e d => also e d ∧ CleanClose e d) Download.Initial d) :
    Tidy d ∧ Reach Download.Step (fun e d => also e d ∧ NoRetry e d) Download.Initial
      (onLastConnection d) := by
  induction reached with
  | start initial => exact ⟨initial_tidy initial, .start (initial_onLastConnection initial)⟩
  | @next s t e _ admitted step ih =>
    obtain ⟨tidy, alone⟩ := ih
    refine ⟨next_tidy tidy step, ?_⟩
    by_cases moves : Reassigns e s
    · have unread := admitted.2 moves
      cases e with
      | remoteSocketClosed next =>
        cases next with
        | some target =>
          obtain ⟨b, linked, rfl⟩ := Option.map_eq_some_iff.mp step
          have connected : b.wasTCPConnected = true := by simpa [Reassigns, linked] using moves
          have untouched := tidy.unread unread (by rw [linked]; rfl)
          obtain ⟨g, initial, moved⟩ := moved_is_initial untouched connected target.1 target.2
          exact .next (.start initial) ⟨clients _ _, id⟩ moved
        | none => exact moves.elim
      | _ => exact moves.elim
    · have kept : NoRetry e (onLastConnection s) := mt (reassigns_iff e).mp moves
      exact .next alone ⟨blind e s admitted.1, kept⟩ (next_onLastConnection tidy moves step)

theorem clean_iff (tidy : Tidy d) {b : Backend} (linked : d.http.backend = some b)
    (connected : b.wasTCPConnected = true) (target : Backend × Served) :
    CleanParser (d.remoteSocketClosed b (some target)).http ↔ d.http.http_code = 0 := by
  have parser : (d.remoteSocketClosed b (some target)).http =
      { d.http.resetRequestSended with backend := some target.1, requestSended := true } := by
    unfold Download.remoteSocketClosed
    rw [if_pos connected]
    rfl
  rw [parser]
  constructor
  · intro clean
    rw [← reset_http_code]
    exact clean.http_code
  · intro unread
    have untouched := (tidy.unread unread (by rw [linked]; rfl)).reset
    exact (untouched.linked _ _ _).clean

theorem sound_blind (e : Event) (d : Download) (sound : Sound e d) :
    Sound e (onLastConnection d) := by
  cases e with
  | readyToRead env fuel reads =>
    rcases sound with nothing | sunk | refused | ⟨r, ⟨answer, accepted, wellFormed⟩, small, fits⟩
    · exact .inl nothing
    · exact .inr (.inl sunk)
    · exact .inr (.inr (.inl refused))
    · refine .inr (.inr (.inr ⟨r, ⟨?_, accepted, wellFormed⟩, small, fits⟩))
      change (d.served.take 1).head? = _
      rw [List.head?_take, if_neg Nat.one_ne_zero, answer]
  | _ => exact sound

/-- In a run whose retries are all clean, what is stored is stored by a download
that had the last connection alone. When the reads fit well-formed responses it is
the whole body of the last one. -/
theorem clean_retries_leave_no_trace {d : Download}
    (reached : Reach Download.Step CleanClose Download.Initial d) :
    Reach Download.Step NoRetry Download.Initial (onLastConnection d) ∧
    (∀ b target, d.http.backend = some b → b.wasTCPConnected = true →
      (CleanParser (d.remoteSocketClosed b (some target)).http ↔ d.http.http_code = 0)) ∧
    (Reach Download.Step (fun e d => Sound e d ∧ CleanClose e d) Download.Initial d →
      ∀ q ∈ d.http.renamed, ∃ answer, d.served.head? = some answer ∧ Complete q.2 answer) := by
  have run : Tidy d ∧ Reach Download.Step (fun e d => True ∧ NoRetry e d) Download.Initial
      (onLastConnection d) :=
    run_alone (fun _ _ _ => trivial) (fun _ _ => trivial)
      (reached.mono fun _ _ clean => ⟨trivial, clean⟩)
  refine ⟨run.2.mono fun _ _ kept => kept.2, ?_, ?_⟩
  · intro b target linked connected
    exact clean_iff run.1 linked connected target
  · intro fitting q member
    have alone := (run_alone sound_blind (fun _ _ => trivial) fitting).2
    have sane : Sane (onLastConnection d) :=
      alone.invariant (fun _ => initial_sane) fun _ _ _ sane sound step => next_sane sane sound.1 step
    obtain ⟨answer, served, complete⟩ := sane.complete q member
    refine ⟨answer, ?_, complete⟩
    change answer ∈ d.served.take 1 at served
    cases stands : d.served with
    | nil =>
      rw [stands] at served
      cases served
    | cons last earlier =>
      rw [stands] at served
      rw [List.mem_singleton.mp served]
      rfl

def requested (answer : Served) : Download :=
  (Download.created false (ascii "cache/0") (ascii "a") (ascii "/") []).connect ⟨true⟩ answer

theorem initial_requested (answer : Served) : Download.Initial (requested answer) :=
  ⟨_, _, _, _, _, .inr (.inr ⟨_, _, rfl⟩)⟩

set_option maxRecDepth 4096 in
/-- An idle connection is closed under the request; the answer to the second
request is stored. -/
theorem answer_behind_a_lost_connection : ∃ d,
    Reach Download.Step CleanClose Download.Initial d ∧ d.served.length = 2 ∧
    d.http.renamed ≠ [] ∧
    ∀ q ∈ d.http.renamed, ∃ answer, d.served.head? = some answer ∧ Complete q.2 answer := by
  let lost := Event.remoteSocketClosed (some (⟨true⟩, .response hello))
  let moved := (requested (.other [])).remoteSocketClosed ⟨true⟩ (some (⟨true⟩, .response hello))
  let reads := [received hello.bytes]
  have run : (moved.next (.readyToRead roomy 100 reads)).map
      (fun d => (d.served.length, d.http.renamed.isEmpty)) = some (2, false) := by
    decide
  obtain ⟨d, taken, facts⟩ := Option.map_eq_some_iff.mp run
  have accepted : hello.ok := by
    change Common.atoi16 fiveBytes.code = 200
    decide
  have room : hello.bytes.length ≤ 4096 := by decide
  have fit : Sound (.readyToRead roomy 100 reads) moved :=
    .inr (.inr (.inr ⟨hello, ⟨rfl, accepted, ascii "hello", rfl⟩, by decide,
      ⟨_, ⟨ascii "hello", [], rfl, rfl⟩, fun wrong => by cases wrong⟩, fun _ => ⟨rfl, fun _ => room⟩⟩))
  have fitting : Reach Download.Step (fun e d => Sound e d ∧ CleanClose e d) Download.Initial d :=
    .next (.next (e := lost) (.start (initial_requested _)) ⟨trivial, fun _ => rfl⟩ rfl)
      ⟨fit, fun wrong => wrong.elim⟩ taken
  have reached := fitting.mono fun _ _ both => both.2
  refine ⟨d, reached, congrArg Prod.fst facts, ?_,
    (clean_retries_leave_no_trace reached).2.2 fitting⟩
  intro none_committed
  have stored := congrArg Prod.snd facts
  simp only [none_committed] at stored
  cases stored

set_option maxRecDepth 4096 in
/-- A connection is closed behind two bytes of a body of five. The file holds
them, then the second answer from its status line on. -/
theorem status_line_is_stored_as_body : ∃ d, Reach Download.Step anyStep Download.Initial d ∧
    d.served.head?.map Served.bytes = some hello.bytes ∧
    ∃ q ∈ d.http.renamed,
      q.2.content = q.2.writes.head?.getD [] ++ ascii "he" ++ hello.head.bytes ++ hello.body := by
  have run : (follow (fun e (d : Download) => d.next e)
      [.readyToRead roomy 100 [received (fiveBytes.bytes ++ ascii "he")],
        .remoteSocketClosed (some (⟨true⟩, .response hello)),
        .readyToRead roomy 100 [received hello.bytes]] (requested (.response hello))).map
      (fun d => (d.served.head?.map Served.bytes, d.http.renamed.any fun q =>
        q.2.content = q.2.writes.head?.getD [] ++ ascii "he" ++ hello.head.bytes ++ hello.body)) =
      some (some hello.bytes, true) := by
    decide
  obtain ⟨d, followed, facts⟩ := Option.map_eq_some_iff.mp run
  refine ⟨d, reach_follow _ (.start (initial_requested _)) followed, congrArg Prod.fst facts, ?_⟩
  obtain ⟨q, member, spliced⟩ := List.any_eq_true.mp (congrArg Prod.snd facts)
  exact ⟨q, member, of_decide_eq_true spliced⟩

end Retries

end FastCgiCdn.CleanRetry
