import FastCgiCdn.FileFraming
import FastCgiCdn.Freshness
import FastCgiCdn.PublishedFiles

/-! A request that is answered out of the cache, from the bytes that the server hands
over to the records it is sent back. The file that is opened under the path of the
request is the one that a download has finished, whatever other downloads and clients
do to the directory meanwhile. -/

namespace FastCgiCdn.CacheHits

open CacheFields CacheFile CacheVolume ClientOutput FileFraming Freshness GuardedRuns HttpModel
open MeasuredLoop PublishedFiles VolumeMoves Volume
open ClientModel (Reading Request cachePath littleEndian)

section Ids

open FastCgiRecords

variable {buff : Buffer} {size : ℕ} {s t : Scan}

def Numbered (c : FastCgiRecords.Client) : Prop := ∃ id < 65536, c.fastcgiid = some id

theorem read16Bits_small {pos n next : ℕ} (read : read16Bits buff size pos = some (n, next)) :
    n < 65536 := by
  unfold read16Bits at read
  split at read
  · cases read
  · obtain ⟨rfl, -⟩ := Prod.mk.inj (Option.some.inj read)
    have high := (buff pos).toNat_lt
    have low := (buff (pos + 1)).toNat_lt
    omega

theorem recordStart_numbered {c d : FastCgiRecords.Client} {pos var8 next : ℕ}
    (begun : c.fastcgiid = none ∨ Numbered c)
    (started : recordStart buff size c pos = some (d, var8, next)) : Numbered d := by
  obtain ⟨⟨version, p⟩, -, rest⟩ := Option.bind_eq_some_iff.mp started
  simp only at rest
  split at rest
  · cases rest
  · obtain ⟨⟨kind, q⟩, -, rest⟩ := Option.bind_eq_some_iff.mp rest
    simp only at rest
    split at rest
    · split at rest
      · cases rest
      · obtain ⟨⟨var16, r⟩, read, same⟩ := Option.map_eq_some_iff.mp rest
        obtain ⟨rfl, -⟩ := Prod.mk.inj same
        exact ⟨var16, read16Bits_small read, rfl⟩
    · rename_i fastcgiid known
      split at rest
      · cases rest
      · obtain ⟨⟨var16, r⟩, -, rest⟩ := Option.bind_eq_some_iff.mp rest
        simp only at rest
        split at rest
        · cases rest
        · obtain ⟨rfl, -⟩ := Prod.mk.inj (Option.some.inj rest)
          rcases begun with none | numbered
          · rw [known] at none
            cases none
          · exact numbered

theorem takeParam_fastcgiid (pos varSize valSize : ℕ) :
    (takeParam buff pos varSize valSize s).client.fastcgiid = s.client.fastcgiid := by
  unfold takeParam
  dsimp only
  repeat' split
  all_goals rfl

theorem params_fastcgiid (contentLenghtAbs : ℕ) (s : Scan) :
    ∀ t, (params buff size contentLenghtAbs).run s = .parsed t →
      t.client.fastcgiid = s.client.fastcgiid := by
  apply (params buff size contentLenghtAbs).run_induct
    (P := fun s end_ => ∀ t, end_ = .parsed t → t.client.fastcgiid = s.client.fastcgiid)
  case stops =>
    rintro s _ taken t rfl
    change paramsBody buff size contentLenghtAbs s = _ at taken
    unfold paramsBody at taken
    split at taken
    · split at taken
      · cases taken
      · split at taken
        · cases taken
        · split at taken <;> cases taken
    · obtain rfl := Parsed.parsed.inj (Outcome.stop.inj taken)
      rfl
  case goes =>
    intro s t taken later u parsed
    rw [later u parsed]
    change paramsBody buff size contentLenghtAbs s = _ at taken
    unfold paramsBody at taken
    split at taken
    · split at taken
      · cases taken
      · split at taken
        · cases taken
        · split at taken
          · cases taken
          · obtain rfl := Outcome.again.inj taken
            exact takeParam_fastcgiid _ _ _
    · cases taken

theorem record_numbered (begun : s.client.fastcgiid = none ∨ Numbered s.client)
    (read : FastCgiRecords.record buff size s = .parsed t) : Numbered t.client := by
  unfold FastCgiRecords.record at read
  split at read
  · cases read
  · rename_i h header
    have numbered : Numbered h.client := by
      obtain ⟨⟨d, var8, p⟩, started, rest⟩ := Option.bind_eq_some_iff.mp header
      obtain ⟨⟨contentLenght, q⟩, -, rest⟩ := Option.bind_eq_some_iff.mp rest
      obtain ⟨⟨paddingLength, r⟩, -, rest⟩ := Option.bind_eq_some_iff.mp rest
      obtain ⟨last, -, rfl⟩ := Option.map_eq_some_iff.mp rest
      exact recordStart_numbered begun started
    split at read
    · split at read
      · rename_i u parsed
        split at read
        · cases read
        · obtain rfl := Parsed.parsed.inj read
          obtain ⟨id, small, known⟩ := numbered
          exact ⟨id, small, (params_fastcgiid _ _ u parsed).trans known⟩
      · rename_i fault
        exact absurd read (fault t)
    · split at read
      · cases read
      · obtain rfl := Parsed.parsed.inj read
        exact numbered

theorem records_numbered (s : Scan) : (s.client.fastcgiid = none ∨ Numbered s.client) →
    ∀ t, (records buff size).run s = .parsed t → Numbered t.client := by
  apply (records buff size).run_induct (P := fun s end_ =>
    (s.client.fastcgiid = none ∨ Numbered s.client) → ∀ t, end_ = .parsed t → Numbered t.client)
  case stops =>
    rintro s _ taken begun t rfl
    change recordsBody buff size s = _ at taken
    unfold recordsBody at taken
    split at taken
    · rename_i u read
      split at taken
      · cases taken
      · obtain rfl := Parsed.parsed.inj (Outcome.stop.inj taken)
        exact record_numbered begun read
    · rename_i fault
      exact absurd (Outcome.stop.inj taken) (fault t)
  case goes =>
    intro s t taken later begun u parsed
    change recordsBody buff size s = _ at taken
    unfold recordsBody at taken
    split at taken
    · rename_i w read
      split at taken
      · obtain rfl := Outcome.again.inj taken
        exact later (.inr (record_numbered begun read)) u parsed
      · cases taken
    · cases taken

theorem download_numbered {read : Read} {r : Request}
    (leads : (ClientModel.readyToRead .new read).2 = .download r) :
    Numbered (ClientModel.readyToRead .new read).1 := by
  unfold ClientModel.readyToRead at leads ⊢
  split at leads
  · cases leads
  · rename_i unread
    rw [if_neg unread]
    split at leads
    · cases leads
    · cases leads
    · rename_i s parsed
      have numbered : Numbered s.client := records_numbered _ (.inl rfl) s parsed
      split at leads
      · rename_i whole
        rw [if_pos whole]
        split at leads
        · exact numbered
        · rename_i other
          exact absurd leads (other r)
      · cases leads

end Ids

structure Visit where
  read : Read
  currentTime : UInt64
  /-- The memory behind a short `If-None-Match`. -/
  stale : ℕ → Byte
  socket : Schedule

inductive Reply
  /-- The request does not lead to the cache. -/
  | early (reading : Reading)
  /-- A download is registered under the path. -/
  | known (r : Request)
  | asksDns (r : Request)
  | sent (c : ClientOutput.Client ℕ)

def newcomer (fastcgiid : Option ℕ) : ClientOutput.Client ℕ :=
  { ClientOutput.Client.new with fastcgiid := fastcgiid }

/-- The bytes behind the offset of a handle. -/
def ahead (fd : ℕ) (v : Volume) (file : ℕ) : Bytes :=
  (v.files file).file.bytes.drop ((v.files file).file.offset fd)

variable (hostsubfolder enable : Bool) (XXH3_64bits : Bytes → UInt64) (http200Time : UInt32)

section Visits

variable (visit : Visit) (r : Request) (fastcgiid : Option ℕ)

def reading (fd currentTime : ℕ) (v : Volume) : Volume :=
  call fd .seekToContentPos (call fd .seekToContentPos (call fd (.set_access_time currentTime) v))

/-- `loadUrl` from where it has opened the file. A file of 25 bytes has a content, so
that none is found corrupted. -/
def answer (fd file : ℕ) (v : Volume) : Volume × Reply :=
  match (Freshness.loadUrl r.ifNoneMatch visit.stale http200Time visit.currentTime fd
      (v.files file).file).1 with
  | .notModified =>
    (close fd v, .sent ((newcomer fastcgiid).page visit.socket (ahead fd v) .notModified))
  | .cache =>
    let v := reading fd visit.currentTime.toNat v
    (close fd v, .sent ((newcomer fastcgiid).startCached visit.socket (ahead fd v) file 2))
  | _ => (close fd v, .asksDns r)

def loadUrl (v : Volume) : Volume × Reply :=
  let path := cachePath hostsubfolder XXH3_64bits r
  if (v.pathToHttp r.https path).isSome then (v, .known r)
  else
    match v.names path with
    | none => (v, .asksDns r)
    | some file =>
      answer http200Time visit r fastcgiid v.newFd file
        (perform hostsubfolder enable XXH3_64bits (.openName path) v)

def readyToRead (v : Volume) : Volume × Reply :=
  let read := ClientModel.readyToRead .new visit.read
  match read.2 with
  | .download r => loadUrl hostsubfolder enable XXH3_64bits http200Time visit r read.1.fastcgiid v
  | other => (v, .early other)

end Visits

section Events

variable {hostsubfolder enable XXH3_64bits http200Time} {init : Volume → Prop} {v : Volume}

theorem answer_reached {file : ℕ} (visit : Visit) (r : Request) (fastcgiid : Option ℕ) (fd : ℕ)
    (reached : Reach (Step hostsubfolder enable XXH3_64bits) (Apart hostsubfolder XXH3_64bits)
      init v) :
    Reach (Step hostsubfolder enable XXH3_64bits) (Apart hostsubfolder XXH3_64bits) init
      (answer http200Time visit r fastcgiid fd file v).1 := by
  unfold answer
  dsimp only
  split
  · exact reached.next (e := CacheVolume.Event.close fd) trivial rfl
  · have accessed := reached.next
      (e := CacheVolume.Event.call fd (.set_access_time visit.currentTime.toNat)) trivial rfl
    have sought := accessed.next (e := CacheVolume.Event.call fd .seekToContentPos) trivial rfl
    have again := sought.next (e := CacheVolume.Event.call fd .seekToContentPos) trivial rfl
    exact again.next (e := CacheVolume.Event.close fd) trivial rfl
  · exact reached.next (e := CacheVolume.Event.close fd) trivial rfl

theorem readyToRead_reached (visit : Visit)
    (reached : Reach (Step hostsubfolder enable XXH3_64bits) (Apart hostsubfolder XXH3_64bits)
      init v) :
    Reach (Step hostsubfolder enable XXH3_64bits) (Apart hostsubfolder XXH3_64bits) init
      (readyToRead hostsubfolder enable XXH3_64bits http200Time visit v).1 := by
  unfold readyToRead loadUrl
  dsimp only
  split
  · split
    · exact reached
    · split
      · exact reached
      · apply answer_reached
        exact reached.next (e := CacheVolume.Event.openName _) trivial rfl
  · exact reached

end Events

section Records

variable {ι : Type} {socket : Schedule} {disk : ι → Bytes} {file : ι} {id : ℕ}
  {c : ClientOutput.Client ι}

theorem page_framed (taken : ∀ k, (socket k).sent = .whole) (small : id < 65536)
    (opened : c.opened = true) (named : c.fastcgiid = some id) (plain : c.isPartial = false)
    (empty : c.dataToWrite = []) {p : Page} (filled : 0 < p.text.length)
    (short : p.text.length < 65536) :
    Framed p.text id c.accepted (c.page socket disk p) := by
  have size (data : Bytes) (member : Record.stdout data ∈ [Record.stdout p.text, .endRequest]) :
      data.length < 65536 := by
    rcases List.mem_cons.mp member with same | last
    · obtain rfl := Record.stdout.inj same
      exact short
    · cases List.mem_singleton.mp last
  unfold ClientOutput.Client.page ClientOutput.Client.answer
  rw [ClientOutput.Client.writeOutput_whole taken (by exact opened) (by exact empty),
    ClientOutput.Client.writeEnd_eq_finish _ _ _ (by exact plain), ClientOutput.Client.finish,
    if_pos rfl, ClientOutput.Client.sendEnd_whole taken (by exact opened) (by exact empty)]
  constructor
  · rfl
  · rfl
  · rfl
  · refine ⟨Delivery.wire (some id) [.stdout p.text, .endRequest], [p.text], ?_,
      decode_wire small _ size, List.flatten_singleton, fun piece member => ?_⟩
    · simp [Delivery.wire, Delivery.frame, RecordFormat.plainBytes_eq, ClientOutput.Client.endRecord,
        ClientOutput.Client.header, ClientOutput.Client.be16, ClientOutput.Client.disconnect,
        ClientOutput.Client.disconnectFromHttp, named]
    · obtain rfl := List.mem_singleton.mp member
      exact ⟨filled, short⟩

theorem startCached_framed (taken : ∀ k, (socket k).sent = .whole) (small : id < 65536)
    (nonempty : disk file ≠ []) (opened : c.opened = true) (named : c.fastcgiid = some id)
    (empty : c.dataToWrite = []) :
    Framed (disk file) id c.accepted (c.startCached socket disk file 2) := by
  have start : Sending disk file id c.accepted 0
      ({ c with isPartial := false, status := .waitTheContent }.opening disk file 2 2) := by
    constructor
    case opened => exact opened
    case empty => exact empty
    case whole => rfl
    case reader => rfl
    case named => exact named
    case bound => exact Nat.zero_le _
    case begun => exact fun wrong => absurd wrong (Nat.lt_irrefl 0)
    case sent => exact ⟨[], (List.append_nil _).symm, rfl, fun piece listed => by cases listed⟩
  exact start.continueRead taken small nonempty

end Records

section Hits

variable {hostsubfolder enable XXH3_64bits http200Time} {v : Volume} {fd file h pos : ℕ}
  {content : Bytes} {b : Birth} {r : Request} {visit : Visit}

theorem call_file (reads : v.readers fd = some file) (c : Call) :
    ((Volume.call fd c v).files file).file = c.run fd (v.files file).file := by
  unfold Volume.call
  rw [reads]
  simp only [Function.update_self, step]

theorem call_readers (c : Call) : (Volume.call fd c v).readers = v.readers := by
  unfold Volume.call
  split <;> rfl

theorem ahead_reading (reads : v.readers fd = some file) (currentTime : ℕ)
    (placed : Placed pos content (v.files file).file) :
    ahead fd (reading fd currentTime v) file = content := by
  let v₁ := Volume.call fd (.set_access_time currentTime) v
  let v₂ := Volume.call fd .seekToContentPos v₁
  have reads₁ : v₁.readers fd = some file := (congrFun (call_readers _) fd).trans reads
  have reads₂ : v₂.readers fd = some file := (congrFun (call_readers _) fd).trans reads₁
  have placed₁ : Placed pos content (v₁.files file).file := by
    rw [call_file reads]
    apply placed.setField
    rw [littleEndian_length]
    omega
  have placed₂ : Placed pos content (v₂.files file).file := by
    rw [call_file reads₁]
    exact placed₁.of_bytes bytes_seekToContentPos
  have last : ((reading fd currentTime v).files file).file =
      (seekToContentPos fd (v₂.files file).file).2 := call_file reads₂ _
  rw [ahead, last, bytes_seekToContentPos, (seekToContentPos_placed fd placed₂).2]
  exact placed₂.stands

theorem loadUrl_source {f : File} {ifNoneMatch : Bytes} {stale : ℕ → Byte} {now : UInt64}
    (long : 25 ≤ f.bytes.length) :
    (Freshness.loadUrl ifNoneMatch stale http200Time now fd f).1 =
      if Named ifNoneMatch stale f then .notModified
      else if (timeToCache http200Time (storedCode f)).toNat ≤ now.toNat ∧
        Fresh http200Time now f then .cache
      else .backend := by
  have check : (pread 8 8 f).length = 8 := by
    rw [length_pread]
    omega
  have code : (pread 2 16 f).length = 2 := by
    rw [length_pread]
    omega
  unfold Freshness.loadUrl
  by_cases named : Named ifNoneMatch stale f
  · rw [if_pos named, if_pos named]
  · rw [if_neg named, if_neg named, if_neg (by omega), if_neg (not_not.mpr check),
      if_neg (not_not.mpr code)]
    dsimp only
    rw [read_succeeds long, if_congr clamped_lt_iff rfl rfl]
    unfold Fresh
    split <;> rfl

section Bytes

variable {f f' : File}

theorem named_congr {ifNoneMatch : Bytes} {stale : ℕ → Byte} (same : f'.bytes = f.bytes) :
    Named ifNoneMatch stale f' ↔ Named ifNoneMatch stale f := by
  simp only [Named, pread, same]

theorem served_congr {now : UInt64} (same : f'.bytes = f.bytes) :
    ((timeToCache http200Time (storedCode f')).toNat ≤ now.toNat ∧ Fresh http200Time now f') ↔
      (timeToCache http200Time (storedCode f)).toNat ≤ now.toNat ∧ Fresh http200Time now f := by
  simp only [Fresh, storedCode, storedCheck, pread, same]

end Bytes

theorem openName_opened {name : Bytes} (named : v.names name = some file) :
    (perform hostsubfolder enable XXH3_64bits (.openName name) v).readers v.newFd = some file ∧
      ((perform hostsubfolder enable XXH3_64bits (.openName name) v).files file).file.bytes =
        (v.files file).file.bytes := by
  let opened : Volume := { v with
    readers := Function.update v.readers v.newFd (some file)
    newFd := v.newFd + 1 }
  have reads : opened.readers v.newFd = some file := Function.update_self _ _ _
  have eq : perform hostsubfolder enable XXH3_64bits (.openName name) v =
      Volume.call v.newFd (.lseek 0) opened := by
    rw [perform, Volume.openName, named]
    rfl
  rw [eq, call_readers, call_file reads]
  exact ⟨reads, rfl⟩

/-- The client is sent a content behind the id of its request, and is gone. -/
def Answered (content : Bytes) (id : ℕ) (reply : Reply) : Prop :=
  ∃ c, reply = .sent c ∧ Framed content id [] c

theorem answer_replies (http200Time : UInt32) (r : Request)
    (taken : ∀ k, (visit.socket k).sent = .whole) {id : ℕ} (small : id < 65536)
    (reads : v.readers fd = some file) (placed : Placed pos content (v.files file).file)
    (long : 25 ≤ (v.files file).file.bytes.length) :
    (Named r.ifNoneMatch visit.stale (v.files file).file →
        Answered Page.notModified.text id (answer http200Time visit r (some id) fd file v).2) ∧
      (¬Named r.ifNoneMatch visit.stale (v.files file).file →
        if (timeToCache http200Time (storedCode (v.files file).file)).toNat ≤
            visit.currentTime.toNat ∧
          Fresh http200Time visit.currentTime (v.files file).file then
          content ≠ [] → Answered content id (answer http200Time visit r (some id) fd file v).2
        else (answer http200Time visit r (some id) fd file v).2 = .asksDns r) := by
  have source : (Freshness.loadUrl r.ifNoneMatch visit.stale http200Time visit.currentTime fd
      (v.files file).file).1 = _ := loadUrl_source long
  unfold answer
  dsimp only
  rw [source]
  constructor
  · intro named
    rw [if_pos named]
    have filled : 0 < Page.notModified.text.length := by decide
    have short : Page.notModified.text.length < 65536 := by decide
    exact ⟨_, rfl, page_framed (c := newcomer (some id)) taken small rfl rfl rfl rfl filled short⟩
  · intro unnamed
    rw [if_neg unnamed]
    split
    · intro filled
      have here := ahead_reading reads visit.currentTime.toNat placed
      have nonempty : ahead fd (reading fd visit.currentTime.toNat v) file ≠ [] := by rwa [here]
      refine ⟨_, rfl, ?_⟩
      rw [← here]
      exact startCached_framed (c := newcomer (some id)) taken small nonempty rfl rfl rfl
    · rfl

theorem visit_replies (enable : Bool) (http200Time : UInt32) (sound : Sound hostsubfolder v)
    (taken : ∀ k, (visit.socket k).sent = .whole)
    (leads : (ClientModel.readyToRead .new visit.read).2 = .download r)
    (free : v.pathToHttp r.https (cachePath hostsubfolder XXH3_64bits r) = none)
    (named : v.names (cachePath hostsubfolder XXH3_64bits r) = some file) :
    ∃ id b, (ClientModel.readyToRead .new visit.read).1.fastcgiid = some id ∧
      v.born file = some b ∧
      (Named r.ifNoneMatch visit.stale (v.files file).file → Answered Page.notModified.text id
        (readyToRead hostsubfolder enable XXH3_64bits http200Time visit v).2) ∧
      (¬Named r.ifNoneMatch visit.stale (v.files file).file →
        if (timeToCache http200Time (storedCode (v.files file).file)).toNat ≤
            visit.currentTime.toNat ∧
          Fresh http200Time visit.currentTime (v.files file).file then
          b.header ++ (v.files file).body ≠ [] → Answered (b.header ++ (v.files file).body) id
            (readyToRead hostsubfolder enable XXH3_64bits http200Time visit v).2
        else (readyToRead hostsubfolder enable XXH3_64bits http200Time visit v).2 =
          .asksDns r) := by
  obtain ⟨id, small, known⟩ := download_numbered leads
  obtain ⟨-, b, born⟩ := published sound (VolumeMoves.cachePath_final XXH3_64bits r) named
  have placed := (sound.agree file b born).placed
  have long : 25 ≤ (v.files file).file.bytes.length := by
    obtain ⟨c, size, -⟩ := placed.size
    have count := congrArg List.length size
    rw [List.length_take, List.length_drop, List.length_singleton] at count
    omega
  have eq : (readyToRead hostsubfolder enable XXH3_64bits http200Time visit v).2 =
      (answer http200Time visit r (some id) v.newFd file
        (perform hostsubfolder enable XXH3_64bits
          (.openName (cachePath hostsubfolder XXH3_64bits r)) v)).2 := by
    simp only [readyToRead, leads, loadUrl, free, named, known, Option.isSome_none,
      Bool.false_eq_true, if_false]
  refine ⟨id, b, known, born, ?_⟩
  rw [eq]
  obtain ⟨reads, bytes⟩ : _ ∧ ((perform hostsubfolder enable XXH3_64bits
      (.openName (cachePath hostsubfolder XXH3_64bits r)) v).files file).file.bytes = _ :=
    openName_opened named
  generalize perform hostsubfolder enable XXH3_64bits
    (.openName (cachePath hostsubfolder XXH3_64bits r)) v = w at reads bytes ⊢
  have replies := answer_replies http200Time r taken small reads (placed.of_bytes bytes)
    (bytes ▸ long)
  rw [named_congr bytes, if_congr (served_congr bytes) rfl rfl] at replies
  exact replies

theorem stored_content {header body : Bytes} (born : v.born file = some b)
    (head : (v.born file).map Birth.header = some header) (tail : (v.files file).body = body) :
    b.header ++ (v.files file).body = header ++ body := by
  rw [born] at head
  rw [Option.some.inj head, tail]

/-- Every request for a page that no download has under way and whose file is there is
answered at once, under its id: with a 304 when it names the ETag of the file, and
otherwise, as long as the file is fresh, with the header and the whole body that one
download has stored. Any other is asked of the DNS first. -/
theorem requests_are_answered_from_finished_files
    (reached : Reach (Step hostsubfolder enable XXH3_64bits) (Apart hostsubfolder XXH3_64bits)
      (· = Volume.initial) v)
    (taken : ∀ k, (visit.socket k).sent = .whole)
    (leads : (ClientModel.readyToRead .new visit.read).2 = .download r)
    (free : v.pathToHttp r.https (cachePath hostsubfolder XXH3_64bits r) = none)
    (named : v.names (cachePath hostsubfolder XXH3_64bits r) = some file) :
    ∃ id b, (ClientModel.readyToRead .new visit.read).1.fastcgiid = some id ∧
      v.born file = some b ∧
      (Named r.ifNoneMatch visit.stale (v.files file).file → Answered Page.notModified.text id
        (readyToRead hostsubfolder enable XXH3_64bits http200Time visit v).2) ∧
      (¬Named r.ifNoneMatch visit.stale (v.files file).file →
        if (timeToCache http200Time (storedCode (v.files file).file)).toNat ≤
            visit.currentTime.toNat ∧
          Fresh http200Time visit.currentTime (v.files file).file then
          b.header ++ (v.files file).body ≠ [] → Answered (b.header ++ (v.files file).body) id
            (readyToRead hostsubfolder enable XXH3_64bits http200Time visit v).2
        else (readyToRead hostsubfolder enable XXH3_64bits http200Time visit v).2 =
          .asksDns r) :=
  visit_replies enable http200Time (reach_sound reached) taken leads free named

def pageVisit : Visit where
  read := ⟨FastCgiRecords.requestOf [(ascii "HTTP_HOST", ascii "61.cdn.confiared.com"),
    (ascii "REQUEST_URI", ascii "/")], fun _ => 0⟩
  currentTime := 8
  stale := fun _ => 0
  socket := OneDocument.ready

set_option maxRecDepth 4096 in
theorem downloaded_page_is_sent : ∃ id, Answered [9, 1, 2] id
    (readyToRead true true CacheKeys.XXH3_len_0to16_64b 5 pageVisit ended).2 := by
  have leads : (ClientModel.readyToRead .new pageVisit.read).2 = .download page := by decide
  have free : ended.pathToHttp page.https pagePath = none := by decide +kernel
  have named : ended.names pagePath = some 0 := by decide +kernel
  have header : (ended.born 0).map Birth.header = some [9] := by decide +kernel
  have body : (ended.files 0).body = [1, 2] := by decide +kernel
  have unnamed : ¬Named page.ifNoneMatch pageVisit.stale (ended.files 0).file := by decide +kernel
  have served : (timeToCache 5 (storedCode (ended.files 0).file)).toNat ≤
      pageVisit.currentTime.toNat ∧ Fresh 5 pageVisit.currentTime (ended.files 0).file := by
    decide +kernel
  obtain ⟨id, b, -, born, -, answers⟩ := requests_are_answered_from_finished_files
    ended_reached (fun _ => rfl) leads free named
  have sent := answers unnamed
  rw [if_pos served, stored_content born header body] at sent
  exact ⟨id, sent (List.cons_ne_nil _ _)⟩

section Finished

variable {c : Handle} {w : Volume}

/-- What a download has stored when it ends is what everyone is sent who asks for the page
later, as long as the file has its path and is fresh. -/
theorem finished_page_is_sent
    (reached : Reach (Step hostsubfolder true XXH3_64bits) (Apart hostsubfolder XXH3_64bits)
      (· = Volume.initial) v) (writes : Writes v h c)
    (own : (v.downloads h).cachePath = cachePath hostsubfolder XXH3_64bits r)
    (large : 25 < size c.file v) (small : size c.file v < 100000000)
    (later : Reach (Step hostsubfolder true XXH3_64bits) (Apart hostsubfolder XXH3_64bits)
      (· = perform hostsubfolder true XXH3_64bits (.disconnectBackend h true) v) w)
    (still : w.names (cachePath hostsubfolder XXH3_64bits r) = some c.file)
    (free : w.pathToHttp r.https (cachePath hostsubfolder XXH3_64bits r) = none)
    (taken : ∀ k, (visit.socket k).sent = .whole)
    (leads : (ClientModel.readyToRead .new visit.read).2 = .download r)
    (unnamed : ¬Named r.ifNoneMatch visit.stale (w.files c.file).file)
    (served : (timeToCache http200Time (storedCode (w.files c.file).file)).toNat ≤
        visit.currentTime.toNat ∧ Fresh http200Time visit.currentTime (w.files c.file).file) :
    ∃ id b, (ClientModel.readyToRead .new visit.read).1.fastcgiid = some id ∧
      v.born c.file = some b ∧ (b.header ++ (v.files c.file).body ≠ [] →
        Answered (b.header ++ (v.files c.file).body) id
          (readyToRead hostsubfolder true XXH3_64bits http200Time visit w).2) := by
  have sound := reach_sound reached
  have final : Final hostsubfolder (cachePath hostsubfolder XXH3_64bits r) :=
    VolumeMoves.cachePath_final XXH3_64bits r
  have path : (v.downloads h).cachePath ≠ [] := own ▸ final.ne_nil
  obtain ⟨named, files, borns⟩ := disconnectBackend_publishes sound writes path large small false
  rw [own] at named
  have ended : Sound hostsubfolder
      (perform hostsubfolder true XXH3_64bits (.disconnectBackend h true) v) :=
    reach_sound (reached.next (e := CacheVolume.Event.disconnectBackend h true) trivial rfl)
  obtain ⟨sound', stays⟩ := later_stays ended (published ended final named).1 later
  have body : (w.files c.file).body = (v.files c.file).body := by
    rw [Run.body, Run.body, stays.writes, perform, files]
  have born : w.born c.file = v.born c.file := stays.born.trans (congrFun borns c.file)
  obtain ⟨id, b, known, born', -, replies⟩ := visit_replies true http200Time sound' taken leads
    free still
  have sent := replies unnamed
  rw [if_pos served, body] at sent
  exact ⟨id, b, known, born.symm.trans born', sent⟩

def pageHandle : Handle := ⟨0, 0, true⟩

def visited : Volume := (readyToRead true true CacheKeys.XXH3_len_0to16_64b 5 pageVisit ended).1

set_option maxRecDepth 4096 in
theorem next_client_is_sent_the_page : ∃ id, Answered [9, 1, 2] id
    (readyToRead true true CacheKeys.XXH3_len_0to16_64b 5 pageVisit visited).2 := by
  have writes : Writes written 0 pageHandle := ⟨by decide +kernel, rfl⟩
  have own : (written.downloads 0).cachePath =
      cachePath true CacheKeys.XXH3_len_0to16_64b page := by decide +kernel
  have large : 25 < size pageHandle.file written := by decide +kernel
  have small : size pageHandle.file written < 100000000 := by decide +kernel
  have later : Reach (Step true true CacheKeys.XXH3_len_0to16_64b)
      (Apart true CacheKeys.XXH3_len_0to16_64b) (· = perform true true
        CacheKeys.XXH3_len_0to16_64b (.disconnectBackend 0 true) written) visited :=
    readyToRead_reached pageVisit (.start rfl)
  have still : visited.names (cachePath true CacheKeys.XXH3_len_0to16_64b page) =
      some pageHandle.file := by decide +kernel
  have free : visited.pathToHttp page.https
      (cachePath true CacheKeys.XXH3_len_0to16_64b page) = none := by decide +kernel
  have leads : (ClientModel.readyToRead .new pageVisit.read).2 = .download page := by decide
  have unnamed : ¬Named page.ifNoneMatch pageVisit.stale (visited.files pageHandle.file).file := by
    decide +kernel
  have served : (timeToCache 5 (storedCode (visited.files pageHandle.file).file)).toNat ≤
        pageVisit.currentTime.toNat ∧
      Fresh 5 pageVisit.currentTime (visited.files pageHandle.file).file := by decide +kernel
  have header : (written.born pageHandle.file).map Birth.header = some [9] := by decide +kernel
  have body : (written.files pageHandle.file).body = [1, 2] := by decide +kernel
  obtain ⟨id, b, -, born, sent⟩ := finished_page_is_sent written_reached writes own large small
    later still free (fun _ => rfl) leads unnamed served
  rw [stored_content born header body] at sent
  exact ⟨id, sent (List.cons_ne_nil _ _)⟩

end Finished

section Bare

theorem disconnectBackend_bare (bare : (v.downloads h).tempCache = none) (renamed : Bool) :
    Volume.disconnectBackend enable false h renamed v = unregister false h (closeFinal h v) := by
  unfold Volume.disconnectBackend
  dsimp only
  rw [closeFinal_downloads]
  dsimp only
  rw [bare]

end Bare

end Hits

end FastCgiCdn.CacheHits
