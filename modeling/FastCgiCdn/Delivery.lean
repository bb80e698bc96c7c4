import FastCgiCdn.FanOut
import FastCgiCdn.GuardedRuns
import FastCgiCdn.RecordFormat

/-! A download with its clients, from the first client to the end of the body. A
client whose socket takes every write whole is sent the content of the cache file
and one END_REQUEST when the download completes with at most two clients. -/

namespace FastCgiCdn.Delivery

open HttpModel ClientOutput RangeFor FanOut GuardedRuns RecordFormat

section Links

variable {ι : Type} {socket : Schedule} {disk : ι → Bytes} {c c' : Client ι}

def NeverLinks (c c' : Client ι) : Prop := c.http = false → c'.http = false

theorem write_never (data : Bytes) : NeverLinks c (c.write socket data) := by
  intro free
  simp only [Client.write, Client.direct, Client.ask]
  split
  · split
    · split
      · exact free
      · split
        · rfl
        · exact free
        · rfl
    · exact free
  · exact free

theorem writeOutput_never (data : Bytes) : NeverLinks c (c.writeOutput socket data) := by
  intro free
  exact write_never data (write_never _ free)

theorem readOn_never : NeverLinks c (c.readOn socket disk).1 := by
  intro free
  apply Client.readOn_invariant (fun d => d.http = false) free
  exact fun _ _ _ before _ _ => writeOutput_never _ before

theorem continueRead_never : NeverLinks c (c.continueRead socket disk) := by
  intro free
  have read : (c.readOn socket disk).1.http = false := readOn_never free
  unfold Client.continueRead
  simp only
  split
  · split
    · exact read
    · rfl
  · exact read

theorem readyToWrite_never : NeverLinks c (c.readyToWrite socket disk) := by
  intro free
  unfold Client.readyToWrite
  split
  · exact continueRead_never free
  · simp only
    split
    · rfl
    · split
      · exact free
      · split
        · rfl
        · exact free

theorem startRead_never (o : Opening ι) (isPartial : Bool) :
    NeverLinks c (c.startRead socket disk o isPartial) := by
  intro free
  unfold Client.startRead
  simp only
  split
  · rfl
  · rfl
  · rfl
  · unfold Client.startReadCache
    split
    · rfl
    · exact free
    · exact continueRead_never (c := Client.opening _ _ _ _ _) free

end Links

section Wire

def frame (id : Option ℕ) : Record → Bytes
  | .stdout data => plainBytes 6 (id.getD 65535) data
  | .endRequest => plainBytes 3 (id.getD 65535) (List.replicate 8 0)

def wire (id : Option ℕ) (records : List Record) : Bytes := records.flatMap (frame id)

theorem wire_append (id : Option ℕ) (records more : List Record) :
    wire id (records ++ more) = wire id records ++ wire id more := List.flatMap_append

end Wire

/-- A client that has been sent nothing. -/
structure Fresh (linked : Bool) (c : Client Unit) : Prop where
  opened : c.opened = true
  http : c.http = linked
  empty : c.dataToWrite = []
  unread : c.readCache = none
  emitted : c.emitted = []
  accepted : c.accepted = []

/-- A client that has been sent the content up to a position. -/
structure Reading (linked : Bool) (content : Bytes) (pos : ℕ) (c : Client Unit) : Prop where
  opened : c.opened = true
  http : c.http = linked
  empty : c.dataToWrite = []
  growing : c.isPartial = true
  reader : c.readCache = some ⟨(), pos⟩
  bound : pos ≤ content.length
  begun : 0 < pos → c.outputWrited = true
  records : ∃ pieces : List Bytes, c.emitted = pieces.map .stdout ∧
    pieces.flatten = content.take pos ∧ ∀ p ∈ pieces, p.length ≤ Client.bufferSize
  sent : c.accepted = wire c.fastcgiid c.emitted

/-- A client that has been sent all of the content, one END_REQUEST, and nothing
else, and is closed. -/
structure Delivered (content : Bytes) (c : Client Unit) : Prop where
  closed : c.opened = false
  empty : c.dataToWrite = []
  released : c.readCache = none
  whole : ∃ (id : Option ℕ) (pieces : List Bytes),
    c.emitted = pieces.map .stdout ++ [.endRequest] ∧ pieces.flatten = content ∧
      (∀ p ∈ pieces, p.length ≤ Client.bufferSize) ∧ c.accepted = wire id c.emitted

section Client

variable {socket : Schedule} {content : Bytes} {pos : ℕ} {linked : Bool} {c : Client Unit}

theorem Reading.readPiece (whole : ∀ k, (socket k).sent = .whole)
    (reading : Reading linked content pos c) (inside : pos < content.length) :
    Reading linked content (pos + (Client.piece content pos).length)
      (c.readPiece socket () content pos) := by
  have long := Client.piece_length content pos
  obtain ⟨pieces, emitted, so_far, small⟩ := reading.records
  unfold Client.readPiece
  simp only
  rw [Client.writeOutput_whole whole (by exact reading.opened) (by exact reading.empty)]
  constructor
  · exact reading.opened
  · exact reading.http
  · exact reading.empty
  · exact reading.growing
  · rfl
  · omega
  · intro _
    rfl
  · refine ⟨pieces ++ [Client.piece content pos], ?_, ?_, ?_⟩
    · simp [emitted]
    · rw [List.flatten_append, so_far, List.flatten_singleton, Client.take_piece]
    · intro p listed
      rcases List.mem_append.mp listed with before | last
      · exact small p before
      · rw [List.mem_singleton.mp last]
        omega
  · simp only [wire_append, ← reading.sent]
    simp [wire, frame, plainBytes_eq, Client.header, Client.be16]

theorem Reading.readOn (whole : ∀ k, (socket k).sent = .whole)
    (reading : Reading linked content pos c) :
    Reading linked content content.length (c.readOn socket fun _ => content).1 := by
  obtain ⟨last, reached, ended, waits⟩ := Client.readOn_rule socket (fun _ => content)
    (fun pos d => Reading linked content pos d) reading.reader reading.empty reading
    fun pos d before inside => before.readPiece whole inside
  cases stopped : (c.readOn socket fun _ => content).2 with
  | false => exact absurd reached.empty (waits stopped)
  | true =>
    have bound := reached.bound
    have done : content.length ≤ last := ended stopped
    obtain rfl : last = content.length := by omega
    exact reached

theorem Reading.continueRead (whole : ∀ k, (socket k).sent = .whole)
    (reading : Reading linked content pos c) :
    Reading linked content content.length (c.continueRead socket fun _ => content) := by
  have read := reading.readOn whole
  unfold Client.continueRead
  simp only
  split
  · rw [if_pos read.growing]
    exact ⟨read.opened, read.http, read.empty, read.growing, read.reader, read.bound, read.begun,
      read.records, read.sent⟩
  · exact read

theorem Reading.readyToWrite (whole : ∀ k, (socket k).sent = .whole)
    (reading : Reading linked content pos c) :
    Reading linked content content.length (c.readyToWrite socket fun _ => content) := by
  unfold Client.readyToWrite
  rw [if_pos reading.empty]
  exact reading.continueRead whole

theorem Reading.grow (reading : Reading linked content pos c) (data : Bytes) :
    Reading linked (content ++ data) pos c where
  opened := reading.opened
  http := reading.http
  empty := reading.empty
  growing := reading.growing
  reader := reading.reader
  bound := by
    have bound := reading.bound
    rw [List.length_append]
    omega
  begun := reading.begun
  records := by
    rw [List.take_append_of_le_length reading.bound]
    exact reading.records
  sent := reading.sent

theorem Reading.sendEnd (whole : ∀ k, (socket k).sent = .whole)
    (reading : Reading linked content content.length c) :
    Delivered content (c.sendEnd socket).disconnect := by
  obtain ⟨pieces, emitted, all, small⟩ := reading.records
  rw [Client.sendEnd_whole whole reading.opened reading.empty]
  constructor
  · rfl
  · rfl
  · rfl
  · refine ⟨c.fastcgiid, pieces, ?_, ?_, small, ?_⟩
    · change c.emitted ++ [Record.endRequest] = _
      rw [emitted]
    · rw [all, List.take_length]
    · change c.accepted ++ c.endRecord = wire c.fastcgiid (c.emitted ++ [Record.endRequest])
      rw [wire_append, ← reading.sent]
      simp [wire, frame, plainBytes_eq, Client.endRecord, Client.header, Client.be16]

theorem Reading.delivered (whole : ∀ k, (socket k).sent = .whole)
    (reading : Reading linked content pos c) (begun : 0 < pos) :
    Delivered content (c.writeEnd socket fun _ => content).disconnect := by
  have detached : Reading false content pos c.disconnectFromHttp :=
    ⟨reading.opened, rfl, reading.empty, reading.growing, reading.reader, reading.bound,
      reading.begun, reading.records, reading.sent⟩
  have started : c.disconnectFromHttp.outputWrited = true := reading.begun begun
  have growing : (c.disconnectFromHttp.isPartial && c.disconnectFromHttp.readCache.isSome) = true := by
    rw [detached.growing, detached.reader]
    rfl
  unfold Client.writeEnd
  simp only
  rw [if_pos started, if_pos growing]
  exact (detached.continueRead whole).sendEnd whole

theorem Fresh.continueRead {disk : Unit → Bytes} (fresh : Fresh linked c) :
    c.continueRead socket disk = c := by
  unfold Client.continueRead
  rw [Client.readOn_idle socket disk (.inl fresh.unread)]
  rfl

theorem Fresh.readyToWrite {disk : Unit → Bytes} (fresh : Fresh linked c) :
    c.readyToWrite socket disk = c := by
  unfold Client.readyToWrite
  rw [if_pos fresh.empty, fresh.continueRead]

theorem Delivered.readyToWrite {disk : Unit → Bytes} (delivered : Delivered content c) :
    c.readyToWrite socket disk = c := by
  unfold Client.readyToWrite
  rw [if_pos delivered.empty]
  unfold Client.continueRead
  rw [Client.readOn_idle socket disk (.inl delivered.released)]
  rfl

/-- All seeks to the content of the file succeed. -/
def Found (o : Opening Unit) : Prop := ∃ seeks, o = .opened () (seeks + 3)

theorem Fresh.startRead {o : Opening Unit} (whole : ∀ k, (socket k).sent = .whole) (found : Found o)
    (fresh : Fresh linked c) :
    Reading linked content content.length (c.startRead socket (fun _ => content) o true) := by
  obtain ⟨seeks, rfl⟩ := found
  have opened : Reading linked content 0
      (({ c with isPartial := true } : Client Unit).opening (fun _ => content) () (seeks + 3) 3) := by
    constructor
    · exact fresh.opened
    · exact fresh.http
    · exact fresh.empty
    · rfl
    · have past : ¬seeks + 3 < 3 := by omega
      simp [Client.opening, past]
    · exact Nat.zero_le _
    · intro wrong
      exact absurd wrong (Nat.lt_irrefl 0)
    · refine ⟨[], fresh.emitted, rfl, ?_⟩
      intro p listed
      cases listed
    · change c.accepted = wire c.fastcgiid c.emitted
      rw [fresh.accepted, fresh.emitted]
      rfl
  exact opened.continueRead whole

end Client

/-- A download and its clients. The file holds the content from the head on. -/
structure State (κ : Type) where
  clients : Clients Unit κ
  tempCache : Option Bytes
  joined : List κ
  completed : Bool

/-- Where a client stands in the download. -/
inductive Stage {κ : Type} (s : State κ) (i : κ) (c : Client Unit) : Prop
  | apart (out : i ∉ s.joined) (fresh : Fresh false c)
  | waiting (member : i ∈ s.joined) (going : s.completed = false) (headless : s.tempCache = none)
    (fresh : Fresh true c)
  | reading (member : i ∈ s.joined) (going : s.completed = false) (content : Bytes) (pos : ℕ)
    (file : s.tempCache = some content) (begun : 0 < pos) (reads : Reading true content pos c)
  | delivered (member : i ∈ s.joined) (ended : s.completed = true) (content : Bytes)
    (file : s.tempCache = some content) (done : Delivered content c)

theorem Stage.congr {κ : Type} {i : κ} {s t : State κ} {c : Client Unit} (stage : Stage s i c)
    (joined : i ∈ t.joined ↔ i ∈ s.joined) (tempCache : t.tempCache = s.tempCache)
    (completed : t.completed = s.completed) : Stage t i c := by
  cases stage with
  | apart out fresh => exact .apart (mt joined.mp out) fresh
  | waiting member going headless fresh =>
    exact .waiting (joined.mpr member) (completed.trans going) (tempCache.trans headless) fresh
  | reading member going content pos file begun reads =>
    exact .reading (joined.mpr member) (completed.trans going) content pos (tempCache.trans file)
      begun reads
  | delivered member ended content file done =>
    exact .delivered (joined.mpr member) (completed.trans ended) content (tempCache.trans file) done

structure Inv {κ : Type} (i : κ) (s : State κ) : Prop where
  tied : Tied Client.http s.clients
  headed : ∀ content, s.tempCache = some content → content ≠ []
  stage : Stage s i (s.clients.state i)

def Initial {κ : Type} (s : State κ) : Prop :=
  s.clients.slots.live = [] ∧ (∀ i, Fresh false (s.clients.state i)) ∧ s.tempCache = none ∧
    s.joined = [] ∧ s.completed = false

theorem initial_inv {κ : Type} {i : κ} {s : State κ} (first : Initial s) : Inv i s := by
  obtain ⟨live, fresh, headless, joined, -⟩ := first
  refine ⟨⟨?_, ?_⟩, ?_, .apart ?_ (fresh i)⟩
  · rw [live]
    exact List.nodup_nil
  · intro b
    rw [live, (fresh b).http]
    simp
  · intro content file
    rw [headless] at file
    cases file
  · rw [joined]
    exact List.not_mem_nil

inductive Event (κ : Type)
  | addClient (i : κ) (o : Opening Unit)
  /-- The head of the response is stored, and all clients start to read. -/
  | head (header : Bytes) (opening : κ → Opening Unit)
  /-- `Http::write`, with what the file system stores of the data. -/
  | write (data : Bytes)
  | readyToWrite (i : κ)
  | hangUp (i : κ)
  | complete

section Run

variable {κ : Type} [DecidableEq κ] (socket : κ → Schedule)

def State.disk (s : State κ) : Unit → Bytes := fun _ => s.tempCache.getD []

/-- A head ends with an empty line, so it is not empty. -/
def next : Event κ → State κ → Option (State κ)
  | .addClient i o, s =>
    if s.completed || (s.clients.state i).http then none
    else some { s with
      clients := addClient socket s.disk (s.tempCache.map fun _ => o) i s.clients
      joined := i :: s.joined }
  | .head header opening, s =>
    if s.completed || s.tempCache.isSome || header.isEmpty then none
    else some { s with
      clients := (startReads socket (fun _ => header) opening true s.clients).1
      tempCache := some header }
  | .write data, s =>
    if s.completed then none
    else s.tempCache.map fun content => { s with
      clients := (resumeReads socket (fun _ => content ++ data) s.clients).1
      tempCache := some (content ++ data) }
  | .readyToWrite i, s =>
    some { s with clients := act (Client.readyToWrite (socket i) s.disk) i s.clients }
  | .hangUp i, s => some { s with clients := act Client.disconnect i s.clients }
  | .complete, s =>
    if s.completed then none
    else s.tempCache.map fun content => { s with
      clients := (disconnectFrontend socket (fun _ => content) s.clients).1
      completed := true }

def Step (e : Event κ) (s t : State κ) : Prop := next socket e s = some t

/-- What the other clients of the download, and the file system, must not do to a
client: its file is found, it does not close, the loop that lets all start to read
does not pass over it, and at most two clients are there when the body completes. -/
def Admits (i : κ) : Event κ → State κ → Prop
  | .addClient j o, s => j = i → s.tempCache.isSome = true → Found o
  | .head header opening, s => i ∈ s.joined → Found (opening i) ∧
      Stay (fun j => Client.startRead (socket j) (fun _ => header) (opening j) true) s.clients
  | .hangUp j, _ => j ≠ i
  | .complete, s => s.clients.slots.live.length ≤ 2
  | _, _ => True

variable {socket} {i j : κ} {s t : State κ} {w : Clients Unit κ} {f : Client Unit → Client Unit}

theorem act_state_self : (act f i w).state i = f (w.state i) := by
  simp [act, visit]

theorem act_state_ne (other : i ≠ j) : (act f j w).state i = w.state i := visit_state_ne other

theorem act_tied (tied : Tied Client.http w) (never : ∀ c, NeverLinks c (f c)) :
    Tied Client.http (act f j w) := tied.visit never

theorem forEach_apart {g : κ → Client Unit → Client Unit} (tied : Tied Client.http w)
    (free : (w.state i).http = false) : (forEach g w).1.state i = w.state i := by
  refine (walk_misses (Nat.zero_add _) tied.distinct (Nat.le_refl _) ?_).2
  intro k _ inside here
  rw [Slots.cells, List.getElem?_append_left inside] at here
  rw [(tied.back i).mp (List.mem_of_getElem? here)] at free
  cases free

theorem forEach_tied {g : κ → Client Unit → Client Unit} (tied : Tied Client.http w)
    (never : ∀ j c, NeverLinks c (g j c)) : Tied Client.http (forEach g w).1 :=
  tied.walk never _ _

theorem addClient_tied {disk : Unit → Bytes} {started : Option (Opening Unit)}
    (tied : Tied Client.http w) (free : (w.state j).http = false) :
    Tied Client.http (addClient socket disk started j w) := by
  have pushed : Tied Client.http
      ⟨w.slots.push j, Function.update w.state j { w.state j with http := true }⟩ :=
    tied.push free rfl
  cases started with
  | none => exact pushed
  | some o => exact act_tied pushed fun c => startRead_never o true

theorem inv_addClient {o : Opening Unit} (whole : ∀ k, (socket i k).sent = .whole) (inv : Inv i s)
    (admitted : Admits socket i (.addClient j o) s) (taken : Step socket (.addClient j o) s t) :
    Inv i t := by
  simp only [Step, next, Option.ite_none_left_eq_some, Bool.or_eq_true, not_or] at taken
  obtain ⟨⟨going, alone⟩, same⟩ := taken
  obtain rfl := Option.some.inj same
  have free : (s.clients.state j).http = false := by simpa using alone
  refine ⟨addClient_tied inv.tied free, inv.headed, ?_⟩
  by_cases self : i = j
  · subst self
    cases inv.stage with
    | apart out fresh =>
      have linked : Fresh true { s.clients.state i with http := true } :=
        ⟨fresh.opened, rfl, fresh.empty, fresh.unread, fresh.emitted, fresh.accepted⟩
      cases file : s.tempCache with
      | none =>
        refine .waiting List.mem_cons_self (by simpa using going) rfl ?_
        simpa [addClient] using linked
      | some content =>
        have found : Found o := admitted rfl (by rw [file]; rfl)
        have reads : Reading true content content.length _ := linked.startRead whole found
        have same : s.disk = fun _ => content := by
          unfold State.disk
          rw [file]
          rfl
        refine .reading List.mem_cons_self (by simpa using going) content content.length rfl
          (List.length_pos_iff.mpr (inv.headed content file)) ?_
        simpa [addClient, same, act_state_self] using reads
    | waiting _ _ _ fresh =>
      rw [fresh.http] at free
      cases free
    | reading _ _ _ _ _ _ reads =>
      rw [reads.http] at free
      cases free
    | delivered _ ended =>
      rw [ended] at going
      exact absurd rfl going
  · have same : (addClient socket s.disk (s.tempCache.map fun _ => o) j s.clients).state i =
        s.clients.state i := by
      cases file : s.tempCache with
      | none => simp [addClient, self]
      | some content => simp [addClient, self, act_state_ne]
    change Stage _ i ((addClient _ _ _ j s.clients).state i)
    rw [same]
    exact inv.stage.congr (by simp [self]) rfl rfl

theorem inv_head {header : Bytes} {opening : κ → Opening Unit}
    (whole : ∀ k, (socket i k).sent = .whole) (inv : Inv i s)
    (admitted : Admits socket i (.head header opening) s)
    (taken : Step socket (.head header opening) s t) : Inv i t := by
  simp only [Step, next, Option.ite_none_left_eq_some, Bool.or_eq_true, not_or] at taken
  obtain ⟨⟨⟨going, headless⟩, nonempty⟩, same⟩ := taken
  obtain rfl := Option.some.inj same
  have some_header : header ≠ [] := by simpa using nonempty
  have none : s.tempCache = none := by simpa using headless
  constructor
  · exact forEach_tied inv.tied fun j c => startRead_never (opening j) true
  · intro content same
    obtain rfl := Option.some.inj same
    exact some_header
  · cases inv.stage with
    | apart out fresh =>
      refine .apart out ?_
      have same := forEach_apart (g := fun j => Client.startRead (socket j) (fun _ => header)
        (opening j) true) inv.tied fresh.http
      exact same ▸ fresh
    | waiting member _ _ fresh =>
      obtain ⟨found, stay⟩ := admitted member
      have listed : i ∈ s.clients.slots.live := (inv.tied.back i).mpr fresh.http
      have state := (loop_steady inv.tied.distinct stay).2 i
      rw [if_pos listed] at state
      refine .reading member (by simpa using going) header header.length rfl
        (List.length_pos_iff.mpr some_header) ?_
      exact state ▸ fresh.startRead whole found
    | reading _ _ content _ file =>
      rw [none] at file
      cases file
    | delivered _ _ content file =>
      rw [none] at file
      cases file

theorem inv_write {data : Bytes} (whole : ∀ k, (socket i k).sent = .whole) (inv : Inv i s)
    (taken : Step socket (.write data) s t) : Inv i t := by
  simp only [Step, next, Option.ite_none_left_eq_some, Option.map_eq_some_iff] at taken
  obtain ⟨going, content, file, rfl⟩ := taken
  constructor
  · exact forEach_tied inv.tied fun j c => continueRead_never
  · intro content' same
    obtain rfl := Option.some.inj same
    intro wrong
    exact inv.headed content file (List.append_eq_nil_iff.mp wrong).1
  · cases inv.stage with
    | apart out fresh =>
      refine .apart out ?_
      have same := forEach_apart (g := fun j => Client.tryResumeReadAfterEndOfFile (socket j)
        fun _ => content ++ data) inv.tied fresh.http
      exact same ▸ fresh
    | waiting _ _ none =>
      rw [file] at none
      cases none
    | reading member still content' pos file' begun reads =>
      obtain rfl := Option.some.inj (file.symm.trans file')
      have start : ∃ pos, 0 < pos ∧ Reading true (content ++ data) pos (s.clients.state i) :=
        ⟨pos, begun, reads.grow data⟩
      have kept : ∃ pos, 0 < pos ∧ Reading true (content ++ data) pos
          ((resumeReads socket (fun _ => content ++ data) s.clients).1.state i) := by
        refine walk_keeps (P := fun c => ∃ pos, 0 < pos ∧ Reading true (content ++ data) pos c)
          ?_ _ _ start
        rintro c ⟨pos, begun, reads⟩
        exact ⟨_, Nat.lt_of_lt_of_le begun reads.bound, reads.continueRead whole⟩
      obtain ⟨pos', begun', reads'⟩ := kept
      exact .reading member still _ pos' rfl begun' reads'
    | delivered _ ended =>
      rw [ended] at going
      exact absurd rfl going

theorem inv_readyToWrite (whole : ∀ k, (socket i k).sent = .whole) (inv : Inv i s)
    (taken : Step socket (.readyToWrite j) s t) : Inv i t := by
  obtain rfl := Option.some.inj taken
  refine ⟨act_tied inv.tied fun c => readyToWrite_never, inv.headed, ?_⟩
  by_cases self : i = j
  · subst self
    change Stage _ i ((act _ i s.clients).state i)
    rw [act_state_self]
    cases inv.stage with
    | apart out fresh =>
      rw [fresh.readyToWrite]
      exact .apart out fresh
    | waiting member going headless fresh =>
      rw [fresh.readyToWrite]
      exact .waiting member going headless fresh
    | reading member going content pos file begun reads =>
      have same : s.disk = fun _ => content := by
        unfold State.disk
        rw [file]
        rfl
      rw [same]
      exact .reading member going content _ file (Nat.lt_of_lt_of_le begun reads.bound)
        (reads.readyToWrite whole)
    | delivered member ended content file done =>
      rw [done.readyToWrite]
      exact .delivered member ended content file done
  · change Stage _ i ((act _ j s.clients).state i)
    rw [act_state_ne self]
    exact inv.stage.congr Iff.rfl rfl rfl

theorem inv_hangUp (inv : Inv i s) (other : i ≠ j) (taken : Step socket (.hangUp j) s t) :
    Inv i t := by
  obtain rfl := Option.some.inj taken
  refine ⟨act_tied inv.tied fun c _ => rfl, inv.headed, ?_⟩
  change Stage _ i ((act _ j s.clients).state i)
  rw [act_state_ne other]
  exact inv.stage.congr Iff.rfl rfl rfl

theorem inv_complete (whole : ∀ k, (socket i k).sent = .whole) (inv : Inv i s)
    (admitted : Admits socket i .complete s) (taken : Step socket .complete s t) : Inv i t := by
  simp only [Step, next, Option.ite_none_left_eq_some, Option.map_eq_some_iff] at taken
  obtain ⟨going, content, file, rfl⟩ := taken
  have few : s.clients.slots.live.length ≤ 2 := admitted
  have leaves : ∀ j c, (((c : Client Unit).writeEnd (socket j) fun _ => content).disconnect).http =
      false := fun j c => ending_http (socket j) c
  have free := (loop_empties_iff inv.tied leaves).mpr few
  have steady : Stay (fun j c => (c.writeEnd (socket j) fun _ => content).disconnect)
      s.clients := by
    intro k a _ early
    omega
  have state := (loop_steady inv.tied.distinct steady).2 i
  constructor
  · constructor
    · exact List.nodup_nil
    · intro b
      change b ∈ [] ↔ ((forEach _ s.clients).1.state b).http = true
      have none := free b
      simp only [forEach, none, Bool.false_eq_true, List.not_mem_nil]
  · exact inv.headed
  · change Stage _ i ((forEach _ s.clients).1.state i)
    cases inv.stage with
    | apart out fresh =>
      have same := forEach_apart (g := fun j c =>
        (c.writeEnd (socket j) fun _ => content).disconnect) inv.tied fresh.http
      exact .apart out (same ▸ fresh)
    | waiting _ _ none =>
      rw [file] at none
      cases none
    | reading member _ content' pos file' begun reads =>
      obtain rfl := Option.some.inj (file.symm.trans file')
      have listed : i ∈ s.clients.slots.live := (inv.tied.back i).mpr reads.http
      rw [if_pos listed] at state
      exact .delivered member rfl content file (state ▸ reads.delivered whole begun)
    | delivered _ ended =>
      rw [ended] at going
      exact absurd rfl going

theorem inv_step {e : Event κ} (whole : ∀ k, (socket i k).sent = .whole) (inv : Inv i s)
    (admitted : Admits socket i e s) (taken : Step socket e s t) : Inv i t := by
  cases e with
  | addClient j o => exact inv_addClient whole inv admitted taken
  | head header opening => exact inv_head whole inv admitted taken
  | write data => exact inv_write whole inv taken
  | readyToWrite j => exact inv_readyToWrite whole inv taken
  | hangUp j => exact inv_hangUp inv (Ne.symm admitted) taken
  | complete => exact inv_complete whole inv admitted taken

/-- A client whose socket takes every write whole is sent all of the download. -/
theorem download_is_delivered_whole (socket : κ → Schedule) (i : κ)
    (whole : ∀ k, (socket i k).sent = .whole) (s : State κ)
    (reached : Reach (Step socket) (Admits socket i) Initial s) (joined : i ∈ s.joined)
    (completed : s.completed = true) :
    ∃ content, s.tempCache = some content ∧ Delivered content (s.clients.state i) := by
  have inv : Inv i s := by
    refine Reach.invariant (P := Inv i) ?_ ?_ reached
    · intro s first
      exact initial_inv first
    · intro e s t before admitted taken
      exact inv_step whole before admitted taken
  cases inv.stage with
  | apart out => exact absurd joined out
  | waiting _ going =>
    rw [going] at completed
    cases completed
  | reading _ going =>
    rw [going] at completed
    cases completed
  | delivered _ _ content file done => exact ⟨content, file, done⟩

end Run

section Runs

def start : State ℕ where
  clients := ⟨⟨[], []⟩, fun _ => Client.new⟩
  tempCache := none
  joined := []
  completed := false

theorem start_initial : Initial start :=
  ⟨rfl, fun _ => ⟨rfl, rfl, rfl, rfl, rfl, rfl⟩, rfl, rfl, rfl⟩

theorem two_clients_are_served :
    ∃ s : State ℕ, s.tempCache = some [65, 66] ∧ s.joined = [1, 0] ∧
      ∃ content, s.tempCache = some content ∧ Delivered content (s.clients.state 0) := by
  have found : Found (.opened () 3) := ⟨0, rfl⟩
  let step (e : Event ℕ) (s : State ℕ) : State ℕ := (next ready e s).getD s
  let joined := step (.addClient 0 (.opened () 3)) start
  let headed := step (.head [65] fun _ => .opened () 3) joined
  let rejoined := step (.addClient 1 (.opened () 3)) headed
  let written := step (.write [66]) rejoined
  let completed := step .complete written
  have initial : Reach (Step ready) (Admits ready 0) Initial start := .start start_initial
  have at_joined : Reach (Step ready) (Admits ready 0) Initial joined := by
    refine initial.next (e := .addClient 0 (.opened () 3)) ?_ rfl
    exact fun _ _ => found
  have at_headed : Reach (Step ready) (Admits ready 0) Initial headed := by
    refine at_joined.next (e := .head [65] fun _ => .opened () 3) ?_ rfl
    intro _
    refine ⟨found, ?_⟩
    intro k _ _ many
    have few : joined.clients.slots.live.length = 1 := by decide
    omega
  have at_rejoined : Reach (Step ready) (Admits ready 0) Initial rejoined := by
    refine at_headed.next (e := .addClient 1 (.opened () 3)) ?_ rfl
    exact fun _ _ => found
  have at_written : Reach (Step ready) (Admits ready 0) Initial written :=
    at_rejoined.next (e := .write [66]) trivial rfl
  have at_completed : Reach (Step ready) (Admits ready 0) Initial completed := by
    refine at_written.next (e := .complete) ?_ rfl
    change written.clients.slots.live.length ≤ 2
    decide
  have one : 0 ∈ completed.joined := by decide
  exact ⟨completed, by decide, by decide,
    download_is_delivered_whole ready 0 (fun _ => rfl) completed at_completed one (by decide)⟩

def late : ℕ → Schedule := fun _ _ => ⟨.failed .EAGAIN, none, 0⟩

def events : List (Event ℕ) :=
  [.addClient 0 (.opened () 3), .head [65] fun _ => .opened () 3, .complete]

def lost : State ℕ := (follow (next late) events start).getD start

/-- What waits for a slow client is dropped when the download completes. -/
theorem slow_client_is_sent_nothing :
    Reach (Step late) anyStep Initial lost ∧ 0 ∈ lost.joined ∧ lost.completed = true ∧
      (lost.clients.state 0).accepted = [] ∧
      ∀ content, ¬Delivered content (lost.clients.state 0) := by
  have nothing : (lost.clients.state 0).accepted = [] := by decide
  refine ⟨reach_follow events (.start start_initial) rfl, by decide, by decide, nothing, ?_⟩
  intro content delivered
  obtain ⟨id, pieces, emitted, -, -, sent⟩ := delivered.whole
  rw [nothing, emitted, wire_append] at sent
  simp [wire, frame, plainBytes_eq] at sent

end Runs

end FastCgiCdn.Delivery
