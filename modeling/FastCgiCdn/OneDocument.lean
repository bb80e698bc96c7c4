import FastCgiCdn.ClientOutput
import FastCgiCdn.GuardedRuns

/-! What a client is sent before its END_REQUEST: one page, or a prefix of the
content of one cache file, in every run in which no page and no start of a file
reaches an open client whose output has begun. The page functions do not look at
`outputWrited`. -/

namespace FastCgiCdn.OneDocument

open HttpModel ClientOutput GuardedRuns

variable {ι : Type} {socket : Schedule} {disk disk' : ι → Bytes} {c c' c'' : Client ι}

/-- The data of each STDOUT record in front of the first END_REQUEST. -/
def payload : List Record → List Bytes
  | [] => []
  | .endRequest :: _ => []
  | .stdout data :: records => data :: payload records

theorem payload_append_of_mem {records : List Record} (ended : .endRequest ∈ records)
    (more : List Record) : payload (records ++ more) = payload records := by
  induction records with
  | nil => cases ended
  | cons r records ih =>
    cases r with
    | endRequest => rfl
    | stdout data =>
      have rest : .endRequest ∈ records := by simpa using ended
      rw [List.cons_append, payload, payload, ih rest]

theorem payload_append {records : List Record} (going : .endRequest ∉ records)
    (more : List Record) : payload (records ++ more) = payload records ++ payload more := by
  induction records with
  | nil => rfl
  | cons r records ih =>
    cases r with
    | endRequest => simp at going
    | stdout data =>
      have rest : .endRequest ∉ records := by simpa using going
      rw [List.cons_append, payload, payload, ih rest, List.cons_append]

/-- Nothing, one record with a page, or records with the beginning of one file. -/
def IsDocument (disk : ι → Bytes) (sent : List Bytes) : Prop :=
  sent = [] ∨ (∃ p : Page, sent = [p.text]) ∨ ∃ file, sent.flatten <+: disk file

section Later

structure Later (c c' : Client ι) : Prop where
  grows : c.emitted <+: c'.emitted
  closed : c.opened = false → c'.opened = false ∧ c'.emitted = c.emitted

namespace Later

theorem refl (c : Client ι) : Later c c where
  grows := List.prefix_rfl
  closed shut := ⟨shut, rfl⟩

theorem trans (before : Later c c') (behind : Later c' c'') : Later c c'' where
  grows := before.grows.trans behind.grows
  closed shut := by
    obtain ⟨shut', same⟩ := before.closed shut
    obtain ⟨shut'', same'⟩ := behind.closed shut'
    exact ⟨shut'', same'.trans same⟩

theorem of_same (opened : c'.opened = c.opened) (emitted : c'.emitted = c.emitted) :
    Later c c' where
  grows := ⟨[], by rw [List.append_nil, emitted]⟩
  closed shut := ⟨by rw [opened, shut], emitted⟩

theorem disconnect (c : Client ι) : Later c c.disconnect where
  grows := List.prefix_rfl
  closed _ := ⟨rfl, rfl⟩

theorem writeOutput (data : Bytes) : Later c (c.writeOutput socket data) where
  grows := by
    rcases Client.writeOutput_cases socket data c with ⟨-, same⟩ | more
    · exact ⟨[], by rw [List.append_nil, same]⟩
    · exact ⟨[.stdout data], more.symm⟩
  closed shut := by
    rw [Client.writeOutput_closed shut]
    exact ⟨shut, rfl⟩

theorem sendEnd : Later c (c.sendEnd socket) where
  grows := by
    rw [Client.sendEnd_emitted, Client.ended]
    split
    · exact List.prefix_append _ _
    · exact List.prefix_rfl
  closed shut := by
    refine ⟨Client.sendEnd_closed shut, ?_⟩
    simp [Client.ended, shut]

theorem readPiece (file : ι) (content : Bytes) (pos : ℕ) :
    Later c (c.readPiece socket file content pos) := by
  unfold Client.readPiece
  refine .trans ?_ (writeOutput _)
  exact of_same rfl rfl

theorem readOn : Later c (c.readOn socket disk).1 := by
  apply Client.readOn_invariant (fun d => Later c d) (refl c)
  exact fun _ _ _ before _ _ => before.trans (readPiece _ _ _)

theorem finish : Later c (c.finish socket) := by
  have detached : Later c c.disconnectFromHttp := of_same rfl rfl
  unfold Client.finish
  split
  · exact detached.trans sendEnd
  · exact detached

theorem continueRead : Later c (c.continueRead socket disk) := by
  have read : Later c (c.readOn socket disk).1 := readOn
  unfold Client.continueRead
  simp only
  split
  · split
    · exact read.trans (of_same rfl rfl)
    · exact (read.trans finish).trans (disconnect _)
  · exact read

theorem writeEnd : Later c (c.writeEnd socket disk) := by
  have detached : Later c c.disconnectFromHttp := of_same rfl rfl
  unfold Client.writeEnd
  simp only
  split
  · split
    · exact (detached.trans continueRead).trans sendEnd
    · exact detached.trans sendEnd
  · exact detached

theorem answer (text : Bytes) : Later c (c.answer socket disk text) :=
  ((writeOutput text).trans writeEnd).trans (disconnect _)

theorem page (p : Page) : Later c (c.page socket disk p) := by
  unfold Client.page
  refine .trans ?_ (answer _)
  exact of_same rfl rfl

theorem readyToWrite : Later c (c.readyToWrite socket disk) := by
  unfold Client.readyToWrite
  split
  · exact continueRead
  · have asked : Later c (c.ask socket c.dataToWrite) := of_same rfl rfl
    simp only
    split
    · exact asked.trans (disconnect _)
    · split
      · exact asked
      · split
        · refine asked.trans (.trans ?_ (disconnect _))
          exact of_same rfl rfl
        · exact asked.trans (of_same rfl rfl)

theorem startReadCache (seeks : ℕ) : Later c (c.startReadCache socket disk seeks) := by
  unfold Client.startReadCache
  split
  · exact page _
  · exact refl c
  · exact continueRead

theorem startRead (o : Opening ι) (isPartial : Bool) :
    Later c (c.startRead socket disk o isPartial) := by
  have set : Later c { c with isPartial := isPartial } := of_same rfl rfl
  unfold Client.startRead
  simp only
  split
  · exact set.trans (page _)
  · exact set.trans (page _)
  · refine set.trans (.trans ?_ (page _))
    exact of_same rfl rfl
  · refine set.trans (.trans ?_ (startReadCache _))
    exact of_same rfl rfl

theorem startCached (file : ι) (seeks : ℕ) : Later c (c.startCached socket disk file seeks) := by
  unfold Client.startCached
  refine .trans ?_ (startReadCache seeks)
  exact of_same rfl rfl

end Later

end Later

section Stages

def read (disk : ι → Bytes) (c : Client ι) : Bytes :=
  match c.readCache with
  | none => []
  | some r => (disk r.file).take r.pos

/-- An answer that goes on: all that has been read has been sent. -/
structure Running (disk : ι → Bytes) (c : Client ι) : Prop where
  opened : c.opened = true
  endTriggered : c.endTriggered = false
  going : .endRequest ∉ c.emitted
  sent : (payload c.emitted).flatten = read disk c
  bound : ∀ r, c.readCache = some r → r.pos ≤ (disk r.file).length
  idle : c.readCache = none → c.emitted = []
  unbegun : c.outputWrited = false → c.emitted = [] ∧ ∀ r, c.readCache = some r → r.pos = 0

structure Over (disk : ι → Bytes) (c : Client ι) : Prop where
  still : c.opened = false ∨ .endRequest ∈ c.emitted
  document : IsDocument disk (payload c.emitted)

def Live (disk : ι → Bytes) (c : Client ι) : Prop := Running disk c ∨ Over disk c

theorem Running.document (running : Running disk c) : IsDocument disk (payload c.emitted) := by
  cases reading : c.readCache with
  | none =>
    rw [running.idle reading]
    exact .inl rfl
  | some r =>
    refine .inr (.inr ⟨r.file, ?_⟩)
    rw [running.sent, read, reading]
    exact List.take_prefix _ _

theorem Live.document (live : Live disk c) : IsDocument disk (payload c.emitted) := by
  rcases live with running | done
  · exact running.document
  · exact done.document

theorem Over.later (done : Over disk c) (later : Later c c') : Over disk c' := by
  rcases done.still with shut | ended
  · obtain ⟨shut', same⟩ := later.closed shut
    refine ⟨.inl shut', ?_⟩
    rw [same]
    exact done.document
  · obtain ⟨more, extended⟩ := later.grows
    constructor
    · rw [← extended]
      exact .inr (List.mem_append_left _ ended)
    · rw [← extended, payload_append_of_mem ended]
      exact done.document

theorem Running.of_same (running : Running disk c) (opened : c'.opened = c.opened)
    (endTriggered : c'.endTriggered = c.endTriggered) (emitted : c'.emitted = c.emitted)
    (readCache : c'.readCache = c.readCache) (outputWrited : c'.outputWrited = c.outputWrited) :
    Running disk c' := by
  constructor
  · rw [opened]
    exact running.opened
  · rw [endTriggered]
    exact running.endTriggered
  · rw [emitted]
    exact running.going
  · have same : read disk c' = read disk c := by
      unfold read
      rw [readCache]
    rw [emitted, same]
    exact running.sent
  · rw [readCache]
    exact running.bound
  · rw [readCache, emitted]
    exact running.idle
  · rw [outputWrited, emitted, readCache]
    exact running.unbegun

theorem Live.disconnect (live : Live disk c) : Over disk c.disconnect := by
  rcases live with running | done
  · exact ⟨.inl rfl, running.document⟩
  · exact done.later (.disconnect c)

theorem Live.sendEnd (live : Live disk c) : Over disk (c.sendEnd socket) := by
  rcases live with running | done
  · have records : (c.sendEnd socket).emitted = c.emitted ++ [.endRequest] := by
      rw [Client.sendEnd_emitted, Client.ended, if_pos running.opened]
    constructor
    · rw [records]
      exact .inr (by simp)
    · rw [records, payload_append running.going]
      simpa [payload] using running.document
  · exact done.later .sendEnd

theorem Live.finish (live : Live disk c) : Live disk (c.finish socket) := by
  have detached : Live disk c.disconnectFromHttp := by
    rcases live with running | done
    · exact .inl (running.of_same rfl rfl rfl rfl rfl)
    · exact .inr (done.later (.of_same rfl rfl))
  unfold Client.finish
  split
  · exact .inr detached.sendEnd
  · exact detached

theorem readPiece_live {file : ι} {pos : ℕ} (running : Running disk c)
    (reading : c.readCache = some ⟨file, pos⟩) (inside : pos < (disk file).length) :
    Over disk (c.readPiece socket file (disk file) pos) ∨
      Running disk (c.readPiece socket file (disk file) pos) := by
  let d : Client ι := { c with
    readCache := some ⟨file, pos + (Client.piece (disk file) pos).length⟩
    partialEndOfFileTrigged := false }
  have written : c.readPiece socket file (disk file) pos =
      d.writeOutput socket (Client.piece (disk file) pos) := rfl
  have so_far : (payload c.emitted).flatten = (disk file).take pos := by
    rw [running.sent, read, reading]
  rw [written]
  rcases Client.writeOutput_cases socket (Client.piece (disk file) pos) d with
    ⟨shut, same⟩ | more
  · refine .inl ⟨.inl shut, ?_⟩
    rw [same]
    exact running.document
  · have sent : (payload (d.writeOutput socket (Client.piece (disk file) pos)).emitted).flatten =
        (disk file).take (pos + (Client.piece (disk file) pos).length) := by
      have piece : (payload c.emitted ++ payload [.stdout (Client.piece (disk file) pos)]).flatten =
          (disk file).take pos ++ Client.piece (disk file) pos := by
        rw [List.flatten_append, so_far]
        simp [payload]
      rw [more, payload_append running.going, piece, Client.take_piece]
    cases still : (d.writeOutput socket (Client.piece (disk file) pos)).opened with
    | false =>
      refine .inl ⟨.inl still, .inr (.inr ⟨file, ?_⟩)⟩
      rw [sent]
      exact List.take_prefix _ _
    | true =>
      refine .inr ?_
      constructor
      · exact still
      · rw [Client.writeOutput_endTriggered]
        exact running.endTriggered
      · rw [more]
        simpa using running.going
      · rw [sent, read, Client.writeOutput_readCache]
      · intro r at_r
        rw [Client.writeOutput_readCache] at at_r
        obtain rfl := Option.some.inj at_r
        have short := Client.piece_length (disk file) pos
        simp only
        omega
      · intro wrong
        rw [Client.writeOutput_readCache] at wrong
        cases wrong
      · intro wrong
        rw [Client.writeOutput_outputWrited] at wrong
        cases wrong

theorem Live.readOn (live : Live disk c) : Live disk (c.readOn socket disk).1 := by
  apply Client.readOn_invariant (fun d => Live disk d) live
  intro file pos d before reading inside
  rcases before with running | done
  · exact (readPiece_live running reading inside).symm
  · exact .inr (done.later (.readPiece _ _ _))

theorem Live.continueRead (live : Live disk c) : Live disk (c.continueRead socket disk) := by
  have read : Live disk (c.readOn socket disk).1 := live.readOn
  unfold Client.continueRead
  simp only
  split
  · split
    · rcases read with running | done
      · exact .inl (running.of_same rfl rfl rfl rfl rfl)
      · exact .inr (done.later (.of_same rfl rfl))
    · exact .inr read.finish.disconnect
  · exact read

theorem Live.writeEnd (live : Live disk c) : Live disk (c.writeEnd socket disk) := by
  have detached : Live disk c.disconnectFromHttp := by
    rcases live with running | done
    · exact .inl (running.of_same rfl rfl rfl rfl rfl)
    · exact .inr (done.later (.of_same rfl rfl))
  unfold Client.writeEnd
  simp only
  split
  · split
    · exact .inr detached.continueRead.sendEnd
    · exact .inr detached.sendEnd
  · exact detached

theorem Live.readyToWrite (live : Live disk c) : Live disk (c.readyToWrite socket disk) := by
  rcases live with running | done
  · unfold Client.readyToWrite
    split
    · exact Live.continueRead (.inl running)
    · have asked : Live disk (c.ask socket c.dataToWrite) :=
        .inl (running.of_same rfl rfl rfl rfl rfl)
      simp only
      split
      · exact .inr asked.disconnect
      · split
        · exact asked
        · split
          · rename_i ending
            have none : (c.ask socket c.dataToWrite).endTriggered = false := running.endTriggered
            rw [none] at ending
            cases ending
          · exact .inl (running.of_same rfl rfl rfl rfl rfl)
  · exact .inr (done.later .readyToWrite)

end Stages

section Pages

/-- Nothing has been sent, and a page is not followed by what a growing file holds. -/
def Unbegun (disk : ι → Bytes) (isPartial : Bool) (c : Client ι) : Prop :=
  c.outputWrited = false ∧ (isPartial = true → c.unread disk = [])

theorem continueRead_at_end (growing : c.isPartial = true) (nothing : c.unread disk = []) :
    (c.continueRead socket disk).emitted = c.emitted ∧
      (c.continueRead socket disk).opened = c.opened := by
  have same : (c.readOn socket disk).1 = c := Client.readOn_at_end nothing
  unfold Client.continueRead
  simp only [same, growing, if_true]
  split
  · exact ⟨rfl, rfl⟩
  · exact ⟨rfl, rfl⟩

theorem answer_over {text : Bytes} (page : ∃ p : Page, text = p.text)
    (nothing : c.emitted = []) (unread : c.isPartial = true → c.unread disk = []) :
    Over disk (c.answer socket disk text) := by
  let d := c.writeOutput socket text
  change Over disk (d.writeEnd socket disk).disconnect
  have partly : d.isPartial = c.isPartial := Client.writeOutput_isPartial
  have rest : d.disconnectFromHttp.unread disk = c.unread disk := by
    have reader : d.readCache = c.readCache := Client.writeOutput_readCache
    unfold Client.unread Client.disconnectFromHttp
    simp only [reader]
  rcases Client.writeOutput_cases socket text c with ⟨shut, same⟩ | more
  · refine Over.later (c := d) ⟨.inl shut, .inl ?_⟩ (Later.writeEnd.trans (.disconnect _))
    rw [show d.emitted = c.emitted from same, nothing]
    rfl
  · have records : d.emitted = [.stdout text] := by
      rw [show d.emitted = _ from more, nothing]
      rfl
    have begun : d.outputWrited = true := Client.writeOutput_outputWrited
    have ended : (d.writeEnd socket disk).emitted = d.ended := by
      unfold Client.writeEnd
      simp only
      rw [if_pos (show d.disconnectFromHttp.outputWrited = true from begun)]
      split
      · rename_i reading
        have growing : d.isPartial = true := (Bool.and_eq_true_iff.mp reading).1
        have nothing_left : d.disconnectFromHttp.unread disk = [] := by
          rw [rest]
          exact unread (partly ▸ growing)
        have stops : (d.disconnectFromHttp.continueRead socket disk).emitted = d.emitted ∧
            (d.disconnectFromHttp.continueRead socket disk).opened = d.opened :=
          continueRead_at_end growing nothing_left
        obtain ⟨kept, stays⟩ := stops
        rw [Client.sendEnd_emitted, Client.ended, kept, stays]
        rfl
      · rw [Client.sendEnd_emitted]
        rfl
    refine ⟨.inl rfl, .inr (.inl ?_)⟩
    obtain ⟨p, same⟩ := page
    refine ⟨p, ?_⟩
    change payload (d.writeEnd socket disk).emitted = _
    rw [ended, Client.ended, records, ← same]
    split <;> simp [payload]

theorem page_over {p : Page} (nothing : c.emitted = [])
    (unread : c.isPartial = true → c.unread disk = []) : Over disk (c.page socket disk p) :=
  answer_over ⟨p, rfl⟩ nothing unread

theorem opening_unread {file : ι} {seeks needed : ℕ} (missed : seeks < needed) :
    (c.opening disk file seeks needed).unread disk = [] := by
  simp [Client.unread, Client.opening, missed]

theorem opening_running {file : ι} {seeks needed : ℕ} (running : Running disk c)
    (unbegun : c.outputWrited = false) (found : needed ≤ seeks) :
    Running disk (c.opening disk file seeks needed) := by
  have place : (c.opening disk file seeks needed).readCache = some ⟨file, 0⟩ := by
    simp [Client.opening, Nat.not_lt.mpr found]
  have nothing := (running.unbegun unbegun).1
  constructor
  · exact running.opened
  · exact running.endTriggered
  · exact running.going
  · rw [read, place]
    change (payload c.emitted).flatten = _
    rw [nothing]
    rfl
  · intro r at_r
    rw [place] at at_r
    obtain rfl := Option.some.inj at_r
    exact Nat.zero_le _
  · intro _
    exact nothing
  · intro _
    refine ⟨nothing, ?_⟩
    intro r at_r
    rw [place] at at_r
    obtain rfl := Option.some.inj at_r
    rfl

end Pages

section Runs

structure State (ι : Type) where
  client : Client ι
  disk : ι → Bytes

inductive Event (ι : Type)
  /-- The downloads write to their files. -/
  | append (disk : ι → Bytes)
  /-- A record of the request names its id. -/
  | request (fastcgiid : ℕ)
  | attach
  | page (p : Page)
  | startRead (o : Opening ι) (isPartial : Bool)
  | startCached (file : ι) (seeks : ℕ)
  | continueRead
  | readyToWrite
  | writeEnd
  | disconnect

def perform (socket : Schedule) (disk : ι → Bytes) (c : Client ι) : Event ι → Client ι
  | .append _ => c
  | .request fastcgiid => { c with fastcgiid := some fastcgiid }
  | .attach => { c with http := true }
  | .page p => c.page socket disk p
  | .startRead o isPartial => c.startRead socket disk o isPartial
  | .startCached file seeks => c.startCached socket disk file seeks
  | .continueRead => c.continueRead socket disk
  | .readyToWrite => c.readyToWrite socket disk
  | .writeEnd => c.writeEnd socket disk
  | .disconnect => c.disconnect

def Event.files (e : Event ι) (before : ι → Bytes) : ι → Bytes :=
  match e with
  | .append disk => disk
  | _ => before

def Step (socket : Schedule) (e : Event ι) (s t : State ι) : Prop :=
  (∀ file, s.disk file <+: e.files s.disk file) ∧
    t = ⟨perform socket s.disk s.client e, e.files s.disk⟩

def Ended (c : Client ι) : Prop := c.opened = false ∨ c.endTriggered = true

/-- A page or the start of a file comes to an ended client or to one that has been
sent nothing, and no seek to the content fails right after it has succeeded. -/
def Admits (e : Event ι) (s : State ι) : Prop :=
  match e with
  | .page _ => Ended s.client ∨ Unbegun s.disk s.client.isPartial s.client
  | .startRead (.opened _ seeks) _ =>
    Ended s.client ∨ (s.client.outputWrited = false ∧ seeks ≠ 2)
  | .startRead _ isPartial => Ended s.client ∨ Unbegun s.disk isPartial s.client
  | .startCached _ seeks => Ended s.client ∨ (s.client.outputWrited = false ∧ seeks ≠ 1)
  | _ => True

def Initial (s : State ι) : Prop := s.client = Client.new

theorem perform_later (e : Event ι) : Later c (perform socket disk c e) := by
  cases e with
  | append disk' => exact .refl c
  | request fastcgiid => exact .of_same rfl rfl
  | attach => exact .of_same rfl rfl
  | page p => exact .page p
  | startRead o isPartial => exact .startRead o isPartial
  | startCached file seeks => exact .startCached file seeks
  | continueRead => exact .continueRead
  | readyToWrite => exact .readyToWrite
  | writeEnd => exact .writeEnd
  | disconnect => exact .disconnect c

theorem Running.not_ended (running : Running disk c) : ¬Ended c := by
  rintro (shut | ending)
  · rw [running.opened] at shut
    cases shut
  · rw [running.endTriggered] at ending
    cases ending

theorem IsDocument.grow {sent : List Bytes} (document : IsDocument disk sent)
    (grows : ∀ file, disk file <+: disk' file) : IsDocument disk' sent := by
  rcases document with none | page | ⟨file, begins⟩
  · exact .inl none
  · exact .inr (.inl page)
  · exact .inr (.inr ⟨file, begins.trans (grows file)⟩)

theorem Live.grow (live : Live disk c) (grows : ∀ file, disk file <+: disk' file) :
    Live disk' c := by
  rcases live with running | done
  · refine .inl ⟨running.opened, running.endTriggered, running.going, ?_, ?_, running.idle,
      running.unbegun⟩
    · rw [running.sent]
      unfold read
      split
      · rfl
      · rename_i r reading
        obtain ⟨more, extended⟩ := grows r.file
        rw [← extended, List.take_append_of_le_length (running.bound r reading)]
    · intro r reading
      exact Nat.le_trans (running.bound r reading) (grows r.file).length_le
  · exact .inr ⟨done.still, done.document.grow grows⟩

theorem startRead_live {o : Opening ι} {isPartial : Bool} (running : Running disk c)
    (admitted : Admits (.startRead o isPartial) ⟨c, disk⟩) :
    Live disk (c.startRead socket disk o isPartial) := by
  have live := running.not_ended
  unfold Client.startRead
  simp only
  split
  · obtain ⟨unbegun, unread⟩ := admitted.resolve_left live
    exact .inr (page_over (running.unbegun unbegun).1 unread)
  · obtain ⟨unbegun, unread⟩ := admitted.resolve_left live
    exact .inr (page_over (running.unbegun unbegun).1 unread)
  · obtain ⟨unbegun, -⟩ := admitted.resolve_left live
    refine .inr (page_over (running.unbegun unbegun).1 ?_)
    intro _
    exact opening_unread (by decide)
  · rename_i seeks
    obtain ⟨unbegun, twice⟩ := admitted.resolve_left live
    have set : Running disk { c with isPartial := isPartial } := running.of_same rfl rfl rfl rfl rfl
    unfold Client.startReadCache
    split
    · refine .inr (page_over (running.unbegun unbegun).1 ?_)
      intro _
      exact opening_unread (by decide)
    · exact absurd rfl twice
    · rename_i zero one
      have first : seeks ≠ 0 := zero
      have second : seeks ≠ 1 := one
      refine Live.continueRead (.inl (opening_running set unbegun ?_))
      omega

theorem startCached_live {file : ι} {seeks : ℕ} (running : Running disk c)
    (admitted : Admits (.startCached file seeks) ⟨c, disk⟩) :
    Live disk (c.startCached socket disk file seeks) := by
  obtain ⟨unbegun, once⟩ := admitted.resolve_left running.not_ended
  have set : Running disk { c with isPartial := false, status := .waitTheContent } :=
    running.of_same rfl rfl rfl rfl rfl
  unfold Client.startCached Client.startReadCache
  split
  · refine .inr (page_over (running.unbegun unbegun).1 ?_)
    intro _
    exact opening_unread (by decide)
  · exact absurd rfl once
  · rename_i zero one
    have first : seeks ≠ 0 := zero
    have second : seeks ≠ 1 := one
    refine Live.continueRead (.inl (opening_running set unbegun ?_))
    omega

theorem perform_live {e : Event ι} (live : Live disk c) (admitted : Admits e ⟨c, disk⟩) :
    Live disk (perform socket disk c e) := by
  rcases live with running | done
  · cases e with
    | append disk' => exact .inl running
    | request fastcgiid => exact .inl (running.of_same rfl rfl rfl rfl rfl)
    | attach => exact .inl (running.of_same rfl rfl rfl rfl rfl)
    | page p =>
      obtain ⟨unbegun, unread⟩ := admitted.resolve_left running.not_ended
      exact .inr (page_over (running.unbegun unbegun).1 unread)
    | startRead o isPartial => exact startRead_live running admitted
    | startCached file seeks => exact startCached_live running admitted
    | continueRead => exact Live.continueRead (.inl running)
    | readyToWrite => exact Live.readyToWrite (.inl running)
    | writeEnd => exact Live.writeEnd (.inl running)
    | disconnect => exact .inr (Live.disconnect (.inl running))
  · exact .inr (done.later (perform_later e))

theorem new_running (disk : ι → Bytes) : Running disk Client.new where
  opened := rfl
  endTriggered := rfl
  going := by simp [Client.new]
  sent := rfl
  bound r reading := by cases reading
  idle _ := rfl
  unbegun _ := ⟨rfl, fun r reading => by cases reading⟩

/-- Before its END_REQUEST a client is sent one page or a prefix of the content of
one file, in every run that brings neither to a client that has begun another. -/
theorem sent_is_one_document (socket : Schedule) (s : State ι)
    (reached : Reach (Step socket) Admits Initial s) :
    IsDocument s.disk (payload s.client.emitted) := by
  have live : Live s.disk s.client := by
    apply Reach.invariant (P := fun s => Live s.disk s.client) _ _ reached
    · rintro ⟨client, disk⟩ rfl
      exact .inl (new_running disk)
    · rintro e s t before admitted ⟨grows, rfl⟩
      exact (perform_live before admitted).grow grows
  exact live.document

def ready : Schedule := fun _ => ⟨.whole, none, 0⟩

def files : Unit → Bytes := fun _ => [65, 66]

def begun : State Unit := ⟨perform ready files Client.new (.startRead (.opened () 3) true), files⟩

theorem begun_reached : Reach (Step ready) Admits Initial begun := by
  have start : Reach (Step ready) Admits Initial ⟨Client.new, files⟩ := .start rfl
  have admitted : Admits (.startRead (.opened () 3) true) ⟨Client.new, files⟩ :=
    .inr ⟨rfl, by decide⟩
  exact start.next admitted ⟨fun _ => List.prefix_rfl, rfl⟩

theorem begun_client_has_one_document :
    payload begun.client.emitted = [[65, 66]] ∧
      IsDocument begun.disk (payload begun.client.emitted) :=
  ⟨by decide, sent_is_one_document ready begun begun_reached⟩

def timedOut : State Unit :=
  ⟨perform ready files begun.client (.page (.httpError (ascii "Timeout"))), files⟩

set_option maxRecDepth 4096 in
/-- The page of the timeout follows the content that has been sent. -/
theorem timeout_splices_a_page :
    Reach (Step ready) anyStep Initial timedOut ∧
      ¬IsDocument timedOut.disk (payload timedOut.client.emitted) := by
  constructor
  · have reading : Reach (Step ready) anyStep Initial begun :=
      begun_reached.mono fun _ _ _ => trivial
    exact reading.next trivial ⟨fun _ => List.prefix_rfl, rfl⟩
  · have sent : payload timedOut.client.emitted =
        [[65, 66], (Page.httpError (ascii "Timeout")).text] := by
      decide
    rw [sent]
    rintro (none | ⟨p, one⟩ | ⟨file, begins⟩)
    · cases none
    · simp at one
    · have long := begins.length_le
      have page : 0 < (Page.httpError (ascii "Timeout")).text.length := by decide
      simp only [List.flatten_cons, List.flatten_nil, List.length_append, List.length_nil,
        timedOut, files, List.length_cons] at long
      omega

end Runs

end FastCgiCdn.OneDocument
