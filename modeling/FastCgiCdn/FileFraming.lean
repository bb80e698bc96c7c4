import FastCgiCdn.Delivery
import FastCgiCdn.OneDocument

/-! A stream of FastCGI records as its receiver takes it apart, and what it finds
in the bytes of a client that is sent a cache file which does not grow: STDOUT
records with the content, and one END_REQUEST behind them. -/

namespace FastCgiCdn.FileFraming

open HttpModel ClientOutput Delivery RecordFormat

/-- A record as it is received. Its padding is dropped. -/
structure Frame where
  kind : Byte
  requestId : ℕ
  contentLength : ℕ
  content : Bytes
  deriving DecidableEq, Repr

def takeFrame : Bytes → Option (Frame × Bytes)
  | version :: kind :: id1 :: id0 :: length1 :: length0 :: padding :: _ :: rest =>
    let contentLength := length1.toNat * 256 + length0.toNat
    if version = 1 ∧ contentLength + padding.toNat ≤ rest.length then
      some (⟨kind, id1.toNat * 256 + id0.toNat, contentLength, rest.take contentLength⟩,
        rest.drop (contentLength + padding.toNat))
    else none
  | _ => none

def decodeFrom : ℕ → Bytes → Option (List Frame)
  | _, [] => some []
  | 0, _ :: _ => none
  | fuel + 1, stream@(_ :: _) =>
    (takeFrame stream).bind fun (first, rest) => (decodeFrom fuel rest).map (first :: ·)

/-- The records of a stream, when it holds whole records and nothing else. -/
def decode (stream : Bytes) : Option (List Frame) := decodeFrom stream.length stream

def Frame.stdout (id : ℕ) (data : Bytes) : Frame := ⟨6, id, data.length, data⟩

def Frame.endRequest (id : ℕ) : Frame := ⟨3, id, 8, List.replicate 8 0⟩

def Frame.of (id : ℕ) : Record → Frame
  | .stdout data => .stdout id data
  | .endRequest => .endRequest id

section Decoding

theorem frame_plain (id : ℕ) (r : Record) :
    frame (some id) r = plainBytes (Frame.of id r).kind id (Frame.of id r).content := by
  cases r with
  | stdout data => rfl
  | endRequest => rfl

theorem takeFrame_shorter {stream rest : Bytes} {first : Frame}
    (taken : takeFrame stream = some (first, rest)) : rest.length < stream.length := by
  unfold takeFrame at taken
  split at taken
  · simp only at taken
    split at taken
    · obtain ⟨-, rfl⟩ := Prod.mk.inj (Option.some.inj taken)
      simp only [List.length_drop, List.length_cons]
      omega
    · cases taken
  · cases taken

theorem decodeFrom_enough (n : ℕ) (m : ℕ) (stream : Bytes) (left : stream.length ≤ n)
    (right : stream.length ≤ m) : decodeFrom n stream = decodeFrom m stream := by
  induction n generalizing m stream with
  | zero =>
    obtain rfl := List.eq_nil_of_length_eq_zero (Nat.le_zero.mp left)
    cases m <;> rfl
  | succ n ih =>
    cases stream with
    | nil => cases m <;> rfl
    | cons b stream =>
      obtain ⟨m, rfl⟩ : ∃ k, m = k + 1 := ⟨m - 1, by simp only [List.length_cons] at right; omega⟩
      rw [decodeFrom, decodeFrom]
      cases taken : takeFrame (b :: stream) with
      | none => rfl
      | some split =>
        have shorter := takeFrame_shorter taken
        rw [Option.bind_some, Option.bind_some]
        dsimp only
        rw [ih m split.2 (by omega) (by omega)]

theorem takeFrame_plain (kind : Byte) {id : ℕ} {content : Bytes} (rest : Bytes)
    (named : id < 65536) (sized : content.length < 65536) :
    takeFrame (plainBytes kind id content ++ rest) =
      some (⟨kind, id, content.length, content⟩, rest) := by
  rw [plainBytes_eq]
  simp only [List.cons_append, List.nil_append, takeFrame]
  simp only [high_low named, high_low sized]
  rw [if_pos ⟨trivial, by simp⟩]
  simp

theorem decode_plain (kind : Byte) {id : ℕ} {content : Bytes} (rest : Bytes) (named : id < 65536)
    (sized : content.length < 65536) :
    decode (plainBytes kind id content ++ rest) =
      (decode rest).map (⟨kind, id, content.length, content⟩ :: ·) := by
  have taken := takeFrame_plain kind rest named sized
  have shorter := takeFrame_shorter taken
  obtain ⟨b, bs, opened⟩ := List.exists_cons_of_length_pos (Nat.lt_of_le_of_lt (Nat.zero_le _) shorter)
  rw [opened] at taken shorter ⊢
  rw [decode, List.length_cons, decodeFrom, taken, Option.bind_some]
  simp only
  rw [decodeFrom_enough _ rest.length rest (by simp only [List.length_cons] at shorter; omega) le_rfl]
  rfl

theorem decode_wire {id : ℕ} (named : id < 65536) (records : List Record)
    (sized : ∀ data, .stdout data ∈ records → data.length < 65536) :
    decode (wire (some id) records) = some (records.map (Frame.of id)) := by
  induction records with
  | nil => rfl
  | cons r records ih =>
    have rest := ih fun data member => sized data (List.mem_cons_of_mem r member)
    have small : (Frame.of id r).content.length < 65536 := by
      cases r with
      | stdout data => exact sized data (List.mem_cons_self)
      | endRequest =>
        change (List.replicate 8 (0 : Byte)).length < 65536
        decide
    have first : wire (some id) (r :: records) =
        plainBytes (Frame.of id r).kind id (Frame.of id r).content ++ wire (some id) records := by
      rw [← frame_plain]
      rfl
    rw [first, decode_plain _ _ named small, rest]
    cases r <;> rfl

end Decoding

section Sending

variable {ι : Type} {socket : Schedule} {disk : ι → Bytes} {file : ι} {id pos : ℕ} {before : Bytes}
  {c : Client ι}

/-- A client that has been sent the content of a file up to a position, in records
behind the bytes `before`. -/
structure Sending (disk : ι → Bytes) (file : ι) (id : ℕ) (before : Bytes) (pos : ℕ)
    (c : Client ι) : Prop where
  opened : c.opened = true
  empty : c.dataToWrite = []
  whole : c.isPartial = false
  reader : c.readCache = some ⟨file, pos⟩
  named : c.fastcgiid = some id
  bound : pos ≤ (disk file).length
  begun : 0 < pos → c.outputWrited = true
  sent : ∃ pieces : List Bytes, c.accepted = before ++ wire (some id) (pieces.map .stdout) ∧
    pieces.flatten = (disk file).take pos ∧ ∀ p ∈ pieces, 0 < p.length ∧ p.length < 65536

theorem Sending.readPiece (taken : ∀ k, (socket k).sent = .whole)
    (sending : Sending disk file id before pos c) (inside : pos < (disk file).length) :
    Sending disk file id before (pos + (Client.piece (disk file) pos).length)
      (c.readPiece socket file (disk file) pos) := by
  have long := Client.piece_length (disk file) pos
  have buffer : Client.bufferSize = 64536 := rfl
  obtain ⟨pieces, accepted, so_far, small⟩ := sending.sent
  unfold Client.readPiece
  simp only
  rw [Client.writeOutput_whole taken (by exact sending.opened) (by exact sending.empty)]
  constructor
  · exact sending.opened
  · exact sending.empty
  · exact sending.whole
  · rfl
  · exact sending.named
  · omega
  · intro _
    rfl
  · refine ⟨pieces ++ [Client.piece (disk file) pos], ?_, ?_, ?_⟩
    · simp only [List.map_append, wire_append, accepted]
      simp [wire, frame, plainBytes_eq, Client.header, Client.be16, sending.named]
    · rw [List.flatten_append, so_far, List.flatten_singleton, Client.take_piece]
    · intro p listed
      rcases List.mem_append.mp listed with former | last
      · exact small p former
      · rw [List.mem_singleton.mp last]
        omega

theorem Sending.readOn (taken : ∀ k, (socket k).sent = .whole)
    (sending : Sending disk file id before pos c) :
    (c.readOn socket disk).2 = true ∧
      Sending disk file id before (disk file).length (c.readOn socket disk).1 := by
  obtain ⟨last, reached, ended, waits⟩ := Client.readOn_rule socket disk
    (fun pos d => Sending disk file id before pos d) sending.reader sending.empty sending
    fun pos d earlier inside => earlier.readPiece taken inside
  cases stopped : (c.readOn socket disk).2 with
  | false => exact absurd reached.empty (waits stopped)
  | true =>
    have bound := reached.bound
    have done : (disk file).length ≤ last := ended stopped
    obtain rfl : last = (disk file).length := by omega
    exact ⟨rfl, reached⟩

/-- The stream decodes to the content in STDOUT records and one END_REQUEST, and
the client is gone. -/
structure Framed (content : Bytes) (id : ℕ) (before : Bytes) (c : Client ι) : Prop where
  closed : c.opened = false
  nameless : c.fastcgiid = none
  empty : c.dataToWrite = []
  stream : ∃ (stream : Bytes) (pieces : List Bytes), c.accepted = before ++ stream ∧
    decode stream = some (pieces.map (Frame.stdout id) ++ [Frame.endRequest id]) ∧
    pieces.flatten = content ∧ ∀ p ∈ pieces, 0 < p.length ∧ p.length < 65536

theorem Sending.finish (taken : ∀ k, (socket k).sent = .whole) (small : id < 65536)
    (sending : Sending disk file id before (disk file).length c) (nonempty : disk file ≠ []) :
    Framed (disk file) id before (c.finish socket).disconnect := by
  have begun : c.outputWrited = true := sending.begun (List.length_pos_iff.mpr nonempty)
  obtain ⟨pieces, accepted, all, sized⟩ := sending.sent
  unfold Client.finish
  rw [if_pos begun, Client.sendEnd_whole taken (by exact sending.opened) (by exact sending.empty)]
  constructor
  · rfl
  · rfl
  · rfl
  · refine ⟨wire (some id) (pieces.map .stdout ++ [.endRequest]), pieces, ?_, ?_, ?_, sized⟩
    · change c.accepted ++ c.disconnectFromHttp.endRecord = _
      rw [wire_append, accepted, List.append_assoc]
      congr 2
      simp [wire, frame, plainBytes_eq, Client.endRecord, Client.header, Client.be16,
        Client.disconnectFromHttp, sending.named]
    · rw [decode_wire small]
      · simp only [List.map_append, List.map_map, List.map_singleton]
        rfl
      · intro data member
        have listed : data ∈ pieces := by simpa using member
        exact (sized data listed).2
    · rw [all, List.take_length]

theorem Sending.continueRead (taken : ∀ k, (socket k).sent = .whole) (small : id < 65536)
    (sending : Sending disk file id before pos c) (nonempty : disk file ≠ []) :
    Framed (disk file) id before (c.continueRead socket disk) := by
  obtain ⟨stopped, read⟩ := sending.readOn taken
  unfold Client.continueRead
  simp only
  rw [if_pos stopped, if_neg (by simp [read.whole])]
  exact read.finish taken small nonempty

/-- What `startRead()` sends of a file whose two seeks succeed. -/
theorem startRead_frames_file (taken : ∀ k, (socket k).sent = .whole) (nonempty : disk file ≠ [])
    (small : id < 65536) (opened : c.opened = true) (named : c.fastcgiid = some id)
    (whole : c.isPartial = false) (empty : c.dataToWrite = []) (seeks : ℕ) :
    Framed (disk file) id c.accepted
      ((c.opening disk file (seeks + 2) 2).startReadCache socket disk (seeks + 2)) := by
  have start : Sending disk file id c.accepted 0 (c.opening disk file (seeks + 2) 2) := by
    constructor
    · exact opened
    · exact empty
    · exact whole
    · have past : ¬seeks + 2 < 2 := by omega
      simp [Client.opening, past]
    · exact named
    · exact Nat.zero_le _
    · intro wrong
      exact absurd wrong (Nat.lt_irrefl 0)
    · exact ⟨[], (List.append_nil _).symm, rfl, fun p listed => by cases listed⟩
  exact start.continueRead taken small nonempty

def requesting : Client Unit := { Client.new with fastcgiid := some 258 }

theorem two_bytes_are_framed :
    requesting.opened = true ∧ Framed (OneDocument.files ()) 258 requesting.accepted
      ((requesting.opening OneDocument.files () 2 2).startReadCache OneDocument.ready
        OneDocument.files 2) := by
  have content : OneDocument.files () ≠ [] := by decide
  exact ⟨rfl, startRead_frames_file (fun _ => rfl) content (by decide : 258 < 65536) rfl rfl rfl rfl 0⟩

end Sending

end FastCgiCdn.FileFraming
