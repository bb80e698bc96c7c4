import FastCgiCdn.ClientOutput

/-! The output buffer of an open client. It is exact in every run in which the
socket takes each write whole or fails it: a write put off by `EAGAIN` gains the
byte in front of its data, and a write that is cut short ends the connection. -/

namespace FastCgiCdn.OutputBuffer

open HttpModel MeasuredLoop ClientOutput

variable {ι : Type} {socket : Schedule} {disk : ι → Bytes} {c c' c'' : Client ι}

/-- The socket takes all of the data, or reports an error that is not `EAGAIN`. -/
def Settled (m : Moment) : Prop := m.sent = .whole ∨ ∃ code, m.sent = .failed (.other code)

/-- The socket has reported an error since the first of these calls. -/
def Failed (socket : Schedule) (first asked : ℕ) : Prop :=
  ∃ k, first ≤ k ∧ k < asked ∧ ∃ code, (socket k).sent = .failed (.other code)

/-- Nothing is buffered, the open client has sent what it was given, and it was
closed by an error of the socket, or by the end of a file that was `complete`. -/
structure Exact (socket : Schedule) (first : ℕ) (complete : Prop) (c : Client ι) : Prop where
  late : first ≤ c.asked
  empty : c.dataToWrite = []
  sent : c.opened = true → c.accepted = c.passed
  closed : c.opened = false → Failed socket first c.asked ∨ complete
  reader : c.readCache.isSome = true → c.isPartial = false → complete

/-- A stretch of a run that keeps the buffer exact if its writes are settled. -/
structure Keeps (socket : Schedule) (c c' : Client ι) : Prop where
  asked : c.asked ≤ c'.asked
  exact : ∀ first complete, Exact socket first complete c →
    (∀ k, c.asked ≤ k → k < c'.asked → Settled (socket k)) → Exact socket first complete c'

namespace Keeps

theorem refl (c : Client ι) : Keeps socket c c where
  asked := Nat.le_refl _
  exact _ _ was _ := was

theorem trans (before : Keeps socket c c') (behind : Keeps socket c' c'') :
    Keeps socket c c'' where
  asked := Nat.le_trans before.asked behind.asked
  exact first complete was settled := by
    have low := before.asked
    have high := behind.asked
    have middle := before.exact first complete was fun k le lt => settled k le (by omega)
    exact behind.exact first complete middle fun k le lt => settled k (by omega) lt

theorem of_same (asked : c'.asked = c.asked) (data : c'.dataToWrite = c.dataToWrite)
    (opened : c'.opened = c.opened) (accepted : c'.accepted = c.accepted)
    (passed : c'.passed = c.passed) (isPartial : c'.isPartial = c.isPartial)
    (reader : c'.readCache.isSome = true → c.readCache.isSome = true) : Keeps socket c c' where
  asked := Nat.le_of_eq asked.symm
  exact first complete was _ := by
    constructor
    · rw [asked]
      exact was.late
    · rw [data]
      exact was.empty
    · rw [opened, accepted, passed]
      exact was.sent
    · rw [opened, asked]
      exact was.closed
    · rw [isPartial]
      intro some whole
      exact was.reader (reader some) whole

end Keeps

theorem write_keeps (data : Bytes) : Keeps socket c (c.write socket data) where
  asked := Client.write_asked data c
  exact first complete was settled := by
    cases opened : c.opened with
    | false =>
      rw [Client.write_closed opened]
      exact was
    | true =>
      have le := was.late
      have first_asked : Settled (socket c.asked) := by
        refine settled _ (Nat.le_refl _) ?_
        simp [Client.write, opened, was.empty, Client.direct_frame]
      rcases first_asked with whole | ⟨code, failed⟩
      · rw [Client.write_whole opened was.empty whole]
        constructor
        · exact Nat.le_succ_of_le le
        · exact was.empty
        · intro _
          simp only [was.sent opened]
        · intro closed
          rw [opened] at closed
          cases closed
        · exact was.reader
      · rw [Client.write_failed opened was.empty failed]
        constructor
        · exact Nat.le_succ_of_le le
        · rfl
        · intro reopened
          cases reopened
        · intro _
          exact .inl ⟨c.asked, le, Nat.lt_succ_self _, code, failed⟩
        · exact was.reader

theorem writeOutput_keeps (data : Bytes) : Keeps socket c (c.writeOutput socket data) := by
  unfold Client.writeOutput
  have started : Keeps socket c { c with outputWrited := true } :=
    .of_same rfl rfl rfl rfl rfl rfl id
  have logged : ∀ (d : Client ι) (emitted : List Record),
      Keeps socket d { d with emitted := emitted } := by
    intro d emitted
    exact .of_same rfl rfl rfl rfl rfl rfl id
  exact ((started.trans (write_keeps _)).trans (write_keeps _)).trans (logged _ _)

theorem readPiece_keeps {file : ι} {content : Bytes} {pos : ℕ}
    (reading : c.readCache.isSome = true) :
    Keeps socket c (c.readPiece socket file content pos) := by
  unfold Client.readPiece
  refine .trans ?_ (writeOutput_keeps _)
  exact .of_same rfl rfl rfl rfl rfl rfl fun _ => reading

theorem readOn_keeps : Keeps socket c (c.readOn socket disk).1 := by
  apply Client.readOn_invariant (fun d => Keeps socket c d) (.refl c)
  intro file pos d before reading _
  exact before.trans (readPiece_keeps (by rw [reading]; rfl))

section Closing

variable {first : ℕ} {complete : Prop}

theorem Exact.disconnect (was : Exact socket first complete c) (done : complete) :
    Exact socket first complete c.disconnect where
  late := was.late
  empty := rfl
  sent reopened := by cases reopened
  closed _ := .inr done
  reader _ _ := done

theorem sendEnd_asked : c.asked ≤ (c.sendEnd socket).asked := by
  unfold Client.sendEnd
  split
  · have le : c.asked ≤ (c.closeCache.write socket c.endRecord).asked :=
      Client.write_asked c.endRecord c.closeCache
    simp only
    split
    · exact le
    · exact le
  · exact Nat.le_refl _

theorem finish_asked : c.asked ≤ (c.finish socket).asked := by
  unfold Client.finish
  split
  · exact (sendEnd_asked : _ ≤ (c.disconnectFromHttp.sendEnd socket).asked)
  · exact Nat.le_refl _

theorem sendEnd_exact (was : Exact socket first complete c) (done : complete)
    (settled : ∀ k, c.asked ≤ k → k < (c.sendEnd socket).asked → Settled (socket k)) :
    Exact socket first complete (c.sendEnd socket) := by
  have released : Keeps socket c c.closeCache :=
    .of_same rfl rfl rfl rfl rfl rfl fun wrong => by cases wrong
  have kept := released.trans (write_keeps c.endRecord)
  unfold Client.sendEnd at settled ⊢
  rw [if_pos was.empty] at settled ⊢
  simp only at settled ⊢
  split at settled
  · have sent := kept.exact first complete was settled
    rw [if_pos sent.empty]
    refine Exact.disconnect ?_ done
    exact ⟨sent.late, sent.empty, sent.sent, sent.closed, sent.reader⟩
  · rename_i waiting
    have sent := kept.exact first complete was settled
    exact absurd sent.empty waiting

theorem finish_exact (was : Exact socket first complete c) (done : complete)
    (settled : ∀ k, c.asked ≤ k → k < (c.finish socket).asked → Settled (socket k)) :
    Exact socket first complete (c.finish socket) := by
  have detached : Exact socket first complete c.disconnectFromHttp :=
    ⟨was.late, was.empty, was.sent, was.closed, was.reader⟩
  unfold Client.finish at settled ⊢
  split
  · rename_i begun
    rw [if_pos begun] at settled
    exact sendEnd_exact detached done settled
  · exact detached

end Closing

theorem continueRead_keeps : Keeps socket c (c.continueRead socket disk) := by
  have kept : Keeps socket c (c.readOn socket disk).1 := readOn_keeps
  unfold Client.continueRead
  simp only
  split
  · rename_i ended
    split
    · exact kept.trans (.of_same rfl rfl rfl rfl rfl rfl id)
    · rename_i whole
      constructor
      · exact Nat.le_trans kept.asked finish_asked
      · intro first complete was settled
        have le : (c.readOn socket disk).1.asked ≤ ((c.readOn socket disk).1.finish socket).asked :=
          finish_asked
        have low := kept.asked
        have done : complete :=
          was.reader (Client.readOn_end ended) (by simpa [Client.readOn_isPartial] using whole)
        have read := kept.exact first complete was fun k above below =>
          settled k above (Nat.lt_of_lt_of_le below le)
        exact (finish_exact read done fun k above below =>
          settled k (Nat.le_trans low above) below).disconnect done
  · exact kept

theorem readyToWrite_keeps : Keeps socket c (c.readyToWrite socket disk) := by
  by_cases empty : c.dataToWrite = []
  · unfold Client.readyToWrite
    rw [if_pos empty]
    exact continueRead_keeps
  · constructor
    · unfold Client.readyToWrite
      rw [if_neg empty]
      simp only
      split
      · exact Nat.le_succ _
      · split
        · exact Nat.le_succ _
        · split
          · exact Nat.le_succ _
          · exact Nat.le_succ _
    · intro first complete was _
      exact absurd was.empty empty

inductive Call (ι : Type)
  | write (data : Bytes)
  | readyToWrite (disk : ι → Bytes)

def perform (socket : Schedule) (c : Client ι) : Call ι → Client ι
  | .write data => c.write socket data
  | .readyToWrite disk => c.readyToWrite socket disk

theorem perform_keeps (call : Call ι) : Keeps socket c (perform socket c call) := by
  cases call with
  | write data => exact write_keeps data
  | readyToWrite disk => exact readyToWrite_keeps

theorem run_keeps (calls : List (Call ι)) :
    Keeps socket c (calls.foldl (perform socket) c) := by
  induction calls generalizing c with
  | nil => exact .refl c
  | cons call calls ih =>
    rw [List.foldl_cons]
    exact (perform_keeps call).trans ih

/-- In every run whose writes are settled, the bytes accepted and those buffered
are the bytes given, and an error of the socket closes the client if it does not
read a complete file to its end. -/
theorem settled_buffer_loses_nothing (socket : Schedule) (c : Client ι) (opened : c.opened = true)
    (empty : c.dataToWrite = []) (sent : c.accepted = c.passed) (calls : List (Call ι))
    (settled : ∀ k, c.asked ≤ k → k < (calls.foldl (perform socket) c).asked →
      Settled (socket k)) :
    let d := calls.foldl (perform socket) c
    (d.opened = true → d.accepted ++ d.dataToWrite = d.passed) ∧
      (d.opened = false → Failed socket c.asked d.asked ∨
        (c.readCache.isSome = true ∧ c.isPartial = false)) := by
  have start : Exact socket c.asked (c.readCache.isSome = true ∧ c.isPartial = false) c := by
    constructor
    · exact Nat.le_refl _
    · exact empty
    · intro _
      exact sent
    · intro closed
      rw [opened] at closed
      cases closed
    · exact And.intro
  have reached := (run_keeps calls).exact _ _ start settled
  constructor
  · intro still
    rw [reached.empty, List.append_nil]
    exact reached.sent still
  · exact reached.closed

theorem not_settled {m : Moment} (cut : (∃ n, m.sent = .short n) ∨ m.sent = .failed .EAGAIN) :
    ¬Settled m := by
  rintro (whole | ⟨code, failed⟩)
  · rcases cut with ⟨n, short⟩ | again
    · cases whole.symm.trans short
    · cases whole.symm.trans again
  · rcases cut with ⟨n, short⟩ | again
    · cases failed.symm.trans short
    · cases failed.symm.trans again

theorem write_exact_iff {data : Bytes} (opened : c.opened = true) (empty : c.dataToWrite = [])
    (sent : c.accepted = c.passed) (some : data ≠ []) :
    (((c.write socket data).opened = true →
        (c.write socket data).accepted ++ (c.write socket data).dataToWrite =
          (c.write socket data).passed) ∧
      ((c.write socket data).opened = false →
        Failed socket c.asked (c.write socket data).asked)) ↔ Settled (socket c.asked) := by
  have long := List.length_pos_iff.mpr some
  cases answer : (socket c.asked).sent with
  | whole =>
    rw [Client.write_whole opened empty answer]
    have settled : Settled (socket c.asked) := .inl answer
    simp [settled, opened, empty, sent]
  | short n =>
    have cut : c.write socket data = ({ c with passed := c.passed ++ data }.ask socket data).disconnect := by
      have differ : ((min n (data.length - 1) : ℕ) : ℤ) ≠ data.length := by omega
      simp only [Client.write, Client.direct, Client.ask, opened, empty, if_true,
        Moment.writedSize, Moment.errno, answer]
      rw [if_neg (by simpa using differ)]
    rw [cut]
    constructor
    · intro law
      obtain ⟨k, low, high, code, failed⟩ := law.2 rfl
      obtain rfl : k = c.asked := by
        have bound : k < c.asked + 1 := high
        omega
      rw [answer] at failed
      cases failed
    · exact fun settled => absurd settled (not_settled (.inl ⟨n, answer⟩))
  | failed e =>
    cases e with
    | other code =>
      rw [Client.write_failed opened empty answer]
      have settled : Settled (socket c.asked) := .inr ⟨code, answer⟩
      simp only [settled, iff_true]
      constructor
      · intro reopened
        cases reopened
      · intro _
        exact ⟨c.asked, Nat.le_refl _, Nat.lt_succ_self _, code, answer⟩
    | EAGAIN =>
      have late : c.write socket data = { c with
          passed := c.passed ++ data
          asked := c.asked + 1
          dataToWrite := (socket c.asked).before :: data } := by
        have differ : (-1 : ℤ) ≠ data.length := by omega
        simp [Client.write, Client.direct, Client.ask, Moment.writedSize, Moment.errno, opened,
          empty, answer, differ]
      rw [late]
      constructor
      · intro law
        have same := congrArg List.length (law.1 opened)
        simp [sent] at same
      · exact fun settled => absurd settled (not_settled (.inr answer))

def breaking : Schedule := fun k =>
  ⟨if k < 2 then .whole else .failed (.other 32), none, 0⟩

theorem settled_buffer_of_three_writes :
    let d := [.write [1], .write [2, 3], .readyToWrite fun _ => [], .write [4]].foldl
      (perform breaking) (Client.new : Client Unit)
    (d.opened = true → d.accepted ++ d.dataToWrite = d.passed) ∧
      (d.opened = false → Failed breaking 0 d.asked ∨
        ((Client.new : Client Unit).readCache.isSome = true ∧
          (Client.new : Client Unit).isPartial = false)) := by
  refine settled_buffer_loses_nothing breaking Client.new rfl rfl rfl _ ?_
  intro k _ _
  by_cases early : k < 2
  · exact .inl (by simp [breaking, early])
  · exact .inr ⟨32, by simp [breaking, early]⟩

def written (sent : Sent) (data : Bytes) : Client Unit :=
  perform (fun _ => ⟨sent, none, 7⟩) Client.new (.write data)

/-- A write that is put off leaves a byte in the buffer that nobody has written,
and a write that is cut short closes the client without any error. -/
theorem unsettled_write_breaks_buffer :
    (written (.failed .EAGAIN) [1]).opened = true ∧
      (written (.failed .EAGAIN) [1]).accepted ++ (written (.failed .EAGAIN) [1]).dataToWrite ≠
        (written (.failed .EAGAIN) [1]).passed ∧
      (written (.short 1) [1, 2]).opened = false := by
  decide

end FastCgiCdn.OutputBuffer
