import FastCgiCdn.ClientModel
import FastCgiCdn.GuardedRuns
import FastCgiCdn.SparseFile

/-! A temporary cache file under its writer and its readers. The position of the
content is not stored: each handle computes it from the byte with the size of the
backend ETag, and an ETag of 128 to 255 bytes leaves a hole there, since its size
is negative as a `char`. Every handle has an offset of its own. -/

namespace FastCgiCdn.CacheFile

open HttpModel ClientModel GuardedRuns SparseFile

structure File where
  bytes : Bytes
  offset : ℕ → ℕ
  taken : ℕ → ℕ
  asked : ℕ

variable {fd fd' w pos n : ℕ} {c : Byte} {data content header b : Bytes} {f f' : File}

namespace File

def lseek (fd pos : ℕ) (f : File) : File := { f with offset := Function.update f.offset fd pos }

def stored (data : Bytes) (f : File) : Bytes := data.take (f.taken f.asked)

/-- An error stores nothing. -/
def write (fd : ℕ) (data : Bytes) (f : File) : ℕ × File :=
  ((f.stored data).length,
    { f with
      bytes := overwrite 0 (f.offset fd) (f.stored data) f.bytes
      offset := Function.update f.offset fd (f.offset fd + (f.stored data).length)
      asked := f.asked + 1 })

def read (fd n : ℕ) (f : File) : Bytes × File :=
  let data := (f.bytes.drop (f.offset fd)).take n
  (data, f.lseek fd (f.offset fd + data.length))

end File

/-- `lseek` and `write`, whose result is compared with the size. -/
def setField (fd pos : ℕ) (data : Bytes) (f : File) : Bool × File :=
  let written := (f.lseek fd pos).write fd data
  (written.1 = data.length, written.2)

def set_access_time (fd time : ℕ) : File → Bool × File := setField fd 0 (littleEndian 8 time)

def set_last_modification_time_check (fd time : ℕ) : File → Bool × File :=
  setField fd 8 (littleEndian 8 time)

def set_http_code (fd http_code : ℕ) : File → Bool × File :=
  setField fd 16 (littleEndian 2 http_code)

def set_ETagFrontend (fd : ℕ) (etag : Bytes) : File → Bool × File := setField fd 18 etag

def set_ETagBackend (fd : ℕ) (etag : Bytes) (f : File) : Bool × File :=
  if 255 < etag.length then setField fd 24 [0] f
  else
    let c := UInt8.ofNat etag.length
    let size := setField fd 24 [c] f
    if !size.1 then size
    -- `char` is signed
    else if 0 < c.toInt8 then
      let written := size.2.write fd etag
      (written.1 = etag.length, written.2)
    else size

def seekToContentPos (fd : ℕ) (f : File) : Bool × File :=
  let size := (f.lseek fd 24).read fd 1
  match size.1 with
  | [etagBackendSize] => (true, size.2.lseek fd (25 + etagBackendSize.toNat))
  | _ => (false, size.2)

def checked (call : Bool × File) : Option File := if call.1 then some call.2 else none

/-- What the end of the head does with the temporary file, unless a call fails. -/
def initialise (w currentTime http_code : ℕ) (randomIndex : Fin 6 → ℕ)
    (etagBackend header : Bytes) (f : File) : Option File := do
  let f ← checked (set_access_time w currentTime f)
  let f ← checked (set_last_modification_time_check w currentTime f)
  let f ← checked (set_http_code w http_code f)
  let f ← checked (set_ETagFrontend w (List.ofFn fun i => Http.randomETagChar (randomIndex i)) f)
  let f ← checked (set_ETagBackend w etagBackend f)
  let f := (seekToContentPos w f).2
  let written := f.write w header
  checked (written.1 = header.length, written.2)

/-- What a handle other than the writer's does. Opening one is an `lseek` to 0. -/
inductive Call
  | lseek (pos : ℕ)
  | read (n : ℕ)
  | set_access_time (time : ℕ)
  | set_last_modification_time_check (time : ℕ)
  | seekToContentPos
  deriving DecidableEq, Repr

namespace Call

def run (fd : ℕ) (f : File) : Call → File
  | lseek pos => f.lseek fd pos
  | read n => (f.read fd n).2
  | set_access_time time => (CacheFile.set_access_time fd time f).2
  | set_last_modification_time_check time =>
    (CacheFile.set_last_modification_time_check fd time f).2
  | seekToContentPos => (CacheFile.seekToContentPos fd f).2

/-- What the handle has read since it last sought the content. -/
def got (fd : ℕ) (f : File) (before : Option Bytes) : Call → Option Bytes
  | read n => before.map (· ++ (f.read fd n).1)
  | seekToContentPos => if (CacheFile.seekToContentPos fd f).1 then some [] else none
  | _ => none

end Call

inductive Event
  | write (data : Bytes)
  | other (fd : ℕ) (call : Call)
  deriving DecidableEq, Repr

structure Run where
  file : File
  /-- What was handed to `Cache::write` behind the header, and how much was stored. -/
  writes : List (Bytes × ℕ)
  got : ℕ → Option Bytes

namespace Run

def given (r : Run) : Bytes := (r.writes.map Prod.fst).flatten

def body (r : Run) : Bytes := (r.writes.map fun piece => piece.1.take piece.2).flatten

end Run

def step (w : ℕ) : Event → Run → Run
  | .write data, r =>
    { r with
      file := (r.file.write w data).2
      writes := r.writes ++ [(data, r.file.taken r.file.asked)] }
  | .other fd call, r =>
    { r with
      file := call.run fd r.file
      got := Function.update r.got fd (call.got fd r.file (r.got fd)) }

def byOthers (w : ℕ) (e : Event) (_ : Run) : Prop := ∀ fd call, e = .other fd call → fd ≠ w

/-- A run begins when an empty file has been initialised. -/
def Initialised (w currentTime http_code : ℕ) (randomIndex : Fin 6 → ℕ)
    (etagBackend header : Bytes) (r : Run) : Prop :=
  r.writes = [] ∧ (∀ fd, r.got fd = none) ∧ ∃ f, f.bytes = [] ∧
    initialise w currentTime http_code randomIndex etagBackend header f = some r.file

def contentPos (etagBackend : Bytes) : ℕ :=
  25 + if etagBackend.length ≤ 255 then etagBackend.length else 0

/-- The byte with the size leads to `pos`, and the content stands there. -/
structure Placed (pos : ℕ) (content : Bytes) (f : File) : Prop where
  size : ∃ c, (f.bytes.drop 24).take 1 = [c] ∧ pos = 25 + c.toNat
  stands : f.bytes.drop pos = content

namespace Placed

theorem of_bytes (was : Placed pos content f) (same : f'.bytes = f.bytes) :
    Placed pos content f' := by
  constructor
  · rw [same]
    exact was.size
  · rw [same]
    exact was.stands

theorem le_pos (placed : Placed pos content f) : 25 ≤ pos := by
  obtain ⟨c, -, eq⟩ := placed.size
  omega

theorem setField (was : Placed pos content f) {start : ℕ} (front : start + data.length ≤ 24) :
    Placed pos content (setField fd start data f).2 := by
  have low := was.le_pos
  have short : (f.stored data).length ≤ data.length := List.length_take_le' _ _
  have frame (m : ℕ) (behind : 24 ≤ m) :
      (CacheFile.setField fd start data f).2.bytes.drop m = f.bytes.drop m := by
    have here : (f.lseek fd start).offset fd = start := Function.update_self _ _ _
    change (overwrite 0 ((f.lseek fd start).offset fd) (f.stored data) f.bytes).drop m = _
    rw [here]
    exact drop_overwrite (by omega)
  constructor
  · rw [frame 24 (Nat.le_refl _)]
    exact was.size
  · rw [frame pos (by omega)]
    exact was.stands

theorem write (was : Placed pos content f) (behind : f.offset w = pos + content.length) :
    Placed pos (content ++ f.stored data) (f.write w data).2 := by
  have low := was.le_pos
  obtain ⟨c, read, eq⟩ := was.size
  have long : 25 ≤ f.bytes.length := by
    have count := congrArg List.length read
    simp only [List.length_take, List.length_drop, List.length_singleton] at count
    omega
  have bytes : (f.write w data).2.bytes =
      overwrite 0 (pos + content.length) (f.stored data) f.bytes := by
    rw [← behind]
    rfl
  constructor
  · refine ⟨c, ?_, eq⟩
    have front : ((f.write w data).2.bytes).take 25 = f.bytes.take 25 := by
      rw [bytes]
      exact take_overwrite (by omega) long
    calc
      _ = ((f.write w data).2.bytes.take 25).drop 24 := by rw [List.drop_take]
      _ = (f.bytes.take 25).drop 24 := by rw [front]
      _ = (f.bytes.drop 24).take 1 := by rw [List.drop_take]
      _ = [c] := read
  · rw [bytes]
    exact drop_append was.stands

end Placed

section Seek

theorem bytes_seekToContentPos : (seekToContentPos fd f).2.bytes = f.bytes := by
  unfold seekToContentPos
  dsimp only
  split <;> rfl

theorem offset_seekToContentPos_of_ne (other : fd' ≠ fd) :
    (seekToContentPos fd f).2.offset fd' = f.offset fd' := by
  unfold seekToContentPos
  dsimp only
  split <;> simp only [File.read, File.lseek, Function.update_of_ne other]

theorem seekToContentPos_placed (fd : ℕ) (placed : Placed pos content f) :
    (seekToContentPos fd f).1 = true ∧ (seekToContentPos fd f).2.offset fd = pos := by
  obtain ⟨c, read, eq⟩ := placed.size
  have size : ((f.lseek fd 24).read fd 1).1 = [c] := by
    simp only [File.read, File.lseek, Function.update_self]
    exact read
  have sought : seekToContentPos fd f =
      (true, ((f.lseek fd 24).read fd 1).2.lseek fd (25 + c.toNat)) := by
    unfold seekToContentPos
    dsimp only
    rw [size]
  rw [sought, eq]
  exact ⟨rfl, Function.update_self _ _ _⟩

end Seek

section Initialise

variable {currentTime http_code : ℕ} {randomIndex : Fin 6 → ℕ} {etagBackend : Bytes}

theorem checked_eq_some {call : Bool × File} (done : checked call = some f') :
    call.1 = true ∧ call.2 = f' := by
  unfold checked at done
  split at done
  · rename_i succeeded
    exact ⟨succeeded, Option.some.inj done⟩
  · cases done

theorem stored_eq (whole : (f.write fd data).1 = data.length) : f.stored data = data := by
  have short : data.length ≤ f.taken f.asked := by
    have count : (f.stored data).length = data.length := whole
    rw [File.stored, List.length_take] at count
    omega
  exact List.take_of_length_le short

theorem write_at_end (whole : (f.write fd data).1 = data.length)
    (here : f.bytes.length = f.offset fd) : (f.write fd data).2.bytes = f.bytes ++ data := by
  have all := stored_eq whole
  change overwrite 0 (f.offset fd) (f.stored data) f.bytes = _
  rw [overwrite_at_end here, all]

theorem offset_write :
    (f.write fd data).2.offset fd = f.offset fd + (f.stored data).length :=
  Function.update_self _ _ _

theorem setField_bytes (done : (setField fd pos data f).1 = true) :
    (setField fd pos data f).2.bytes = overwrite 0 pos data f.bytes ∧
      (setField fd pos data f).2.offset fd = pos + data.length := by
  have whole := stored_eq (of_decide_eq_true done)
  have here : (f.lseek fd pos).offset fd = pos := Function.update_self _ _ _
  constructor
  · change overwrite 0 ((f.lseek fd pos).offset fd) ((f.lseek fd pos).stored data) f.bytes = _
    rw [whole, here]
  · change ((f.lseek fd pos).write fd data).2.offset fd = _
    rw [offset_write, whole, here]

theorem setField_at_end (done : (setField fd pos data f).1 = true) (here : f.bytes.length = pos) :
    (setField fd pos data f).2.bytes = f.bytes ++ data ∧
      (setField fd pos data f).2.offset fd = pos + data.length := by
  obtain ⟨bytes, offset⟩ := setField_bytes done
  exact ⟨bytes.trans (overwrite_at_end here), offset⟩

theorem length_setField (done : checked (setField fd pos data f) = some f')
    (here : f.bytes.length = pos) : f'.bytes.length = pos + data.length := by
  obtain ⟨succeeded, rfl⟩ := checked_eq_some done
  rw [(setField_at_end succeeded here).1, List.length_append, here]

theorem littleEndian_length (count value : ℕ) : (littleEndian count value).length = count := by
  induction count generalizing value with
  | zero => rfl
  | succ count ih => rw [littleEndian, List.length_cons, ih]

theorem Placed.of_size {front tag : Bytes} (before : front.length = 24)
    (bytes : f.bytes = front ++ c :: tag) (short : tag.length ≤ c.toNat) :
    Placed (25 + c.toNat) [] f := by
  constructor
  · refine ⟨c, ?_, rfl⟩
    rw [bytes, List.drop_append_of_le_length (Nat.le_of_eq before.symm),
      List.drop_eq_nil_of_le (Nat.le_of_eq before)]
    rfl
  · apply List.drop_eq_nil_of_le
    rw [bytes, List.length_append, List.length_cons]
    omega

theorem set_ETagBackend_placed (done : checked (set_ETagBackend fd etagBackend f) = some f')
    (before : f.bytes.length = 24) : Placed (contentPos etagBackend) [] f' := by
  obtain ⟨succeeded, rfl⟩ := checked_eq_some done
  revert succeeded
  unfold set_ETagBackend
  split
  case isTrue long =>
    intro succeeded
    have pos : contentPos etagBackend = 25 + (0 : Byte).toNat := by
      rw [contentPos, if_neg (by omega)]
      rfl
    rw [pos]
    exact .of_size before (setField_at_end succeeded before).1 (Nat.zero_le _)
  case isFalse short =>
    have size : (UInt8.ofNat etagBackend.length).toNat = etagBackend.length := by
      rw [UInt8.toNat_ofNat']
      omega
    have pos : contentPos etagBackend = 25 + (UInt8.ofNat etagBackend.length).toNat := by
      rw [contentPos, if_pos (by omega), size]
    rw [pos]
    dsimp only
    split
    case isTrue failed =>
      intro succeeded
      rw [succeeded] at failed
      cases failed
    case isFalse going =>
      have sized : (setField fd 24 [UInt8.ofNat etagBackend.length] f).1 = true := by
        simpa using going
      obtain ⟨bytes, moved⟩ := setField_at_end sized before
      split
      case isTrue =>
        intro succeeded
        have whole := of_decide_eq_true succeeded
        have here : (setField fd 24 [UInt8.ofNat etagBackend.length] f).2.bytes.length =
            (setField fd 24 [UInt8.ofNat etagBackend.length] f).2.offset fd := by
          rw [bytes, moved, List.length_append, before]
        have all := write_at_end whole here
        rw [bytes, List.append_assoc] at all
        exact .of_size before all (Nat.le_of_eq size.symm)
      case isFalse =>
        intro _
        exact .of_size before bytes (Nat.zero_le _)

theorem initialise_steps (empty : f.bytes = [])
    (done : initialise w currentTime http_code randomIndex etagBackend header f = some f') :
    ∃ coded tagged sized, coded.bytes.length = 18 ∧
      checked (set_ETagFrontend w (List.ofFn fun i => Http.randomETagChar (randomIndex i)) coded) =
        some tagged ∧
      tagged.bytes.length = 24 ∧ checked (set_ETagBackend w etagBackend tagged) = some sized ∧
      ((seekToContentPos w sized).2.write w header).1 = header.length ∧
      f' = ((seekToContentPos w sized).2.write w header).2 := by
  unfold initialise at done
  obtain ⟨accessed, first, done⟩ := Option.bind_eq_some_iff.mp done
  obtain ⟨checkedAt, second, done⟩ := Option.bind_eq_some_iff.mp done
  obtain ⟨coded, third, done⟩ := Option.bind_eq_some_iff.mp done
  obtain ⟨tagged, fourth, done⟩ := Option.bind_eq_some_iff.mp done
  obtain ⟨sized, fifth, done⟩ := Option.bind_eq_some_iff.mp done
  obtain ⟨written, rfl⟩ := checked_eq_some done
  have at8 : accessed.bytes.length = 8 := by
    rw [length_setField first (congrArg List.length empty), littleEndian_length]
  have at16 : checkedAt.bytes.length = 16 := by
    rw [length_setField second at8, littleEndian_length]
  have at18 : coded.bytes.length = 18 := by
    rw [length_setField third at16, littleEndian_length]
  have at24 : tagged.bytes.length = 24 := by
    rw [length_setField fourth at18, List.length_ofFn]
  exact ⟨coded, tagged, sized, at18, fourth, at24, fifth, of_decide_eq_true written, rfl⟩

/-- Behind the initialisation the content is the header, and the writer stands
behind it. -/
theorem initialise_placed (empty : f.bytes = [])
    (done : initialise w currentTime http_code randomIndex etagBackend header f = some f') :
    Placed (contentPos etagBackend) header f' ∧
      f'.offset w = contentPos etagBackend + header.length := by
  obtain ⟨coded, tagged, sized, -, -, at24, set, whole, rfl⟩ := initialise_steps empty done
  have placed := set_ETagBackend_placed set at24
  have sought : (seekToContentPos w sized).2.offset w = contentPos etagBackend :=
    (seekToContentPos_placed w placed).2
  have stays : Placed (contentPos etagBackend) [] (seekToContentPos w sized).2 :=
    placed.of_bytes bytes_seekToContentPos
  constructor
  · have filled : Placed (contentPos etagBackend) ([] ++ (seekToContentPos w sized).2.stored header)
        ((seekToContentPos w sized).2.write w header).2 := stays.write sought
    rw [stored_eq whole, List.nil_append] at filled
    exact filled
  · rw [offset_write, sought, stored_eq whole]

end Initialise

/-- The writer stands at the end of the content, and every handle that has sought
the content has read what lies between there and its offset. -/
structure Agree (w pos : ℕ) (content : Bytes) (r : Run) : Prop where
  placed : Placed pos content r.file
  writer : r.file.offset w = pos + content.length
  reader : ∀ fd b, fd ≠ w → r.got fd = some b →
    b <+: content ∧ r.file.offset fd = pos + b.length

section Calls

variable {call : Call} {r : Run}

theorem offset_setField_of_ne (other : fd' ≠ fd) :
    (setField fd pos data f).2.offset fd' = f.offset fd' := by
  simp only [setField, File.write, File.lseek, Function.update_of_ne other]

theorem offset_run_of_ne (other : fd' ≠ fd) : (call.run fd f).offset fd' = f.offset fd' := by
  cases call with
  | lseek | read => exact Function.update_of_ne other _ _
  | set_access_time | set_last_modification_time_check => exact offset_setField_of_ne other
  | seekToContentPos => exact offset_seekToContentPos_of_ne other

theorem Placed.run (was : Placed pos content f) : Placed pos content (call.run fd f) := by
  cases call with
  | lseek | read => exact was.of_bytes rfl
  | set_access_time | set_last_modification_time_check =>
    apply was.setField
    rw [littleEndian_length]
    omega
  | seekToContentPos => exact was.of_bytes bytes_seekToContentPos

theorem read_placed (placed : Placed pos content f) (here : f.offset fd = pos + b.length) :
    (f.read fd n).1 = (content.drop b.length).take n := by
  rw [← placed.stands, List.drop_drop, ← here]
  rfl

theorem append_read (part : b <+: content) : b ++ (content.drop b.length).take n =
    content.take (b.length + n) := by
  obtain ⟨rest, rfl⟩ := part
  rw [List.drop_left, List.take_length_add_append]

theorem got_run (placed : Placed pos content f) {before : Option Bytes}
    (was : ∀ b, before = some b → b <+: content ∧ f.offset fd = pos + b.length)
    (now : call.got fd f before = some b) :
    b <+: content ∧ (call.run fd f).offset fd = pos + b.length := by
  cases call with
  | lseek | set_access_time | set_last_modification_time_check => cases now
  | read n =>
    obtain ⟨b', had, rfl⟩ := Option.map_eq_some_iff.mp now
    obtain ⟨part, here⟩ := was b' had
    constructor
    · rw [read_placed placed here, append_read part]
      exact List.take_prefix _ _
    · have moved : (f.read fd n).2.offset fd = f.offset fd + (f.read fd n).1.length :=
        Function.update_self _ _ _
      change (f.read fd n).2.offset fd = _
      rw [moved, here, List.length_append, Nat.add_assoc]
  | seekToContentPos =>
    obtain ⟨found, there⟩ := seekToContentPos_placed fd placed
    simp only [Call.got, found, if_true, Option.some.injEq] at now
    subst now
    exact ⟨List.nil_prefix, there⟩

theorem Agree.write (was : Agree w pos content r) :
    Agree w pos (content ++ r.file.stored data) (step w (.write data) r) where
  placed := was.placed.write was.writer
  writer := by
    change (r.file.write w data).2.offset w = _
    rw [offset_write, was.writer, List.length_append, Nat.add_assoc]
  reader fd b other got := by
    obtain ⟨part, here⟩ := was.reader fd b other got
    constructor
    · exact part.trans (List.prefix_append _ _)
    · have kept : (r.file.write w data).2.offset fd = r.file.offset fd :=
        Function.update_of_ne other _ _
      exact kept.trans here

theorem Agree.other (was : Agree w pos content r) (others : fd ≠ w) :
    Agree w pos content (step w (.other fd call) r) where
  placed := was.placed.run
  writer := (offset_run_of_ne others.symm).trans was.writer
  reader fd' b other got := by
    change Function.update r.got fd (call.got fd r.file (r.got fd)) fd' = some b at got
    by_cases same : fd' = fd
    · subst same
      rw [Function.update_self] at got
      exact got_run was.placed (fun b before => was.reader fd' b other before) got
    · rw [Function.update_of_ne same] at got
      obtain ⟨part, here⟩ := was.reader fd' b other got
      exact ⟨part, (offset_run_of_ne same).trans here⟩

end Calls

section Runs

variable {currentTime http_code : ℕ} {randomIndex : Fin 6 → ℕ} {etagBackend : Bytes} {r : Run}

theorem body_write : (step w (.write data) r).body = r.body ++ r.file.stored data := by
  simp only [step, Run.body, File.stored, List.map_append, List.flatten_append, List.map_cons,
    List.map_nil, List.flatten_cons, List.flatten_nil, List.append_nil]

theorem reach_agree (reached : Reach (fun e s t => step w e s = t) (byOthers w)
    (Initialised w currentTime http_code randomIndex etagBackend header) r) :
    Agree w (contentPos etagBackend) (header ++ r.body) r := by
  apply reached.invariant
  · intro first
    rintro ⟨none_written, none_got, f, empty, done⟩
    obtain ⟨placed, writer⟩ := initialise_placed empty done
    have nothing : first.body = [] := by rw [Run.body, none_written, List.map_nil, List.flatten_nil]
    rw [nothing, List.append_nil]
    refine ⟨placed, writer, ?_⟩
    intro fd b _ got
    rw [none_got fd] at got
    cases got
  · intro e s t was admitted taken
    subst taken
    cases e with
    | write data =>
      rw [body_write, ← List.append_assoc]
      exact was.write
    | other fd call => exact was.other (admitted fd call rfl)

theorem body_eq_given (whole : ∀ piece ∈ r.writes, piece.1.length ≤ piece.2) :
    r.body = r.given := by
  have each : r.writes.map (fun piece => piece.1.take piece.2) = r.writes.map Prod.fst :=
    List.map_congr_left fun piece mem => List.take_of_length_le (whole piece mem)
  rw [Run.body, each, Run.given]

/-- In every state of the file another handle that seeks the content finds it. What
it has read since is a prefix of the header and of what the writes stored, and a
read brings what comes next, so that at the end of the file it has all of it. -/
theorem readers_obtain_content (reached : Reach (fun e s t => step w e s = t) (byOthers w)
    (Initialised w currentTime http_code randomIndex etagBackend header) r) (other : fd ≠ w) :
    (seekToContentPos fd r.file).1 = true ∧
      (∀ b, r.got fd = some b → b <+: header ++ r.body ∧
        ∀ n, b ++ (r.file.read fd n).1 = (header ++ r.body).take (b.length + n) ∧
          (0 < n → (r.file.read fd n).1 = [] → b = header ++ r.body)) ∧
      ((∀ piece ∈ r.writes, piece.1.length ≤ piece.2) → r.body = r.given) := by
  have agree := reach_agree reached
  refine ⟨(seekToContentPos_placed fd agree.placed).1, ?_, body_eq_given⟩
  intro b got
  obtain ⟨part, here⟩ := agree.reader fd b other got
  refine ⟨part, fun n => ?_⟩
  have next := read_placed (n := n) agree.placed here
  constructor
  · rw [next, append_read part]
  · intro some_asked none_read
    rw [next] at none_read
    apply part.eq_of_length_le
    have count := congrArg List.length none_read
    rw [List.length_take, List.length_drop, List.length_nil] at count
    omega

set_option maxRecDepth 8192 in
theorem content_behind_a_hole : ∃ r : Run,
    Reach (fun e s t => step 0 e s = t) (byOthers 0)
      (Initialised 0 7 200 (fun _ => 0) (List.replicate 200 65) [9]) r ∧
    r.got 1 = some [9, 1] ∧ r.file.bytes.length = 229 ∧
    [9, 1] <+: [9] ++ r.body ∧ r.body = r.given := by
  have ready : (initialise 0 7 200 (fun _ => 0) (List.replicate 200 65) [9]
      ⟨[], fun _ => 0, fun _ => 1000, 0⟩).isSome = true := by decide +kernel
  have first : Initialised 0 7 200 (fun _ => 0) (List.replicate 200 65) [9]
      ⟨_, [], fun _ => none⟩ :=
    ⟨rfl, fun _ => rfl, _, rfl, (Option.some_get ready).symm⟩
  have written : Reach (fun e s t => step 0 e s = t) (byOthers 0) _ _ :=
    .next (e := .write [1, 2]) (.start first) (fun _ _ e => by cases e) rfl
  have touched := written.next (e := .other 1 (.set_access_time 8))
    (fun _ _ e => by cases e; decide) rfl
  have sought := touched.next (e := .other 1 .seekToContentPos)
    (fun _ _ e => by cases e; decide) rfl
  have read := sought.next (e := .other 1 (.read 2)) (fun _ _ e => by cases e; decide) rfl
  have again := read.next (e := .write [3]) (fun _ _ e => by cases e) rfl
  have facts := readers_obtain_content again Nat.one_ne_zero
  have prefixed := (facts.2.1 [9, 1] (by decide +kernel)).1
  exact ⟨_, again, by decide +kernel, by decide +kernel, prefixed, facts.2.2 (by decide +kernel)⟩

end Runs

end FastCgiCdn.CacheFile
