import FastCgiCdn.CacheFile
import FastCgiCdn.FileNames

/-! The directory of the cache under all downloads and clients at once: what is
opened, written, renamed and unlinked there, and by whom. A file lives on while it
is open, whatever becomes of its name. Handles are numbered as they are opened. The
program may be killed and started again at any point; where it aborts it is. A
directory that is missing shows as a rename that fails. -/

namespace FastCgiCdn.CacheVolume

open CacheFile ClientModel FileNames GuardedRuns HttpModel

structure Handle where
  fd : ℕ
  file : ℕ
  isOpen : Bool
  deriving DecidableEq, Repr

/-- What a download has to do with files. -/
structure Http where
  https : Bool
  cachePath : Bytes
  finalCache : Option ℕ
  tempCache : Option Handle
  headerWriten : Bool
  http_code : ℕ

def Http.gone : Http := ⟨false, [], none, none, false, 0⟩

/-- How a file that was initialised came to be. -/
structure Birth where
  fd : ℕ
  etagBackend : Bytes
  header : Bytes

structure Volume where
  names : Directory Bytes
  files : ℕ → Run
  born : ℕ → Option Birth
  newFile : ℕ
  /-- The handles that are not a temporary file's. -/
  readers : ℕ → Option ℕ
  newFd : ℕ
  downloads : ℕ → Http
  newHttp : ℕ
  pathToHttp : Bool → Bytes → Option ℕ

def tmp (cachePath : Bytes) : Bytes := cachePath ++ ascii ".tmp"

inductive Failure
  | field
  | check
  | header
  deriving DecidableEq, Repr

/-- What the end of a head meets. -/
structure Ending where
  creates : Bool
  taken : ℕ → ℕ
  currentTime : ℕ
  randomIndex : Fin 6 → ℕ
  etagBackend : Bytes
  header : Bytes

section Initialisation

def attempt (failure : Failure) (call : Bool × File) : Except (Failure × File) File :=
  if call.1 then .ok call.2 else .error (failure, call.2)

def setFields (w : ℕ) (e : Ending) (f : File) : Except (Failure × File) File := do
  let f ← attempt .field (set_access_time w e.currentTime f)
  let f ← attempt .check (set_last_modification_time_check w e.currentTime f)
  let f ← attempt .field (set_http_code w 200 f)
  let f ← attempt .field
    (set_ETagFrontend w (List.ofFn fun i => HttpModel.Http.randomETagChar (e.randomIndex i)) f)
  let f ← attempt .field (set_ETagBackend w e.etagBackend f)
  .ok (seekToContentPos w f).2

def writeHeader (w : ℕ) (e : Ending) (f : File) : Except (Failure × File) File :=
  let written := f.write w e.header
  attempt .header (written.1 = e.header.length, written.2)

theorem attempt_toOption (failure : Failure) (call : Bool × File) :
    (attempt failure call).toOption = checked call := by
  unfold attempt checked
  split <;> rfl

theorem toOption_bind {ε α β : Type} (x : Except ε α) (f : α → Except ε β) :
    (x >>= f).toOption = x.toOption.bind fun a => (f a).toOption := by
  cases x <;> rfl

theorem setFields_writeHeader (w : ℕ) (e : Ending) (f : File) :
    (setFields w e f >>= writeHeader w e).toOption =
      initialise w e.currentTime 200 e.randomIndex e.etagBackend e.header f := by
  simp only [setFields, writeHeader, bind_assoc, toOption_bind, attempt_toOption, initialise]
  rfl

end Initialisation

def emptyFile (taken : ℕ → ℕ) : File := ⟨[], fun _ => 0, taken, 0⟩

def fileRun (f : File) : Run := ⟨f, [], fun _ => none⟩

namespace Volume

variable (hostsubfolder enable : Bool) (XXH3_64bits : Bytes → UInt64)

def initial : Volume where
  names := fun _ => none
  files := fun _ => fileRun (emptyFile fun _ => 0)
  born := fun _ => none
  newFile := 0
  readers := fun _ => none
  newFd := 0
  downloads := fun _ => .gone
  newHttp := 0
  pathToHttp := fun _ _ => none

def setHttp (h : ℕ) (f : Http → Http) (v : Volume) : Volume :=
  { v with downloads := Function.update v.downloads h (f (v.downloads h)) }

def unlinkName (name : Bytes) (v : Volume) : Volume := { v with names := unlink name v.names }

/-- The program is killed and started again. -/
def restart (v : Volume) : Volume :=
  { v with
    readers := fun _ => none
    downloads := fun _ => .gone
    pathToHttp := fun _ _ => none }

def call (fd : ℕ) (c : Call) (v : Volume) : Volume :=
  match v.readers fd with
  | none => v
  | some file => { v with
      files := Function.update v.files file (step fd (.other fd c) (v.files file)) }

def close (fd : ℕ) (v : Volume) : Volume := { v with readers := Function.update v.readers fd none }

/-- `open` without `O_CREAT`, with the new handle. -/
def openName (name : Bytes) (v : Volume) : Option (ℕ × Volume) :=
  (v.names name).map fun file => (v.newFd, call v.newFd (.lseek 0) { v with
    readers := Function.update v.readers v.newFd (some file)
    newFd := v.newFd + 1 })

def newDownload (https : Bool) (path : Bytes) (finalCache : Option ℕ) (v : Volume) : Volume :=
  { v with
    downloads := Function.update v.downloads v.newHttp ⟨https, path, finalCache, none, false, 0⟩
    newHttp := v.newHttp + 1
    pathToHttp := Function.update v.pathToHttp https
      (Function.update (v.pathToHttp https) path (some v.newHttp)) }

/-- A file that is fresh is read by the client, and another one is the old file of
the download. -/
def dnsRight (r : Request) (fresh : Bool) (v : Volume) : Volume :=
  let path := cachePath hostsubfolder XXH3_64bits r
  if (v.pathToHttp r.https path).isSome then v
  else
    match v.openName path with
    | none => newDownload r.https path none v
    | some (fd, v) => if fresh then v else newDownload r.https path (some fd) v

/-- `loadUrl` finds no content in the cache file. -/
def corrupted (r : Request) (v : Volume) : Volume :=
  let path := cachePath hostsubfolder XXH3_64bits r
  if (v.pathToHttp r.https path).isSome then v else unlinkName path v

/-- The status line of a response, which is read once. -/
def HttpReturnCode (h : ℕ) (errorCode time : ℕ) (v : Volume) : Volume :=
  let d := v.downloads h
  if d.http_code ≠ 0 then v
  else
    let v := setHttp h ({ · with http_code := errorCode }) v
    if errorCode = 304 then
      match d.finalCache with
      | none => v
      | some fd =>
        let touched := (v.readers fd).any fun file =>
          (set_last_modification_time_check fd time (v.files file).file).1
        let v := call fd (.set_last_modification_time_check time) v
        if touched then v else unlinkName (tmp d.cachePath) v
    else v

def erasePath (https : Bool) (path : Bytes) (v : Volume) : Volume :=
  { v with
    pathToHttp := Function.update v.pathToHttp https
      (Function.update (v.pathToHttp https) path none) }

/-- The download leaves the list of paths and forgets its own. The destructor knows
no list but the one of http. -/
def unregister (fromDestructor : Bool) (h : ℕ) (v : Volume) : Volume :=
  let d := v.downloads h
  let https := d.https && !fromDestructor
  setHttp h ({ · with cachePath := [] })
    (if d.cachePath = [] then v
    else erasePath https (tmp d.cachePath) (erasePath https d.cachePath v))

def size (file : ℕ) (v : Volume) : ℕ := (v.files file).file.bytes.length

/-- What stands under the temporary name is renamed into place. A name that is empty
cannot be renamed to. -/
def save (path : Bytes) (renamed : Bool) (v : Volume) : Volume :=
  match v.names (tmp path) with
  | none => unlinkName (tmp path) (unlinkName path v)
  | some file =>
    if size file v < 100000000 ∧ 25 < size file v then
      if renamed ∧ path ≠ [] then { v with names := rename (tmp path) path (unlink path v.names) }
      else unlinkName (tmp path) (unlinkName path v)
    else unlinkName (tmp path) (unlinkName path v)

def closeFinal (h : ℕ) (v : Volume) : Volume :=
  match (v.downloads h).finalCache with
  | none => v
  | some fd => setHttp h ({ · with finalCache := none }) (close fd v)

/-- `Http::disconnectBackend`, which aborts when the temporary file is closed. -/
def disconnectBackend (fromDestructor : Bool) (h : ℕ) (renamed : Bool) (v : Volume) : Volume :=
  let v := closeFinal h v
  let path := (v.downloads h).cachePath
  match (v.downloads h).tempCache with
  | none => unregister fromDestructor h v
  | some c =>
    if !c.isOpen || size c.file v < 25 then restart (unlinkName (tmp path) (unlinkName path v))
    else
      let v := setHttp h ({ · with tempCache := some { c with isOpen := false } }) v
      let v := save path renamed v
      unregister fromDestructor h (if enable then v else unlinkName path v)

def create (name : Bytes) (f : File) (b : Option Birth) (v : Volume) : Volume :=
  { v with
    names := link name v.newFile (unlink name v.names)
    files := Function.update v.files v.newFile (fileRun f)
    born := Function.update v.born v.newFile b
    newFile := v.newFile + 1
    newFd := v.newFd + 1 }

/-- A call at the end of the head fails: the temporary file is closed and forgotten,
and stays under its name. What is unlinked then is named after the empty path. -/
def headFails (h : ℕ) (failure : Failure) (f : File) (v : Volume) : Volume :=
  let v := create (tmp (v.downloads h).cachePath) f none v
  let v := disconnectBackend enable false h false
    (setHttp h (fun d => { d with headerWriten := d.headerWriten || failure = .header }) v)
  if failure = .check then unlinkName (tmp []) v else v

/-- The end of the head of a response, which opens the temporary file. A second head
aborts behind the fields. -/
def endOfHead (h : ℕ) (e : Ending) (v : Volume) : Volume :=
  if (v.downloads h).http_code ≠ 200 then v
  else
    let v := setHttp h ({ · with tempCache := none }) v
    let name := tmp (v.downloads h).cachePath
    if !e.creates then unlinkName name v
    else
      match setFields v.newFd e (emptyFile e.taken) with
      | .error (failure, f) => headFails enable h failure f v
      | .ok f =>
        if (v.downloads h).headerWriten then restart (create name f none v)
        else
          match writeHeader v.newFd e f with
          | .error (failure, f) => headFails enable h failure f v
          | .ok f =>
            setHttp h ({ · with tempCache := some ⟨v.newFd, v.newFile, true⟩, headerWriten := true })
              (create name f (some ⟨v.newFd, e.etagBackend, e.header⟩) v)

/-- A piece of the body. A closed file takes nothing. -/
def write (h : ℕ) (data : Bytes) (v : Volume) : Volume :=
  match (v.downloads h).tempCache with
  | none => v
  | some c =>
    if c.isOpen then { v with
      files := Function.update v.files c.file (step c.fd (.write data) (v.files c.file)) }
    else v

/-- `Http::~Http` lets go of the temporary file before it disconnects. -/
def deleteHttp (h : ℕ) (v : Volume) : Volume :=
  disconnectBackend enable true h false (setHttp h ({ · with tempCache := none }) v)

end Volume

/-- What can happen between two turns of the event loop, and in the course of one. -/
inductive Event
  | dnsRight (r : Request) (fresh : Bool)
  /-- `loadUrl` and `startRead` with a path. -/
  | openName (name : Bytes)
  | call (fd : ℕ) (c : Call)
  | close (fd : ℕ)
  | corrupted (r : Request)
  | HttpReturnCode (h : ℕ) (errorCode time : ℕ)
  | endOfHead (h : ℕ) (e : Ending)
  | write (h : ℕ) (data : Bytes)
  | backendError (h : ℕ)
  | disconnectBackend (h : ℕ) (renamed : Bool)
  | deleteHttp (h : ℕ)
  | restart

section Runs

variable (hostsubfolder enable : Bool) (XXH3_64bits : Bytes → UInt64)

def perform : Event → Volume → Volume
  | .dnsRight r fresh, v => v.dnsRight hostsubfolder XXH3_64bits r fresh
  | .openName name, v => ((v.openName name).map Prod.snd).getD v
  | .call fd c, v => v.call fd c
  | .close fd, v => v.close fd
  | .corrupted r, v => v.corrupted hostsubfolder XXH3_64bits r
  | .HttpReturnCode h errorCode time, v => v.HttpReturnCode h errorCode time
  | .endOfHead h e, v => v.endOfHead enable h e
  | .write h data, v => v.write h data
  | .backendError h, v => v.unregister false h
  | .disconnectBackend h renamed, v => v.disconnectBackend enable false h renamed
  | .deleteHttp h, v => v.deleteHttp enable h
  | .restart, v => v.restart

def Step (e : Event) (v v' : Volume) : Prop := perform hostsubfolder enable XXH3_64bits e v = v'

/-- No download of the other protocol is under way for the path. -/
def Apart : Event → Volume → Prop
  | .dnsRight r _, v => v.pathToHttp (!r.https) (cachePath hostsubfolder XXH3_64bits r) = none
  | _, _ => True

end Runs

end FastCgiCdn.CacheVolume
