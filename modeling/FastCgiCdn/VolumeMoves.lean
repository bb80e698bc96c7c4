import FastCgiCdn.CacheVolume
import FastCgiCdn.HexCodec
import Mathlib.Logic.Relation

/-! The moves of which everything is made up that happens to the cache directory, and
what each of them keeps: a file has one name and at most one writer, the writer of a
file in progress finds it under the temporary name of its path, and no such file has
the name of a path. -/

namespace FastCgiCdn.VolumeMoves

open CacheFile CacheVolume ClientModel FileNames Volume

variable {hostsubfolder : Bool} {v v' w : Volume} {name path : Bytes} {file fd h : ℕ}

section Names

def Final (hostsubfolder : Bool) (name : Bytes) : Prop :=
  name.length = if hostsubfolder then 31 else 22

theorem cachePath_final (XXH3_64bits : Bytes → UInt64) (r : Request) :
    Final hostsubfolder (cachePath hostsubfolder XXH3_64bits r) := by
  have root : (ascii "cache/").length = 6 := by decide
  have slash : (ascii "/").length = 1 := by decide
  cases hostsubfolder <;>
    simp [Final, cachePath, HexCodec.length_binarytoHexa, littleEndian_length, root, slash]

theorem length_tmp (path : Bytes) : (tmp path).length = path.length + 4 := by
  have suffix : (ascii ".tmp").length = 4 := by decide
  rw [tmp, List.length_append, suffix]

theorem tmp_injective {path path' : Bytes} (same : tmp path = tmp path') : path = path' :=
  List.append_cancel_right same

theorem Final.ne_nil (final : Final hostsubfolder path) : path ≠ [] := by
  rintro rfl
  unfold Final at final
  split at final <;> cases final

theorem not_final_tmp (known : path = [] ∨ Final hostsubfolder path) :
    ¬Final hostsubfolder (tmp path) := by
  intro final
  unfold Final at known final
  rw [length_tmp] at final
  rcases known with rfl | known
  · split at final <;> simp at final
  · omega

end Names

def Writes (v : Volume) (h : ℕ) (c : Handle) : Prop :=
  (v.downloads h).tempCache = some c ∧ c.isOpen = true

/-- No download with a path has its file in progress under the name. -/
def Free (v : Volume) (name : Bytes) : Prop :=
  ∀ h c, Writes v h c → (v.downloads h).cachePath ≠ [] → tmp (v.downloads h).cachePath ≠ name

/-- A download that has let go of its path or of its file. -/
structure Lesser (d d' : Http) : Prop where
  https : d'.https = d.https
  cachePath : d'.cachePath = d.cachePath ∨ d'.cachePath = []
  tempCache : ∀ c', d'.tempCache = some c' → d'.headerWriten = true ∧ d'.http_code ≠ 0 ∧
    ∃ c, d.tempCache = some c ∧ c'.file = c.file ∧ c'.fd = c.fd ∧
      (c'.isOpen = true → c.isOpen = true)

inductive Move (hostsubfolder : Bool) : Volume → Volume → Prop
  | lessen {v : Volume} (h : ℕ) (f : Http → Http)
      (less : Lesser (v.downloads h) (f (v.downloads h))) : Move hostsubfolder v (setHttp h f v)
  | unlink {v : Volume} (name : Bytes) (free : Free v name) :
      Move hostsubfolder v (unlinkName name v)
  | call {v : Volume} (fd : ℕ) (c : Call) : Move hostsubfolder v (call fd c v)
  | close {v : Volume} (fd : ℕ) : Move hostsubfolder v (close fd v)
  | opened {v : Volume} {name : Bytes} {file : ℕ} (found : v.names name = some file) :
      Move hostsubfolder v { v with
        readers := Function.update v.readers v.newFd (some file)
        newFd := v.newFd + 1 }
  | newDownload {v : Volume} (https : Bool) {path : Bytes} (finalCache : Option ℕ)
      (final : Final hostsubfolder path) (unknown : ∀ s, v.pathToHttp s path = none) :
      Move hostsubfolder v (newDownload https path finalCache v)
  | erase {v : Volume} (https : Bool) (path : Bytes)
      (other : ∀ h, (v.downloads h).https = https → (v.downloads h).cachePath ≠ [] →
        (v.downloads h).cachePath ≠ path) : Move hostsubfolder v (erasePath https path v)
  | create {v : Volume} {name : Bytes} (f : File) (free : Free v name)
      (temporary : ¬Final hostsubfolder name) : Move hostsubfolder v (create name f none v)
  | initialise {v : Volume} (h : ℕ) {b : Birth} {f : File}
      (own : b.fd = v.newFd) (bare : (v.downloads h).tempCache = none)
      (answered : (v.downloads h).http_code ≠ 0)
      (begun : Agree b.fd (contentPos b.etagBackend) b.header (fileRun f)) :
      Move hostsubfolder v
        (setHttp h ({ · with tempCache := some ⟨b.fd, v.newFile, true⟩, headerWriten := true })
          (create (tmp (v.downloads h).cachePath) f (some b) v))
  | rename {v : Volume} {path : Bytes} {file : ℕ} (final : Final hostsubfolder path)
      (found : v.names (tmp path) = some file) (made : (v.born file).isSome)
      (settled : ∀ h c, Writes v h c → c.file ≠ file) :
      Move hostsubfolder v { v with names := rename (tmp path) path (unlink path v.names) }
  | write {v : Volume} {h : ℕ} {c : Handle} (data : Bytes) (writes : Writes v h c) :
      Move hostsubfolder v { v with
        files := Function.update v.files c.file (step c.fd (.write data) (v.files c.file)) }
  | restart {v : Volume} : Move hostsubfolder v (restart v)

def Chain (hostsubfolder : Bool) : Volume → Volume → Prop :=
  Relation.ReflTransGen (Move hostsubfolder)

/-- What the directory holds, whoever uses it. -/
structure Kept (hostsubfolder : Bool) (v : Volume) : Prop where
  single : SingleNames v.names
  named : ∀ name file, v.names name = some file → file < v.newFile
  agree : ∀ file b, v.born file = some b → Agree b.fd (contentPos b.etagBackend)
    (b.header ++ (v.files file).body) (v.files file)
  numbered : ∀ file b, v.born file = some b → file < v.newFile ∧ b.fd < v.newFd
  published : ∀ name file, v.names name = some file → Final hostsubfolder name →
    (v.born file).isSome = true

structure Sound (hostsubfolder : Bool) (v : Volume) : Prop extends Kept hostsubfolder v where
  reader : ∀ fd file, v.readers fd = some file → fd < v.newFd ∧ file < v.newFile
  apart : ∀ file b, v.born file = some b → v.readers b.fd = none
  path : ∀ h, (v.downloads h).cachePath = [] ∨ Final hostsubfolder (v.downloads h).cachePath
  registered : ∀ h, (v.downloads h).cachePath ≠ [] →
    v.pathToHttp (v.downloads h).https (v.downloads h).cachePath = some h
  alone : ∀ path, v.pathToHttp false path = none ∨ v.pathToHttp true path = none
  temp : ∀ h c, (v.downloads h).tempCache = some c → (v.downloads h).headerWriten = true ∧
    (v.downloads h).http_code ≠ 0 ∧ ∃ b, v.born c.file = some b ∧ b.fd = c.fd
  owner : ∀ h h' c c', (v.downloads h).tempCache = some c → (v.downloads h').tempCache = some c' →
    c.file = c'.file → h = h'
  own : ∀ h c, Writes v h c → (v.downloads h).cachePath ≠ [] →
    v.names (tmp (v.downloads h).cachePath) = some c.file
  hidden : ∀ h c name, Writes v h c → v.names name = some c.file → ¬Final hostsubfolder name

section Moves

/-- A path leads to one download at most. -/
theorem Sound.unique (sound : Sound hostsubfolder v) {h h' : ℕ}
    (named : (v.downloads h).cachePath ≠ [])
    (same : (v.downloads h).cachePath = (v.downloads h').cachePath) : h = h' := by
  have first := sound.registered h named
  have second := sound.registered h' (same ▸ named)
  rw [← same] at second
  cases scheme : (v.downloads h).https <;> cases scheme' : (v.downloads h').https <;>
    rw [scheme] at first <;> rw [scheme'] at second
  · exact Option.some.inj (first.symm.trans second)
  · rcases sound.alone (v.downloads h).cachePath with none | none
    · rw [none] at first
      cases first
    · rw [none] at second
      cases second
  · rcases sound.alone (v.downloads h).cachePath with none | none
    · rw [none] at second
      cases second
    · rw [none] at first
      cases first
  · exact Option.some.inj (first.symm.trans second)

@[simp] theorem downloads_setHttp_self (f : Http → Http) :
    (setHttp h f v).downloads h = f (v.downloads h) := Function.update_self _ _ _

theorem downloads_setHttp_ne {other : ℕ} (f : Http → Http) (apart : other ≠ h) :
    (setHttp h f v).downloads other = v.downloads other := Function.update_of_ne apart _ _

theorem lesser_setHttp {f : Http → Http} (less : Lesser (v.downloads h) (f (v.downloads h)))
    (sound : Sound hostsubfolder v) (other : ℕ) :
    Lesser (v.downloads other) ((setHttp h f v).downloads other) := by
  by_cases same : other = h
  · subst same
    rw [downloads_setHttp_self]
    exact less
  · rw [downloads_setHttp_ne f same]
    refine ⟨rfl, .inl rfl, fun c had => ?_⟩
    obtain ⟨header, code, -⟩ := sound.temp other c had
    exact ⟨header, code, c, had, rfl, rfl, id⟩

theorem Sound.lessen {f : Http → Http} (sound : Sound hostsubfolder v)
    (less : Lesser (v.downloads h) (f (v.downloads h))) : Sound hostsubfolder (setHttp h f v) := by
  have lesser := lesser_setHttp less sound
  have keeps (other : ℕ) (named : ((setHttp h f v).downloads other).cachePath ≠ []) :
      ((setHttp h f v).downloads other).cachePath = (v.downloads other).cachePath :=
    (lesser other).cachePath.resolve_right named
  constructor
  case toKept => exact { sound.toKept with }
  case reader => exact sound.reader
  case apart => exact sound.apart
  case alone => exact sound.alone
  case path =>
    intro other
    rcases (lesser other).cachePath with same | empty
    · rw [same]
      exact sound.path other
    · exact .inl empty
  case registered =>
    intro other named
    rw [keeps other named, (lesser other).https]
    exact sound.registered other (keeps other named ▸ named)
  case temp =>
    intro other c had
    obtain ⟨header, code, c', had', same, fd, -⟩ := (lesser other).tempCache c had
    obtain ⟨-, -, b, born, writer⟩ := sound.temp other c' had'
    exact ⟨header, code, b, same ▸ born, writer.trans fd.symm⟩
  case owner =>
    intro first second c c' had had' same
    obtain ⟨-, -, d, was, file, -⟩ := (lesser first).tempCache c had
    obtain ⟨-, -, d', was', file', -⟩ := (lesser second).tempCache c' had'
    exact sound.owner first second d d' was was' (file ▸ file' ▸ same)
  case own =>
    intro other c writes named
    obtain ⟨-, -, c', had, file, -, opened⟩ := (lesser other).tempCache c writes.1
    rw [keeps other named, file]
    exact sound.own other c' ⟨had, opened writes.2⟩ (keeps other named ▸ named)
  case hidden =>
    intro other c name writes named
    obtain ⟨-, -, c', had, file, -, opened⟩ := (lesser other).tempCache c writes.1
    rw [file] at named
    exact sound.hidden other c' name ⟨had, opened writes.2⟩ named

theorem Kept.unlink (kept : Kept hostsubfolder v) : Kept hostsubfolder (unlinkName name v) where
  single := kept.single.unlink
  named other file found := kept.named other file (unlink_eq_some.mp found).2
  agree := kept.agree
  numbered := kept.numbered
  published other file found := kept.published other file (unlink_eq_some.mp found).2

theorem Sound.unlink (sound : Sound hostsubfolder v) (free : Free v name) :
    Sound hostsubfolder (unlinkName name v) where
  toKept := sound.toKept.unlink
  reader := sound.reader
  apart := sound.apart
  path := sound.path
  registered := sound.registered
  alone := sound.alone
  temp := sound.temp
  owner := sound.owner
  own h c writes named :=
    unlink_eq_some.mpr ⟨free h c writes named, sound.own h c writes named⟩
  hidden h c other writes found := sound.hidden h c other writes (unlink_eq_some.mp found).2

theorem Sound.call (sound : Sound hostsubfolder v) (fd : ℕ) (c : Call) :
    Sound hostsubfolder (Volume.call fd c v) := by
  unfold Volume.call
  cases reads : v.readers fd with
  | none => exact sound
  | some target =>
    refine { sound with agree := fun file b born => ?_ }
    by_cases same : file = target
    · subst same
      have writer : fd ≠ b.fd := by
        rintro rfl
        rw [sound.apart file b born] at reads
        cases reads
      simp only [Function.update_self]
      exact (sound.agree file b born).other writer
    · simp only [Function.update_of_ne same]
      exact sound.agree file b born

theorem Sound.close (sound : Sound hostsubfolder v) (fd : ℕ) :
    Sound hostsubfolder (Volume.close fd v) := by
  have still (other : ℕ) : (Volume.close fd v).readers other = none ∨
      (Volume.close fd v).readers other = v.readers other := by
    by_cases same : other = fd
    · exact .inl (same ▸ Function.update_self _ _ _)
    · exact .inr (Function.update_of_ne same _ _)
  refine { sound with reader := fun other file reads => ?_, apart := fun file b born => ?_ }
  · rcases still other with none | same
    · rw [none] at reads
      cases reads
    · exact sound.reader other file (same ▸ reads)
  · rcases still b.fd with none | same
    · exact none
    · exact same.trans (sound.apart file b born)

theorem Sound.opened (sound : Sound hostsubfolder v) (found : v.names name = some file) :
    Sound hostsubfolder { v with
      readers := Function.update v.readers v.newFd (some file)
      newFd := v.newFd + 1 } := by
  have numbered (other : ℕ) (b : Birth) (born : v.born other = some b) :
      other < v.newFile ∧ b.fd < v.newFd + 1 :=
    ⟨(sound.numbered other b born).1, Nat.lt_succ_of_lt (sound.numbered other b born).2⟩
  refine { sound with
    numbered := numbered
    reader := fun fd other reads => ?_
    apart := fun other b born => ?_ }
  · by_cases same : fd = v.newFd
    · subst same
      simp only [Function.update_self, Option.some.injEq] at reads
      exact ⟨Nat.lt_succ_self _, reads ▸ sound.named name file found⟩
    · simp only [Function.update_of_ne same] at reads
      obtain ⟨low, made⟩ := sound.reader fd other reads
      exact ⟨Nat.lt_succ_of_lt low, made⟩
  · have before : b.fd ≠ v.newFd := Nat.ne_of_lt (sound.numbered other b born).2
    simp only [Function.update_of_ne before]
    exact sound.apart other b born

theorem Sound.erase {https : Bool} (sound : Sound hostsubfolder v)
    (other : ∀ h, (v.downloads h).https = https → (v.downloads h).cachePath ≠ [] →
      (v.downloads h).cachePath ≠ path) : Sound hostsubfolder (erasePath https path v) := by
  have still (s : Bool) (p : Bytes) : (erasePath https path v).pathToHttp s p = none ∨
      (erasePath https path v).pathToHttp s p = v.pathToHttp s p := by
    unfold erasePath
    by_cases scheme : s = https
    · subst scheme
      by_cases same : p = path
      · exact .inl (by simp [same])
      · exact .inr (by simp [same])
    · exact .inr (by simp [scheme])
  refine { sound with
    registered := fun h named => ?_
    alone := fun p => ?_ }
  · have kept := sound.registered h named
    simp only [erasePath]
    by_cases scheme : (v.downloads h).https = https
    · rw [scheme] at kept
      have apart : (v.downloads h).cachePath ≠ path := other h scheme named
      rw [scheme, Function.update_self, Function.update_of_ne apart]
      exact kept
    · exact (congrFun (Function.update_of_ne scheme _ _) _).trans kept
  · rcases sound.alone p with none | none
    · rcases still false p with gone | same
      · exact .inl gone
      · exact .inl (same.trans none)
    · rcases still true p with gone | same
      · exact .inr gone
      · exact .inr (same.trans none)

theorem Sound.newDownload (sound : Sound hostsubfolder v) (https : Bool) (finalCache : Option ℕ)
    (final : Final hostsubfolder path) (unknown : ∀ s, v.pathToHttp s path = none) :
    Sound hostsubfolder (Volume.newDownload https path finalCache v) := by
  have new : (Volume.newDownload https path finalCache v).downloads v.newHttp =
      ⟨https, path, finalCache, none, false, 0⟩ := Function.update_self _ _ _
  have old {h : ℕ} (apart : h ≠ v.newHttp) :
      (Volume.newDownload https path finalCache v).downloads h = v.downloads h :=
    Function.update_of_ne apart _ _
  have held {h : ℕ} {c : Handle}
      (had : ((Volume.newDownload https path finalCache v).downloads h).tempCache = some c) :
      h ≠ v.newHttp := by
    rintro rfl
    rw [new] at had
    cases had
  constructor
  case toKept => exact { sound.toKept with }
  case reader => exact sound.reader
  case apart => exact sound.apart
  case path =>
    intro h
    by_cases same : h = v.newHttp
    · subst same
      rw [new]
      exact .inr final
    · rw [old same]
      exact sound.path h
  case registered =>
    intro h named
    by_cases same : h = v.newHttp
    · subst same
      rw [new]
      simp [Volume.newDownload]
    · rw [old same] at named ⊢
      have kept := sound.registered h named
      have apart : (v.downloads h).cachePath ≠ path := by
        rintro rfl
        rw [unknown] at kept
        cases kept
      simp only [Volume.newDownload]
      by_cases scheme : (v.downloads h).https = https
      · rw [← scheme, Function.update_self, Function.update_of_ne apart]
        exact kept
      · rw [Function.update_of_ne scheme]
        exact kept
  case alone =>
    intro p
    simp only [Volume.newDownload]
    by_cases same : p = path
    · subst same
      cases https
      · exact .inr (by simp [unknown])
      · exact .inl (by simp [unknown])
    · have still (s : Bool) : Function.update v.pathToHttp https
          (Function.update (v.pathToHttp https) path (some v.newHttp)) s p = v.pathToHttp s p := by
        by_cases scheme : s = https
        · rw [scheme, Function.update_self, Function.update_of_ne same]
        · rw [Function.update_of_ne scheme]
      rw [still, still]
      exact sound.alone p
  case temp =>
    intro h c had
    have apart := held had
    rw [old apart] at had ⊢
    exact sound.temp h c had
  case owner =>
    intro h h' c c' had had'
    rw [old (held had)] at had
    rw [old (held had')] at had'
    exact sound.owner h h' c c' had had'
  case own =>
    intro h c writes named
    have same := old (held writes.1)
    rw [Writes, same] at writes
    rw [same] at named ⊢
    exact sound.own h c writes named
  case hidden =>
    intro h c name writes
    rw [Writes, old (held writes.1)] at writes
    exact sound.hidden h c name writes

theorem Kept.create {f : File} {b : Option Birth} (kept : Kept hostsubfolder v)
    (temporary : ¬Final hostsubfolder name)
    (begun : ∀ birth, b = some birth → birth.fd = v.newFd ∧
      Agree birth.fd (contentPos birth.etagBackend) birth.header (fileRun f)) :
    Kept hostsubfolder (Volume.create name f b v) := by
  have older {other : Bytes} {file : ℕ} (found : v.names other = some file) : file ≠ v.newFile :=
    Nat.ne_of_lt (kept.named other file found)
  constructor
  case single =>
    apply kept.single.unlink.link
    intro other found
    exact older (unlink_eq_some.mp found).2 rfl
  case named =>
    intro other file found
    rcases link_eq_some.mp found with ⟨-, rfl⟩ | ⟨-, found⟩
    · exact Nat.lt_succ_self _
    · exact Nat.lt_succ_of_lt (kept.named other file (unlink_eq_some.mp found).2)
  case agree =>
    intro file birth born
    by_cases same : file = v.newFile
    · subst same
      have empty : (fileRun f).body = [] := rfl
      simp only [Volume.create, Function.update_self] at born ⊢
      rw [empty, List.append_nil]
      exact (begun birth born).2
    · simp only [Volume.create, Function.update_of_ne same] at born ⊢
      exact kept.agree file birth born
  case numbered =>
    intro file birth born
    by_cases same : file = v.newFile
    · subst same
      simp only [Volume.create, Function.update_self] at born
      exact ⟨Nat.lt_succ_self _, (begun birth born).1 ▸ Nat.lt_succ_self _⟩
    · simp only [Volume.create, Function.update_of_ne same] at born
      obtain ⟨low, low'⟩ := kept.numbered file birth born
      exact ⟨Nat.lt_succ_of_lt low, Nat.lt_succ_of_lt low'⟩
  case published =>
    intro other file found final
    rcases link_eq_some.mp found with ⟨rfl, -⟩ | ⟨-, found⟩
    · exact absurd final temporary
    · obtain ⟨-, found⟩ := unlink_eq_some.mp found
      simp only [Volume.create, Function.update_of_ne (older found)]
      exact kept.published other file found final

theorem Sound.created {f : File} {b : Option Birth} (sound : Sound hostsubfolder v)
    (free : Free v name) (temporary : ¬Final hostsubfolder name)
    (begun : ∀ birth, b = some birth → birth.fd = v.newFd ∧
      Agree birth.fd (contentPos birth.etagBackend) birth.header (fileRun f)) :
    Sound hostsubfolder (Volume.create name f b v) := by
  have birth {h : ℕ} {c : Handle} (had : (v.downloads h).tempCache = some c) :
      c.file ≠ v.newFile := by
    obtain ⟨-, -, b', born, -⟩ := sound.temp h c had
    exact Nat.ne_of_lt (sound.numbered c.file b' born).1
  constructor
  case toKept => exact sound.toKept.create temporary begun
  case reader =>
    intro fd file reads
    obtain ⟨low, low'⟩ := sound.reader fd file reads
    exact ⟨Nat.lt_succ_of_lt low, Nat.lt_succ_of_lt low'⟩
  case apart =>
    intro file birth born
    by_cases same : file = v.newFile
    · subst same
      simp only [Volume.create, Function.update_self] at born ⊢
      rw [(begun birth born).1]
      cases reads : v.readers v.newFd with
      | none => rfl
      | some file => exact absurd (sound.reader _ _ reads).1 (Nat.lt_irrefl _)
    · simp only [Volume.create, Function.update_of_ne same] at born
      exact sound.apart file birth born
  case path => exact sound.path
  case registered => exact sound.registered
  case alone => exact sound.alone
  case temp =>
    intro h c had
    obtain ⟨header, code, b', born, writer⟩ := sound.temp h c had
    exact ⟨header, code, b', (Function.update_of_ne (birth had) _ _).trans born, writer⟩
  case owner => exact sound.owner
  case own =>
    intro h c writes named
    exact link_eq_some.mpr (.inr ⟨free h c writes named, unlink_eq_some.mpr
      ⟨free h c writes named, sound.own h c writes named⟩⟩)
  case hidden =>
    intro h c other writes found
    rcases link_eq_some.mp found with ⟨-, same⟩ | ⟨-, found⟩
    · exact absurd same.symm (birth writes.1)
    · exact sound.hidden h c other writes (unlink_eq_some.mp found).2

theorem Sound.free_tmp (sound : Sound hostsubfolder v) (h : ℕ)
    (bare : ∀ c, ¬Writes v h c) : Free v (tmp (v.downloads h).cachePath) := by
  intro h' c writes named same
  obtain rfl := sound.unique named (tmp_injective same)
  exact bare c writes

theorem Sound.free_path (sound : Sound hostsubfolder v)
    (known : path = [] ∨ Final hostsubfolder path) : Free v path := by
  rintro h c - - rfl
  rcases known with empty | final
  · have length := length_tmp (v.downloads h).cachePath
    rw [empty] at length
    cases length
  · exact not_final_tmp (sound.path h) final

theorem Sound.closed_own {c : Handle} (sound : Sound hostsubfolder v) (writes : Writes v h c)
    (named : (v.downloads h).cachePath ≠ []) :
    v.names (tmp (v.downloads h).cachePath) = some c.file ∧ (v.born c.file).isSome = true ∧
      ∀ other c', Writes (setHttp h ({ · with tempCache := some { c with isOpen := false } }) v)
        other c' → c'.file ≠ c.file := by
  obtain ⟨-, -, b, born, -⟩ := sound.temp h c writes.1
  refine ⟨sound.own h c writes named, by rw [born]; rfl, fun other c' writes' same => ?_⟩
  by_cases self : other = h
  · subst self
    rw [Writes, downloads_setHttp_self] at writes'
    obtain rfl := Option.some.inj writes'.1
    cases writes'.2
  · rw [Writes, downloads_setHttp_ne _ self] at writes'
    exact self (sound.owner other h c' c writes'.1 writes.1 same)

theorem Sound.initialise {b : Birth} {f : File} (sound : Sound hostsubfolder v)
    (own : b.fd = v.newFd) (bare : (v.downloads h).tempCache = none)
    (answered : (v.downloads h).http_code ≠ 0)
    (begun : Agree b.fd (contentPos b.etagBackend) b.header (fileRun f)) :
    Sound hostsubfolder
      (setHttp h ({ · with tempCache := some ⟨b.fd, v.newFile, true⟩, headerWriten := true })
        (Volume.create (tmp (v.downloads h).cachePath) f (some b) v)) := by
  have free : Free v (tmp (v.downloads h).cachePath) := sound.free_tmp h fun c writes => by
    rw [Writes, bare] at writes
    cases writes.1
  have temporary : ¬Final hostsubfolder (tmp (v.downloads h).cachePath) :=
    not_final_tmp (sound.path h)
  have made := sound.created (f := f) (b := some b) free temporary fun birth same =>
    Option.some.inj same ▸ ⟨own, begun⟩
  have older {h' : ℕ} {c : Handle} (had : (v.downloads h').tempCache = some c) :
      c.file ≠ v.newFile := by
    obtain ⟨-, -, b', born, -⟩ := sound.temp h' c had
    exact Nat.ne_of_lt (sound.numbered c.file b' born).1
  have new (named : Bytes) : (Volume.create (tmp (v.downloads h).cachePath) f (some b) v).names
      named = some v.newFile ↔ named = tmp (v.downloads h).cachePath := by
    refine link_eq_some.trans ⟨fun either => either.elim And.left fun found => ?_,
      fun same => .inl ⟨same, rfl⟩⟩
    have low := sound.named named v.newFile (unlink_eq_some.mp found.2).2
    exact absurd low (Nat.lt_irrefl _)
  generalize create : Volume.create (tmp (v.downloads h).cachePath) f (some b) v = w at made new ⊢
  have same : w.downloads = v.downloads := by
    rw [← create]
    rfl
  have born : w.born v.newFile = some b := by
    rw [← create]
    exact Function.update_self _ _ _
  have downloads {h' : ℕ} (other : h' ≠ h) (g : Http → Http) :
      (setHttp h g w).downloads h' = v.downloads h' := by
    rw [downloads_setHttp_ne g other, same]
  constructor
  case toKept => exact { made.toKept with }
  case reader => exact made.reader
  case apart => exact made.apart
  case alone => exact made.alone
  case path =>
    intro h'
    by_cases self : h' = h
    · subst self
      rw [downloads_setHttp_self]
      exact made.path h'
    · rw [downloads self]
      exact sound.path h'
  case registered =>
    intro h' named
    by_cases self : h' = h
    · subst self
      rw [downloads_setHttp_self] at named ⊢
      exact made.registered h' named
    · rw [downloads self] at named ⊢
      have kept := made.registered h'
      rw [same] at kept
      exact kept named
  case temp =>
    intro h' c had
    by_cases self : h' = h
    · subst self
      rw [downloads_setHttp_self] at had ⊢
      obtain rfl := Option.some.inj had
      refine ⟨rfl, ?_, b, born, rfl⟩
      rw [same]
      exact answered
    · rw [downloads self] at had ⊢
      have kept := made.temp h' c
      rw [same] at kept
      exact kept had
  case owner =>
    intro first second c c' had had' file
    by_cases self : first = h
    · subst self
      by_cases self' : second = first
      · exact self'.symm
      · rw [downloads_setHttp_self] at had
        rw [downloads self'] at had'
        obtain rfl := Option.some.inj had
        exact absurd file.symm (older had')
    · rw [downloads self] at had
      by_cases self' : second = h
      · subst self'
        rw [downloads_setHttp_self] at had'
        obtain rfl := Option.some.inj had'
        exact absurd file (older had)
      · rw [downloads self'] at had'
        exact sound.owner first second c c' had had' file
  case own =>
    intro h' c writes named
    by_cases self : h' = h
    · subst self
      rw [Writes, downloads_setHttp_self] at writes
      rw [downloads_setHttp_self, same]
      obtain rfl := Option.some.inj writes.1
      exact (new _).mpr rfl
    · rw [Writes, downloads self] at writes
      rw [downloads self] at named ⊢
      have kept := made.own h' c
      rw [Writes, same] at kept
      exact kept writes named
  case hidden =>
    intro h' c name writes found
    by_cases self : h' = h
    · subst self
      rw [Writes, downloads_setHttp_self] at writes
      obtain rfl := Option.some.inj writes.1
      rw [(new name).mp found]
      exact temporary
    · rw [Writes, downloads self] at writes
      have kept := made.hidden h' c name
      rw [Writes, same] at kept
      exact kept writes found

theorem Sound.rename (sound : Sound hostsubfolder v) (final : Final hostsubfolder path)
    (found : v.names (tmp path) = some file) (made : (v.born file).isSome)
    (settled : ∀ h c, Writes v h c → c.file ≠ file) :
    Sound hostsubfolder
      { v with names := FileNames.rename (tmp path) path (FileNames.unlink path v.names) } := by
  have source : (FileNames.unlink path v.names) (tmp path) = some file := by
    refine unlink_eq_some.mpr ⟨fun same => not_final_tmp (.inr final) ?_, found⟩
    rw [same]
    exact final
  have names {name : Bytes} {other : ℕ} :
      FileNames.rename (tmp path) path (FileNames.unlink path v.names) name = some other ↔
        name = path ∧ file = other ∨ name ≠ path ∧ name ≠ tmp path ∧
          FileNames.unlink path v.names name = some other := rename_eq_some source
  constructor
  case toKept =>
    refine { sound.toKept with
      single := sound.single.unlink.rename
      named := fun name other named => ?_
      published := fun name other named isFinal => ?_ }
    · rcases names.mp named with ⟨-, rfl⟩ | ⟨-, -, named⟩
      · exact sound.named (tmp path) file found
      · exact sound.named name other (unlink_eq_some.mp named).2
    · rcases names.mp named with ⟨-, rfl⟩ | ⟨-, -, named⟩
      · exact made
      · exact sound.published name other (unlink_eq_some.mp named).2 isFinal
  case reader => exact sound.reader
  case apart => exact sound.apart
  case path => exact sound.path
  case registered => exact sound.registered
  case alone => exact sound.alone
  case temp => exact sound.temp
  case owner => exact sound.owner
  case own =>
    intro h c writes named
    have kept := sound.own h c writes named
    have apart : tmp (v.downloads h).cachePath ≠ path := by
      intro same
      apply not_final_tmp (sound.path h)
      rw [same]
      exact final
    refine names.mpr (.inr ⟨apart, fun same => ?_, unlink_eq_some.mpr ⟨apart, kept⟩⟩)
    change tmp (v.downloads h).cachePath = tmp path at same
    rw [same, found] at kept
    exact settled h c writes (Option.some.inj kept).symm
  case hidden =>
    intro h c name writes named
    rcases names.mp named with ⟨-, same⟩ | ⟨-, -, named⟩
    · exact absurd same.symm (settled h c writes)
    · exact sound.hidden h c name writes (unlink_eq_some.mp named).2

theorem Sound.write {c : Handle} (sound : Sound hostsubfolder v) (data : Bytes)
    (writes : Writes v h c) : Sound hostsubfolder { v with
      files := Function.update v.files c.file (step c.fd (.write data) (v.files c.file)) } := by
  refine { sound with agree := fun file b born => ?_ }
  by_cases same : file = c.file
  · subst same
    obtain ⟨-, -, b', born', writer⟩ := sound.temp h c writes.1
    obtain rfl : b = b' := Option.some.inj (born.symm.trans born')
    simp only [Function.update_self]
    rw [← writer, body_write, ← List.append_assoc]
    exact (sound.agree c.file b born).write
  · simp only [Function.update_of_ne same]
    exact sound.agree file b born

theorem Kept.restart (kept : Kept hostsubfolder v) : Sound hostsubfolder (Volume.restart v) where
  toKept := { kept with }
  reader fd file reads := by cases reads
  apart file b born := rfl
  path h := .inl rfl
  registered h named := absurd rfl named
  alone path := .inl rfl
  temp h c had := by cases had
  owner h h' c c' had := by cases had
  own h c writes := by cases writes.1
  hidden h c name writes := by cases writes.1

theorem Sound.move (sound : Sound hostsubfolder v) (move : Move hostsubfolder v v') :
    Sound hostsubfolder v' := by
  cases move with
  | lessen h f less => exact sound.lessen less
  | unlink name free => exact sound.unlink free
  | call fd c => exact sound.call fd c
  | close fd => exact sound.close fd
  | opened found => exact sound.opened found
  | newDownload https finalCache final unknown =>
    exact sound.newDownload https finalCache final unknown
  | erase https path other => exact sound.erase other
  | create f free temporary => exact sound.created free temporary fun birth none => by cases none
  | initialise h own bare answered begun => exact sound.initialise own bare answered begun
  | rename final found made settled => exact sound.rename final found made settled
  | write data writes => exact sound.write data writes
  | restart => exact sound.toKept.restart

theorem Move.chain (move : Move hostsubfolder v v') : Chain hostsubfolder v v' :=
  Relation.ReflTransGen.single move

theorem Chain.refl : Chain hostsubfolder v v := Relation.ReflTransGen.refl

theorem Chain.trans (first : Chain hostsubfolder v w) (second : Chain hostsubfolder w v') :
    Chain hostsubfolder v v' := Relation.ReflTransGen.trans first second

theorem Chain.sound (chain : Chain hostsubfolder v v') (sound : Sound hostsubfolder v) :
    Sound hostsubfolder v' := by
  induction chain with
  | refl => exact sound
  | tail _ move ih => exact ih.move move

end Moves

end FastCgiCdn.VolumeMoves
