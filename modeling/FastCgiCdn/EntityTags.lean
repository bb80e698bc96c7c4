import FastCgiCdn.CacheHits

/-! The ETag that a file is given at the end of the head. Neither the body nor what is
written for the clients touches it, so that a client that names it is told that nothing has
changed for as long as the file has its path. -/

namespace FastCgiCdn.EntityTags

open CacheFields CacheFile CacheHits CacheVolume ClientOutput Freshness GuardedRuns MeasuredLoop
open PublishedFiles SparseFile VolumeMoves Volume
open ClientModel (Request cachePath littleEndian)

section Marks

variable {f f' : File} {fd n pos : ℕ} {data content : Bytes}

/-- What stands between the times and the size: the code and the ETag. -/
def marks (f : File) : Bytes := (f.bytes.take 24).drop 16

theorem marks_of_drop (same : f'.bytes.drop 16 = f.bytes.drop 16) : marks f' = marks f := by
  rw [marks, marks, List.drop_take, List.drop_take, same]

theorem pread_marks (behind : 16 ≤ pos) (inside : pos + n ≤ 24) (same : marks f' = marks f) :
    pread n pos f' = pread n pos f := by
  have within (g : File) : pread n pos g = ((marks g).drop (pos - 16)).take n := by
    have front : 16 + (pos - 16) = pos := by omega
    rw [marks, pread, List.drop_drop, front, List.drop_take, List.take_take,
      Nat.min_eq_left (by omega)]
  rw [within, within, same]

theorem setField_drop (before : pos + data.length ≤ n) :
    (setField fd pos data f).2.bytes.drop n = f.bytes.drop n := by
  have here : (f.lseek fd pos).offset fd = pos := Function.update_self _ _ _
  have short : ((f.lseek fd pos).stored data).length ≤ data.length := List.length_take_le' _ _
  change (overwrite 0 ((f.lseek fd pos).offset fd) _ f.bytes).drop n = _
  rw [here]
  exact drop_overwrite (by omega)

theorem marks_run (c : Call) : marks (c.run fd f) = marks f := by
  cases c with
  | lseek | read => rfl
  | set_access_time time | set_last_modification_time_check time =>
    have size : (littleEndian 8 time).length = 8 := littleEndian_length 8 time
    exact marks_of_drop (setField_drop (by omega))
  | seekToContentPos => rw [Call.run, marks, marks, bytes_seekToContentPos]

theorem marks_write {w : ℕ} {r : Run} (agree : Agree w pos content r) :
    marks (r.file.write w data).2 = marks r.file := by
  obtain ⟨c, size, begins⟩ := agree.placed.size
  have count := congrArg List.length size
  rw [List.length_take, List.length_drop, List.length_singleton] at count
  have front : (r.file.write w data).2.bytes.take 24 = r.file.bytes.take 24 := by
    have writer := agree.writer
    exact take_overwrite (by omega) (by omega)
  rw [marks, marks, front]

end Marks

section Head

variable {enable : Bool} {v : Volume} {w currentTime http_code h : ℕ} {randomIndex : Fin 6 → ℕ}
  {etagBackend header : Bytes} {f f' : File} {e : Ending} {c : Handle}

def etagOf (randomIndex : Fin 6 → ℕ) : Bytes :=
  List.ofFn fun i => HttpModel.Http.randomETagChar (randomIndex i)

theorem length_etagOf : (etagOf randomIndex).length = 6 := List.length_ofFn

theorem initialise_etag (empty : f.bytes = [])
    (done : initialise w currentTime http_code randomIndex etagBackend header f = some f') :
    pread 6 18 f' = etagOf randomIndex := by
  obtain ⟨coded, tagged, sized, at18, fourth, at24, fifth, -, rfl⟩ := initialise_steps empty done
  have placed := set_ETagBackend_placed fifth at24
  have sought := (seekToContentPos_placed w placed).2
  have tag : pread 6 18 tagged = etagOf randomIndex := by
    obtain ⟨succeeded, rfl⟩ := checked_eq_some fourth
    rw [pread, set_ETagFrontend, (setField_at_end succeeded at18).1, List.drop_left' at18]
    exact List.take_of_length_le (Nat.le_of_eq length_etagOf)
  have kept : sized.bytes.take 24 = tagged.bytes.take 24 := by
    obtain ⟨succeeded, rfl⟩ := checked_eq_some fifth
    exact set_ETagBackend_keeps succeeded (Nat.le_refl _) (Nat.le_of_eq at24.symm)
  have front : ((seekToContentPos w sized).2.write w header).2.bytes.take 24 =
      tagged.bytes.take 24 := by
    have long : 24 ≤ sized.bytes.length := by
      have length := congrArg List.length kept
      rw [List.length_take, List.length_take] at length
      omega
    have same : (seekToContentPos w sized).2.bytes = sized.bytes := bytes_seekToContentPos
    rw [← kept, ← same]
    apply take_overwrite
    · rw [sought, contentPos]
      omega
    · rwa [same]
  rw [pread_congr 18 6 (Nat.le_refl _) front, tag]

theorem unregister_tempCache (fromDestructor : Bool) :
    ((unregister fromDestructor h v).downloads h).tempCache = (v.downloads h).tempCache := by
  unfold unregister
  dsimp only
  rw [downloads_setHttp_self]
  split <;> rfl

theorem headFails_bare (bare : (v.downloads h).tempCache = none) (failure : Failure) (f : File) :
    ((headFails enable h failure f v).downloads h).tempCache = none := by
  have gone : ((disconnectBackend enable false h false (setHttp h (fun d => { d with
      headerWriten := d.headerWriten || failure = .header })
        (create (tmp (v.downloads h).cachePath) f none v))).downloads h).tempCache = none := by
    rw [disconnectBackend_bare, unregister_tempCache, closeFinal_downloads, downloads_setHttp_self]
    · exact bare
    · rw [downloads_setHttp_self]
      exact bare
  unfold headFails
  dsimp only
  split
  · exact gone
  · exact gone

theorem endOfHead_etag (code : (v.downloads h).http_code = 200)
    (writes : Writes (endOfHead enable h e v) h c) :
    (∃ b, (endOfHead enable h e v).born c.file = some b) ∧
      pread 6 18 ((endOfHead enable h e v).files c.file).file = etagOf e.randomIndex := by
  generalize ended : endOfHead enable h e v = v' at writes
  unfold endOfHead at ended
  rw [if_neg (not_not.mpr code)] at ended
  have bare : ((setHttp h ({ · with tempCache := none }) v).downloads h).tempCache = none :=
    congrArg Http.tempCache (downloads_setHttp_self _)
  dsimp only at ended
  generalize setHttp h ({ · with tempCache := none }) v = w at bare ended
  -- every way out but the last leaves the download without a file
  split at ended
  · subst ended
    cases bare.symm.trans writes.1
  · split at ended
    · subst ended
      cases (headFails_bare bare _ _).symm.trans writes.1
    · rename_i f fields
      split at ended
      · subst ended
        cases writes.1
      · split at ended
        · subst ended
          cases (headFails_bare bare _ _).symm.trans writes.1
        · rename_i g header
          have done := header_initialised fields header
          subst ended
          rw [Writes, downloads_setHttp_self] at writes
          obtain rfl := Option.some.inj writes.1
          refine ⟨⟨_, Function.update_self _ _ _⟩, ?_⟩
          have made : (create (tmp (w.downloads h).cachePath) g
              (some ⟨w.newFd, e.etagBackend, e.header⟩) w).files w.newFile = fileRun g :=
            Function.update_self _ _ _
          have tag : pread 6 18 g = etagOf e.randomIndex := initialise_etag rfl done
          exact (congrArg (fun r : CacheFile.Run => pread 6 18 r.file) made).trans tag

end Head

section Runs

variable {hostsubfolder enable : Bool} {XXH3_64bits : Bytes → UInt64} {v v' : Volume} {file : ℕ}
  {b : Birth}

/-- The file is the one that was born, and its marks are the same. -/
def Marked (file : ℕ) (b : Birth) (v v' : Volume) : Prop :=
  v'.born file = some b ∧ marks (v'.files file).file = marks (v.files file).file

theorem move_marked (move : Move hostsubfolder v v') (sound : Sound hostsubfolder v)
    (born : v.born file = some b) : Marked file b v v' := by
  have older : file ≠ v.newFile := Nat.ne_of_lt (sound.numbered file b born).1
  cases move with
  | lessen | unlink | close | opened | newDownload | erase | rename | restart => exact ⟨born, rfl⟩
  | call fd c =>
    unfold Volume.call
    cases reads : v.readers fd with
    | none => exact ⟨born, rfl⟩
    | some target =>
      refine ⟨born, ?_⟩
      by_cases same : file = target
      · subst same
        simp only [Function.update_self, step]
        exact marks_run c
      · simp only [Function.update_of_ne same]
  | create f free temporary =>
    exact ⟨(Function.update_of_ne older _ _).trans born,
      congrArg (fun r : CacheFile.Run => marks r.file) (Function.update_of_ne older _ _)⟩
  | initialise h own bare answered begun =>
    exact ⟨(Function.update_of_ne older _ _).trans born,
      congrArg (fun r : CacheFile.Run => marks r.file) (Function.update_of_ne older _ _)⟩
  | @write h c data writes =>
    refine ⟨born, ?_⟩
    by_cases same : file = c.file
    · subst same
      obtain ⟨-, -, b', born', own⟩ := sound.temp h c writes.1
      simp only [Function.update_self, step]
      rw [← own]
      exact marks_write (sound.agree c.file b' born')
    · simp only [Function.update_of_ne same]

theorem chain_marked {u : Volume} (chain : Chain hostsubfolder v v') (sound : Sound hostsubfolder v)
    (marked : Marked file b u v) : Marked file b u v' := by
  induction chain with
  | refl => exact marked
  | tail before move ih =>
    have next := move_marked move (Chain.sound before sound) ih.1
    exact ⟨next.1, next.2.trans ih.2⟩

theorem later_marked (sound : Sound hostsubfolder v) (born : v.born file = some b)
    (later : Reach (Step hostsubfolder enable XXH3_64bits) (Apart hostsubfolder XXH3_64bits)
      (· = v) v') : Sound hostsubfolder v' ∧ Marked file b v v' := by
  apply later.invariant (P := fun w => Sound hostsubfolder w ∧ Marked file b v w)
  · rintro first rfl
    exact ⟨sound, born, rfl⟩
  · rintro e s t ⟨sound, marked⟩ apart rfl
    have chain : Chain hostsubfolder s (perform hostsubfolder enable XXH3_64bits e s) :=
      perform_chain sound apart
    exact ⟨chain.sound sound, chain_marked chain sound marked⟩

variable {http200Time : UInt32} {w : Volume} {h : ℕ} {c : Handle} {e : Ending} {r : Request}
  {visit : Visit}

theorem named_iff {f : File} {ifNoneMatch etag : Bytes} (stale : ℕ → Byte)
    (long : ifNoneMatch.length = 8) (tag : pread 6 18 f = etag) (size : etag.length = 6) :
    Named ifNoneMatch stale f ↔ (ifNoneMatch.drop 1).take 6 = etag := by
  have middle : ((ifNoneMatch.drop 1).take 6).length = 6 := by
    rw [List.length_take, List.length_drop, long]
    rfl
  have filled : ifNoneMatch ≠ [] := fun none => by rw [none] at long; cases long
  rw [Named, tag, sameETag, List.take_left' middle, decide_eq_true_iff]
  exact ⟨fun named => named.2.2, fun same => ⟨filled, size, same⟩⟩

/-- From the end of a head on, whatever happens to the directory, a conditional request for
the page is told that nothing has changed if it names the ETag of that head, and is answered
like any other if it names another one, as long as the file of that head has the path. -/
theorem conditional_requests_are_matched
    (reached : Reach (Step hostsubfolder enable XXH3_64bits) (Apart hostsubfolder XXH3_64bits)
      (· = Volume.initial) v) (code : (v.downloads h).http_code = 200)
    (writes : Writes (perform hostsubfolder enable XXH3_64bits (.endOfHead h e) v) h c)
    (later : Reach (Step hostsubfolder enable XXH3_64bits) (Apart hostsubfolder XXH3_64bits)
      (· = perform hostsubfolder enable XXH3_64bits (.endOfHead h e) v) w)
    (still : w.names (cachePath hostsubfolder XXH3_64bits r) = some c.file)
    (free : w.pathToHttp r.https (cachePath hostsubfolder XXH3_64bits r) = none)
    (taken : ∀ k, (visit.socket k).sent = .whole)
    (leads : (ClientModel.readyToRead .new visit.read).2 = .download r)
    (conditional : r.ifNoneMatch.length = 8) :
    ∃ id b, (ClientModel.readyToRead .new visit.read).1.fastcgiid = some id ∧
      w.born c.file = some b ∧
      if (r.ifNoneMatch.drop 1).take 6 = etagOf e.randomIndex then
        Answered Page.notModified.text id
          (readyToRead hostsubfolder enable XXH3_64bits http200Time visit w).2
      else if (timeToCache http200Time (storedCode (w.files c.file).file)).toNat ≤
          visit.currentTime.toNat ∧
        Fresh http200Time visit.currentTime (w.files c.file).file then
        b.header ++ (w.files c.file).body ≠ [] → Answered (b.header ++ (w.files c.file).body) id
          (readyToRead hostsubfolder enable XXH3_64bits http200Time visit w).2
      else (readyToRead hostsubfolder enable XXH3_64bits http200Time visit w).2 = .asksDns r := by
  have begun : Sound hostsubfolder
      (perform hostsubfolder enable XXH3_64bits (.endOfHead h e) v) :=
    reach_sound (reached.next (e := CacheVolume.Event.endOfHead h e) trivial rfl)
  obtain ⟨⟨b, born⟩, first⟩ := endOfHead_etag code writes
  obtain ⟨sound, -, same⟩ := later_marked begun born later
  have tag : pread 6 18 (w.files c.file).file = etagOf e.randomIndex :=
    (pread_marks (by decide) (by decide) same).trans first
  have named := named_iff visit.stale conditional tag length_etagOf
  obtain ⟨id, b', known, born', matched, replies⟩ := visit_replies enable http200Time sound taken
    leads free still
  refine ⟨id, b', known, born', ?_⟩
  split
  case isTrue own => exact matched (named.mpr own)
  case isFalse other => exact replies (mt named.mp other)

def headed : Volume := pageEvents [.HttpReturnCode 0 200 8] (asked .initial)

def taggedVisit : Visit := { pageVisit with
  read := ⟨FastCgiRecords.requestOf [(ascii "HTTP_HOST", ascii "61.cdn.confiared.com"),
    (ascii "REQUEST_URI", ascii "/"),
    (ascii "HTTP_IF_NONE_MATCH", 34 :: etagOf ending.randomIndex ++ [34])], fun _ => 0⟩ }

def taggedPage : Request := { page with ifNoneMatch := 34 :: etagOf ending.randomIndex ++ [34] }

set_option maxRecDepth 4096 in
theorem tagged_page_is_not_modified : ∃ id, Answered Page.notModified.text id
    (readyToRead true true CacheKeys.XXH3_len_0to16_64b 5 taggedVisit ended).2 := by
  have reached : Reach (Step true true CacheKeys.XXH3_len_0to16_64b)
      (Apart true CacheKeys.XXH3_len_0to16_64b) (· = Volume.initial) headed :=
    pageEvents_reached [.HttpReturnCode 0 200 8] (by simp [Apart]) asked_reached
  have begun : Reach (Step true true CacheKeys.XXH3_len_0to16_64b)
      (Apart true CacheKeys.XXH3_len_0to16_64b) (· = perform true true
        CacheKeys.XXH3_len_0to16_64b (.endOfHead 0 ending) headed)
      (perform true true CacheKeys.XXH3_len_0to16_64b (.endOfHead 0 ending) headed) := .start rfl
  have later : Reach (Step true true CacheKeys.XXH3_len_0to16_64b)
      (Apart true CacheKeys.XXH3_len_0to16_64b) (· = perform true true
        CacheKeys.XXH3_len_0to16_64b (.endOfHead 0 ending) headed) ended :=
    pageEvents_reached [.write 0 [1, 2], .disconnectBackend 0 true] (by simp [Apart]) begun
  have code : (headed.downloads 0).http_code = 200 := by decide +kernel
  have writes : Writes (perform true true CacheKeys.XXH3_len_0to16_64b (.endOfHead 0 ending)
      headed) 0 pageHandle := ⟨by decide +kernel, rfl⟩
  have still : ended.names (cachePath true CacheKeys.XXH3_len_0to16_64b taggedPage) =
      some pageHandle.file := by decide +kernel
  have free : ended.pathToHttp taggedPage.https
      (cachePath true CacheKeys.XXH3_len_0to16_64b taggedPage) = none := by decide +kernel
  have leads : (ClientModel.readyToRead .new taggedVisit.read).2 = .download taggedPage := by
    decide +kernel
  obtain ⟨id, b, -, -, sent⟩ := conditional_requests_are_matched reached code writes later still
    free (fun _ => rfl) leads (by decide +kernel)
  have own : (taggedPage.ifNoneMatch.drop 1).take 6 = etagOf ending.randomIndex := by
    decide +kernel
  rw [if_pos own] at sent
  exact ⟨id, sent⟩

end Runs

end FastCgiCdn.EntityTags
