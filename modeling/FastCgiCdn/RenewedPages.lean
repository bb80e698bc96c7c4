import FastCgiCdn.EntityTags

/-! A page that the backend calls unmodified. The 304 writes the time of the check into the
old file and leaves the rest of it and its name alone. From then on nothing but another 304
of the page changes the check, so that the file is served for the caching time. -/

namespace FastCgiCdn.RenewedPages

open CacheFields CacheFile CacheHits CacheVolume EntityTags Freshness GuardedRuns
open PublishedFiles SparseFile VolumeMoves Volume
open ClientModel (Request cachePath littleEndian)

section Checks

theorem ofLittleEndian_littleEndian (n value : ℕ) :
    ofLittleEndian (littleEndian n value) = value % 256 ^ n := by
  induction n generalizing value with
  | zero => simp [littleEndian, ofLittleEndian, Nat.mod_one]
  | succ n ih =>
    have split : value % 256 ^ (n + 1) = value % 256 + 256 * (value / 256 % 256 ^ n) := by
      rw [Nat.pow_succ', Nat.mod_mul]
    rw [littleEndian, ofLittleEndian, ih, UInt8.toNat_ofNat', split]

variable {v : Volume} {fd file h : ℕ} {f : File} {time : UInt64}

theorem set_check_fields (ifNoneMatch : Bytes) (stale : ℕ → Byte)
    (done : (set_last_modification_time_check fd time.toNat f).1 = true) :
    storedCheck (set_last_modification_time_check fd time.toNat f).2 = time ∧
      storedCode (set_last_modification_time_check fd time.toNat f).2 = storedCode f ∧
      (Named ifNoneMatch stale (set_last_modification_time_check fd time.toNat f).2 ↔
        Named ifNoneMatch stale f) := by
  have bytes := (setField_bytes done).1
  have size := littleEndian_length 8 time.toNat
  have filled : littleEndian 8 time.toNat ≠ [] := fun none => by rw [none] at size; cases size
  have behind (n pos : ℕ) (far : 16 ≤ pos) :
      pread n pos (set_last_modification_time_check fd time.toNat f).2 = pread n pos f := by
    rw [pread, pread, set_last_modification_time_check, bytes,
      SparseFile.drop_overwrite (by omega)]
  refine ⟨?_, ?_, ?_⟩
  · have value : ofLittleEndian (littleEndian 8 time.toNat) = time.toNat := by
      have small : time.toNat < 256 ^ 8 := time.toNat_lt
      rw [ofLittleEndian_littleEndian, Nat.mod_eq_of_lt small]
    rw [storedCheck, pread, set_last_modification_time_check, bytes,
      SparseFile.drop_overwrite_self filled, List.take_left' size, value, UInt64.ofNat_toNat]
  · rw [storedCode, storedCode, behind 2 16 (Nat.le_refl _)]
  · unfold Named
    rw [behind 6 18 (by decide)]

theorem check_run (c : Call) (other : ∀ now, c ≠ .set_last_modification_time_check now) :
    pread 8 8 (c.run fd f) = pread 8 8 f := by
  cases c with
  | lseek | read => rfl
  | set_access_time now =>
    have size : (littleEndian 8 now).length = 8 := littleEndian_length 8 now
    have behind : (set_access_time fd now f).2.bytes.drop 8 = f.bytes.drop 8 :=
      setField_drop (by omega)
    rw [Call.run, pread, pread, behind]
  | set_last_modification_time_check now => exact absurd rfl (other now)
  | seekToContentPos => rw [Call.run, pread, pread, bytes_seekToContentPos]

/-- Whether a file is served depends on its check and its marks alone. -/
theorem fields_kept {f' : File} (check : pread 8 8 f' = pread 8 8 f) (marked : marks f' = marks f)
    (ifNoneMatch : Bytes) (stale : ℕ → Byte) :
    storedCheck f' = storedCheck f ∧ storedCode f' = storedCode f ∧
      (Named ifNoneMatch stale f' ↔ Named ifNoneMatch stale f) := by
  refine ⟨?_, ?_, ?_⟩
  · rw [storedCheck, storedCheck, check]
  · rw [storedCode, storedCode, pread_marks (by decide) (by decide) marked]
  · rw [Named, Named, pread_marks (by decide) (by decide) marked]

/-- The event does not set the check of the file. -/
def Rests (file : ℕ) : CacheVolume.Event → Volume → Prop
  | .call fd (.set_last_modification_time_check _), v => v.readers fd ≠ some file
  | .HttpReturnCode h errorCode _, v => errorCode = 304 →
    ∀ fd, (v.downloads h).finalCache = some fd → v.readers fd ≠ some file
  | _, _ => True

end Checks

section Steps

variable {hostsubfolder enable : Bool} {XXH3_64bits : Bytes → UInt64} {v v' : Volume}
  {file fd h : ℕ}

def SameCheck (file : ℕ) (v v' : Volume) : Prop :=
  pread 8 8 (v'.files file).file = pread 8 8 (v.files file).file

theorem sameCheck_of_files (files : v'.files file = v.files file) : SameCheck file v v' := by
  rw [SameCheck, files]

theorem call_sameCheck {c : Call} (rests : v.readers fd = some file →
    ∀ now, c ≠ .set_last_modification_time_check now) : SameCheck file v (call fd c v) := by
  unfold Volume.call
  cases reads : v.readers fd with
  | none => exact rfl
  | some target =>
    by_cases same : file = target
    · subst same
      simp only [SameCheck, Function.update_self, step]
      exact check_run c (rests reads)
    · exact sameCheck_of_files (Function.update_of_ne same _ _)

theorem openName_sameCheck {name : Bytes} (opened : v.openName name = some (fd, v')) :
    SameCheck file v v' := by
  obtain ⟨target, -, same⟩ := Option.map_eq_some_iff.mp opened
  obtain ⟨-, rfl⟩ := Prod.mk.inj same
  exact call_sameCheck fun _ now => Call.noConfusion

theorem dnsRight_sameCheck (r : Request) (fresh : Bool) :
    SameCheck file v (v.dnsRight hostsubfolder XXH3_64bits r fresh) := by
  unfold Volume.dnsRight
  dsimp only
  split
  · exact rfl
  · split
    · exact rfl
    · rename_i opened
      have opens : SameCheck file v _ := openName_sameCheck opened
      split
      · exact opens
      · exact opens

theorem HttpReturnCode_sameCheck {errorCode time : ℕ}
    (rests : Rests file (.HttpReturnCode h errorCode time) v) :
    SameCheck file v (v.HttpReturnCode h errorCode time) := by
  unfold Volume.HttpReturnCode
  dsimp only
  split
  · exact rfl
  · split
    · rename_i unmodified
      split
      · exact rfl
      · rename_i fd held
        have called : SameCheck file v (call fd (.set_last_modification_time_check time)
            (setHttp h ({ · with http_code := errorCode }) v)) :=
          call_sameCheck fun reads => absurd reads (rests unmodified fd held)
        split
        · exact called
        · exact called
    · exact rfl

theorem save_files (path : Bytes) (renamed : Bool) : (save path renamed v).files = v.files := by
  unfold save
  split
  · rfl
  · split
    · split <;> rfl
    · rfl

theorem disconnectBackend_files (fromDestructor renamed : Bool) :
    (disconnectBackend enable fromDestructor h renamed v).files = v.files := by
  unfold disconnectBackend
  dsimp only
  split
  · rw [unregister_files, closeFinal_files]
  · split
    · exact closeFinal_files
    · rw [unregister_files]
      cases enable with
      | true =>
        rw [if_pos rfl, save_files]
        exact closeFinal_files
      | false =>
        change (save _ renamed _).files = v.files
        rw [save_files]
        exact closeFinal_files

theorem headFails_files (older : file ≠ v.newFile) (failure : Failure) (f : File) :
    (headFails enable h failure f v).files file = v.files file := by
  have same : (disconnectBackend enable false h false (setHttp h (fun d => { d with
      headerWriten := d.headerWriten || failure = .header })
        (create (tmp (v.downloads h).cachePath) f none v))).files file = v.files file := by
    rw [disconnectBackend_files]
    exact Function.update_of_ne older _ _
  unfold headFails
  dsimp only
  split
  · exact same
  · exact same

theorem endOfHead_files (older : file ≠ v.newFile) (e : Ending) :
    (endOfHead enable h e v).files file = v.files file := by
  unfold endOfHead
  split
  · rfl
  · have grown : file ≠ (setHttp h ({ · with tempCache := none }) v).newFile := older
    have same : (setHttp h ({ · with tempCache := none }) v).files file = v.files file := rfl
    dsimp only
    generalize setHttp h ({ · with tempCache := none }) v = w at grown same ⊢
    rw [← same]
    split
    · rfl
    · split
      · exact headFails_files grown _ _
      · split
        · exact Function.update_of_ne grown _ _
        · split
          · exact headFails_files grown _ _
          · exact Function.update_of_ne grown _ _

theorem perform_sameCheck {e : CacheVolume.Event} (settled : Settled v file)
    (rests : Rests file e v) : SameCheck file v (perform hostsubfolder enable XXH3_64bits e v) := by
  cases e with
  | dnsRight r fresh => exact dnsRight_sameCheck r fresh
  | openName name =>
    cases opened : v.openName name with
    | none =>
      rw [perform, opened]
      exact rfl
    | some result =>
      rw [perform, opened]
      exact openName_sameCheck opened
  | call fd c =>
    refine call_sameCheck fun reads now same => ?_
    subst same
    exact rests reads
  | close fd => exact rfl
  | corrupted r =>
    simp only [perform, Volume.corrupted]
    split <;> exact rfl
  | HttpReturnCode h errorCode time => exact HttpReturnCode_sameCheck rests
  | endOfHead h e => exact sameCheck_of_files (endOfHead_files (Nat.ne_of_lt settled.made) e)
  | write h data =>
    simp only [perform, Volume.write]
    split
    · exact rfl
    · rename_i c had
      split
      · rename_i opened
        have other := settled.unwritten h c ⟨had, opened⟩
        exact sameCheck_of_files (Function.update_of_ne (Ne.symm other) _ _)
      · exact rfl
  | backendError h => exact sameCheck_of_files (congrFun (unregister_files false) file)
  | disconnectBackend h renamed =>
    exact sameCheck_of_files (congrFun (disconnectBackend_files false renamed) file)
  | deleteHttp h =>
    exact sameCheck_of_files (congrFun (disconnectBackend_files true false) file)
  | restart => exact rfl

theorem later_sameCheck (sound : Sound hostsubfolder v) (settled : Settled v file)
    (later : Reach (Step hostsubfolder enable XXH3_64bits)
      (fun e s => Apart hostsubfolder XXH3_64bits e s ∧ Rests file e s) (· = v) v') :
    SameCheck file v v' := by
  have both : (Sound hostsubfolder v' ∧ Stays file v v') ∧ SameCheck file v v' := by
    apply later.invariant (P := fun w =>
      (Sound hostsubfolder w ∧ Stays file v w) ∧ SameCheck file v w)
    · rintro first rfl
      exact ⟨⟨sound, settled, rfl, rfl⟩, rfl⟩
    · rintro e s t ⟨⟨sound, stays⟩, same⟩ ⟨apart, rests⟩ rfl
      have chain : Chain hostsubfolder s (perform hostsubfolder enable XXH3_64bits e s) :=
        perform_chain sound apart
      have next := chain_stays chain sound stays.settled
      exact ⟨⟨chain.sound sound, next.settled, next.writes.trans stays.writes,
        next.born.trans stays.born⟩, (perform_sameCheck stays.settled rests).trans same⟩
  exact both.2

end Steps

section Renewal

variable {hostsubfolder enable : Bool} {XXH3_64bits : Bytes → UInt64} {http200Time : UInt32}
  {v w : Volume} {fd file h : ℕ} {time : UInt64} {r : Request} {visit : Visit}

theorem HttpReturnCode_renews (old : (v.downloads h).http_code = 0)
    (held : (v.downloads h).finalCache = some fd) (reads : v.readers fd = some file)
    (touched : (set_last_modification_time_check fd time.toNat (v.files file).file).1 = true) :
    Volume.HttpReturnCode h 304 time.toNat v =
      Volume.call fd (.set_last_modification_time_check time.toNat)
        (setHttp h ({ · with http_code := 304 }) v) := by
  have same : (setHttp h ({ · with http_code := 304 }) v).downloads h =
      { v.downloads h with http_code := 304 } := downloads_setHttp_self _
  have set : ((setHttp h ({ · with http_code := 304 }) v).readers fd).any (fun file =>
      (set_last_modification_time_check fd time.toNat
        ((setHttp h ({ · with http_code := 304 }) v).files file).file).1) = true := by
    change (v.readers fd).any _ = true
    rw [reads]
    exact touched
  unfold Volume.HttpReturnCode
  dsimp only
  rw [if_neg (not_not.mpr old), if_pos rfl, held]
  dsimp only
  rw [set, if_pos rfl]

theorem unregister_free (sound : Sound hostsubfolder v) (named : (v.downloads h).cachePath ≠ [])
    (https : Bool) :
    (unregister false h v).pathToHttp https (v.downloads h).cachePath = none := by
  have longer : (v.downloads h).cachePath ≠ tmp (v.downloads h).cachePath := by
    intro same
    have length := congrArg List.length same
    rw [length_tmp] at length
    omega
  have own := sound.registered h named
  have known : (unregister false h v).pathToHttp =
      (erasePath (v.downloads h).https (tmp (v.downloads h).cachePath)
        (erasePath (v.downloads h).https (v.downloads h).cachePath v)).pathToHttp := by
    unfold unregister
    dsimp only
    rw [if_neg named, Bool.not_false, Bool.and_true]
    rfl
  rw [known]
  by_cases same : https = (v.downloads h).https
  · rw [same]
    simp only [erasePath, Function.update_self, Function.update_of_ne longer]
  · simp only [erasePath, Function.update_of_ne same]
    have alone := sound.alone (v.downloads h).cachePath
    cases scheme : (v.downloads h).https with
    | false =>
      rw [scheme] at own same
      obtain rfl : https = true := eq_true_of_ne_false same
      rw [own] at alone
      exact alone.resolve_left (Option.some_ne_none _)
    | true =>
      rw [scheme] at own same
      obtain rfl : https = false := eq_false_of_ne_true same
      rw [own] at alone
      exact alone.resolve_right (Option.some_ne_none _)

theorem renewed_volume (sound : Sound hostsubfolder v) (named : (v.downloads h).cachePath ≠ [])
    (old : (v.downloads h).http_code = 0) (held : (v.downloads h).finalCache = some fd)
    (reads : v.readers fd = some file)
    (touched : (set_last_modification_time_check fd time.toNat (v.files file).file).1 = true)
    (enable renamed : Bool) :
    (Volume.disconnectBackend enable false h renamed
        (Volume.HttpReturnCode h 304 time.toNat v)).names = v.names ∧
      ((Volume.disconnectBackend enable false h renamed
        (Volume.HttpReturnCode h 304 time.toNat v)).files file).file =
          (set_last_modification_time_check fd time.toNat (v.files file).file).2 ∧
      ∀ https, (Volume.disconnectBackend enable false h renamed
        (Volume.HttpReturnCode h 304 time.toNat v)).pathToHttp https (v.downloads h).cachePath =
          none := by
  have sound₁ := (HttpReturnCode_chain (h := h) sound 304 time.toNat).sound sound
  have bare : (v.downloads h).tempCache = none := by
    rw [Option.eq_none_iff_forall_ne_some]
    intro c had
    exact (sound.temp h c had).2.1 old
  have renews := HttpReturnCode_renews old held reads touched
  have download : (Volume.HttpReturnCode h 304 time.toNat v).downloads h =
      { v.downloads h with http_code := 304 } := by
    rw [renews]
    refine Eq.trans ?_ (downloads_setHttp_self ({ · with http_code := 304 }))
    unfold Volume.call
    split <;> rfl
  have bare₁ : ((Volume.HttpReturnCode h 304 time.toNat v).downloads h).tempCache = none := by
    rw [download]
    exact bare
  have sound₂ := (closeFinal_chain (h := h) sound₁).sound sound₁
  have path : ((closeFinal h (Volume.HttpReturnCode h 304 time.toNat v)).downloads h).cachePath =
      (v.downloads h).cachePath := by
    rw [closeFinal_downloads, download]
  rw [disconnectBackend_bare bare₁]
  refine ⟨?_, ?_, fun https => ?_⟩
  · rw [unregister_names, closeFinal_names, renews]
    unfold Volume.call
    split <;> rfl
  · rw [unregister_files, closeFinal_files, renews]
    have reads₁ : (setHttp h ({ · with http_code := 304 }) v).readers fd = some file := reads
    exact call_file reads₁ _
  · have free := unregister_free sound₂ (by rwa [path]) https
    rwa [path] at free

def renewed (hostsubfolder enable : Bool) (XXH3_64bits : Bytes → UInt64) (h : ℕ) (time : UInt64)
    (renamed : Bool) (v : Volume) : Volume :=
  perform hostsubfolder enable XXH3_64bits (.disconnectBackend h renamed)
    (perform hostsubfolder enable XXH3_64bits (.HttpReturnCode h 304 time.toNat) v)

theorem renewed_chain (sound : Sound hostsubfolder v) (renamed : Bool) :
    Chain hostsubfolder v (renewed hostsubfolder enable XXH3_64bits h time renamed v) := by
  have first : Chain hostsubfolder v (Volume.HttpReturnCode h 304 time.toNat v) :=
    HttpReturnCode_chain sound 304 time.toNat
  exact first.trans (disconnectBackend_chain (first.sound sound) false renamed)

/-- A page that the backend calls unmodified keeps its file, and is sent as it was to everyone
who asks for it within the caching time from then on, whatever happens to the directory
meanwhile, as long as the file has its path and no other 304 sets its check. -/
theorem renewed_page_is_sent
    (reached : Reach (Step hostsubfolder enable XXH3_64bits) (Apart hostsubfolder XXH3_64bits)
      (· = Volume.initial) v) (old : (v.downloads h).http_code = 0)
    (held : (v.downloads h).finalCache = some fd) (reads : v.readers fd = some file)
    (own : (v.downloads h).cachePath = cachePath hostsubfolder XXH3_64bits r)
    (named : v.names (cachePath hostsubfolder XXH3_64bits r) = some file)
    (touched : (set_last_modification_time_check fd time.toNat (v.files file).file).1 = true)
    (renamed : Bool) :
    (renewed hostsubfolder enable XXH3_64bits h time renamed v).names
        (cachePath hostsubfolder XXH3_64bits r) = some file ∧
      (∀ https, (renewed hostsubfolder enable XXH3_64bits h time renamed
        v).pathToHttp https (cachePath hostsubfolder XXH3_64bits r) = none) ∧
      ∀ (visit : Visit) (w : Volume),
        Reach (Step hostsubfolder enable XXH3_64bits)
          (fun e s => Apart hostsubfolder XXH3_64bits e s ∧ Rests file e s)
          (· = renewed hostsubfolder enable XXH3_64bits h time renamed v) w →
        w.names (cachePath hostsubfolder XXH3_64bits r) = some file →
        w.pathToHttp r.https (cachePath hostsubfolder XXH3_64bits r) = none →
        (∀ k, (visit.socket k).sent = .whole) →
        (ClientModel.readyToRead .new visit.read).2 = .download r →
        ¬Named r.ifNoneMatch visit.stale (v.files file).file →
        time.toNat ≤ visit.currentTime.toNat →
        visit.currentTime.toNat <
          time.toNat + (timeToCache http200Time (storedCode (v.files file).file)).toNat →
        (timeToCache http200Time (storedCode (v.files file).file)).toNat ≤
          visit.currentTime.toNat →
        ∃ id b, (ClientModel.readyToRead .new visit.read).1.fastcgiid = some id ∧
          v.born file = some b ∧ (b.header ++ (v.files file).body ≠ [] →
            Answered (b.header ++ (v.files file).body) id
              (readyToRead hostsubfolder enable XXH3_64bits http200Time visit w).2) := by
  have sound := reach_sound reached
  have final : Final hostsubfolder (cachePath hostsubfolder XXH3_64bits r) :=
    VolumeMoves.cachePath_final XXH3_64bits r
  obtain ⟨settled, b, born⟩ := published sound final named
  have path : (v.downloads h).cachePath ≠ [] := own ▸ final.ne_nil
  obtain ⟨names, file', free⟩ := renewed_volume sound path old held reads touched enable renamed
  have chain : Chain hostsubfolder v
      (renewed hostsubfolder enable XXH3_64bits h time renamed v) :=
    renewed_chain sound renamed
  have stays := chain_stays chain sound settled
  refine ⟨(congrFun names _).trans named, own ▸ free, ?_⟩
  intro visit w later still unregistered taken leads unnamed since within late
  have apart : Reach (Step hostsubfolder enable XXH3_64bits) (Apart hostsubfolder XXH3_64bits)
      (· = renewed hostsubfolder enable XXH3_64bits h time renamed v) w :=
    later.mono fun _ _ both => both.1
  have same := later_sameCheck (chain.sound sound) stays.settled later
  obtain ⟨sound', stays'⟩ := later_stays (chain.sound sound) stays.settled apart
  obtain ⟨-, born₁, marked⟩ := later_marked (chain.sound sound) (stays.born.trans born) apart
  obtain ⟨check, code, tag⟩ := set_check_fields r.ifNoneMatch visit.stale touched
  rw [← file'] at check code tag
  obtain ⟨check', code', tag'⟩ := fields_kept same marked r.ifNoneMatch visit.stale
  have body : (w.files file).body = (v.files file).body := by
    rw [Run.body, Run.body, stays'.writes, stays.writes]
  obtain ⟨id, b', known, born', -, replies⟩ := visit_replies enable http200Time sound' taken
    leads unregistered still
  obtain rfl : b = b' := Option.some.inj (born₁.symm.trans born')
  have served : (timeToCache http200Time (storedCode (w.files file).file)).toNat ≤
      visit.currentTime.toNat ∧ Fresh http200Time visit.currentTime (w.files file).file := by
    rw [Fresh, check'.trans check, code'.trans code]
    omega
  have sent := replies (mt (tag'.trans tag).mp unnamed)
  rw [if_pos served, body] at sent
  exact ⟨id, b, known, born, sent⟩

def expired : Volume := asked ended

def laterVisit : Visit := { pageVisit with currentTime := 22 }

def unmodified : Volume := renewed true true CacheKeys.XXH3_len_0to16_64b 1 20 false expired

def shared : Volume := pageEvents [.openName pagePath, .call 2 (.set_access_time 21)] unmodified

theorem shared_later : Reach (Step true true CacheKeys.XXH3_len_0to16_64b)
    (fun e s => Apart true CacheKeys.XXH3_len_0to16_64b e s ∧ Rests 0 e s) (· = unmodified)
    shared :=
  .next (e := CacheVolume.Event.call 2 (.set_access_time 21))
    (.next (e := CacheVolume.Event.openName pagePath) (.start rfl) ⟨trivial, trivial⟩ rfl)
    ⟨trivial, trivial⟩ rfl

set_option maxRecDepth 4096 in
theorem unmodified_page_is_sent : unmodified.names pagePath = some 0 ∧ ∃ id,
    Answered [9, 1, 2] id
      (readyToRead true true CacheKeys.XXH3_len_0to16_64b 5 laterVisit shared).2 := by
  have apart : Apart true CacheKeys.XXH3_len_0to16_64b (.dnsRight page false) ended := by
    unfold Apart
    decide +kernel
  have reached : Reach (Step true true CacheKeys.XXH3_len_0to16_64b)
      (Apart true CacheKeys.XXH3_len_0to16_64b) (· = Volume.initial) expired :=
    ended_reached.next apart rfl
  have old : (expired.downloads 1).http_code = 0 := by decide +kernel
  have held : (expired.downloads 1).finalCache = some 1 := by decide +kernel
  have reads : expired.readers 1 = some 0 := by decide +kernel
  have own : (expired.downloads 1).cachePath =
      cachePath true CacheKeys.XXH3_len_0to16_64b page := by decide +kernel
  have named : expired.names (cachePath true CacheKeys.XXH3_len_0to16_64b page) = some 0 := by
    decide +kernel
  have touched : (set_last_modification_time_check 1 (20 : UInt64).toNat
      (expired.files 0).file).1 = true := by decide +kernel
  have leads : (ClientModel.readyToRead .new laterVisit.read).2 = .download page := by decide
  have unnamed : ¬Named page.ifNoneMatch laterVisit.stale (expired.files 0).file := by
    decide +kernel
  have within : laterVisit.currentTime.toNat <
      (20 : UInt64).toNat + (timeToCache 5 (storedCode (expired.files 0).file)).toNat := by
    decide +kernel
  have late : (timeToCache 5 (storedCode (expired.files 0).file)).toNat ≤
      laterVisit.currentTime.toNat := by decide +kernel
  have header : (expired.born 0).map Birth.header = some [9] := by decide +kernel
  have body : (expired.files 0).body = [1, 2] := by decide +kernel
  have still : shared.names (cachePath true CacheKeys.XXH3_len_0to16_64b page) = some 0 := by
    decide +kernel
  have free : shared.pathToHttp page.https
      (cachePath true CacheKeys.XXH3_len_0to16_64b page) = none := by decide +kernel
  obtain ⟨kept, -, answers⟩ := renewed_page_is_sent reached old held reads own named touched false
  obtain ⟨id, b, -, born, sent⟩ := answers laterVisit shared shared_later still free (fun _ => rfl)
    leads unnamed (by decide) within late
  rw [stored_content born header body] at sent
  exact ⟨kept, id, sent (List.cons_ne_nil _ _)⟩

end Renewal

end FastCgiCdn.RenewedPages
