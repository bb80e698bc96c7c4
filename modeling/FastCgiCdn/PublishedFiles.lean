import FastCgiCdn.CacheKeys
import FastCgiCdn.VolumeMoves

/-! What stands in the cache directory under the path of a request, whatever the
downloads, the clients and the ends of the program come to: a file that one download
has finished, and whose content never changes. The condition on the steps is that no
two downloads of different protocols have one path. -/

namespace FastCgiCdn.PublishedFiles

open CacheFile CacheVolume ClientModel FileNames GuardedRuns VolumeMoves Volume

variable {hostsubfolder enable : Bool} {XXH3_64bits : Bytes → UInt64} {v v' w : Volume}
  {name path : Bytes} {file fd h : ℕ}

section Chains

theorem lesser_same {f : Http → Http} (sound : Sound hostsubfolder v)
    (https : (f (v.downloads h)).https = (v.downloads h).https)
    (cachePath : (f (v.downloads h)).cachePath = (v.downloads h).cachePath)
    (tempCache : (f (v.downloads h)).tempCache = (v.downloads h).tempCache)
    (header : (v.downloads h).headerWriten = true → (f (v.downloads h)).headerWriten = true)
    (code : (f (v.downloads h)).http_code = (v.downloads h).http_code) :
    Lesser (v.downloads h) (f (v.downloads h)) where
  https := https
  cachePath := .inl cachePath
  tempCache c had := by
    rw [tempCache] at had
    obtain ⟨written, answered, -⟩ := sound.temp h c had
    rw [code]
    exact ⟨header written, answered, c, had, rfl, rfl, id⟩

theorem free_of_bare (bare : ∀ h, (v.downloads h).tempCache = none) : Free v name := by
  intro h c writes
  rw [Writes, bare] at writes
  cases writes.1

theorem openName_chain (opened : v.openName name = some (fd, w)) : Chain hostsubfolder v w := by
  obtain ⟨file, found, same⟩ := Option.map_eq_some_iff.mp opened
  obtain ⟨-, rfl⟩ := Prod.mk.inj same
  exact (Move.opened found).chain.trans (Move.call _ _).chain

theorem closeFinal_chain (sound : Sound hostsubfolder v) :
    Chain hostsubfolder v (closeFinal h v) := by
  unfold closeFinal
  split
  · exact .refl
  · rename_i fd _
    have closed := sound.close fd
    exact (Move.close fd).chain.trans
      (Move.lessen h _ (lesser_same closed rfl rfl rfl id rfl)).chain

theorem closeFinal_names : (closeFinal h v).names = v.names := by
  unfold closeFinal
  split <;> rfl

theorem closeFinal_files : (closeFinal h v).files = v.files := by
  unfold closeFinal
  split <;> rfl

theorem closeFinal_born : (closeFinal h v).born = v.born := by
  unfold closeFinal
  split <;> rfl

theorem closeFinal_downloads : (closeFinal h v).downloads h =
    { v.downloads h with finalCache := none } := by
  unfold closeFinal
  split
  · rename_i none
    rw [← none]
  · exact downloads_setHttp_self _

theorem unregister_chain (sound : Sound hostsubfolder v) (fromDestructor : Bool) :
    Chain hostsubfolder v (unregister fromDestructor h v) := by
  have forgotten : Lesser (v.downloads h) { v.downloads h with cachePath := [] } :=
    ⟨rfl, .inr rfl, fun c had => by
      obtain ⟨written, answered, -⟩ := sound.temp h c had
      exact ⟨written, answered, c, had, rfl, rfl, id⟩⟩
  have forgets : Chain hostsubfolder v (setHttp h ({ · with cachePath := [] }) v) :=
    (Move.lessen h ({ · with cachePath := [] }) forgotten).chain
  have after := forgets.sound sound
  unfold unregister
  dsimp only
  by_cases empty : (v.downloads h).cachePath = []
  · rw [if_pos empty]
    exact forgets
  · rw [if_neg empty]
    have final := (sound.path h).resolve_left empty
    refine (forgets.trans (Move.erase _ (v.downloads h).cachePath ?_).chain).trans
      (Move.erase _ (tmp (v.downloads h).cachePath) ?_).chain
    · intro other _ named same
      by_cases self : other = h
      · subst self
        exact named (congrArg Http.cachePath (downloads_setHttp_self _))
      · rw [downloads_setHttp_ne _ self] at named same
        exact self (sound.unique named same)
    · intro other _ named same
      have known := (after.path other).resolve_left named
      change ((setHttp h ({ · with cachePath := [] }) v).downloads other).cachePath = _ at same
      rw [same] at known
      exact not_final_tmp (.inr final) known

theorem save_chain (sound : Sound hostsubfolder v) (renamed : Bool)
    (known : path = (v.downloads h).cachePath) (closed : ∀ c, ¬Writes v h c)
    (mine : path ≠ [] → ∃ file, v.names (tmp path) = some file ∧ (v.born file).isSome = true ∧
      ∀ other c, Writes v other c → c.file ≠ file) :
    Chain hostsubfolder v (save path renamed v) := by
  have shape : path = [] ∨ Final hostsubfolder path := known ▸ sound.path h
  have dropped : Chain hostsubfolder v (unlinkName (tmp path) (unlinkName path v)) := by
    have first : Move hostsubfolder v (unlinkName path v) := .unlink path (sound.free_path shape)
    refine first.chain.trans (Move.unlink (tmp path) ?_).chain
    subst known
    exact sound.free_tmp h closed
  unfold save
  split
  · exact dropped
  · rename_i file found
    split
    · split
      · rename_i rename
        obtain ⟨file', found', made, settled⟩ := mine rename.2
        obtain rfl := Option.some.inj (found.symm.trans found')
        exact (Move.rename (shape.resolve_left rename.2) found made settled).chain
      · exact dropped
    · exact dropped

theorem lesser_closed {c : Handle} (sound : Sound hostsubfolder v)
    (had : (v.downloads h).tempCache = some c) : Lesser (v.downloads h)
      { v.downloads h with tempCache := some { c with isOpen := false } } where
  https := rfl
  cachePath := .inl rfl
  tempCache c' had' := by
    obtain rfl := Option.some.inj had'
    obtain ⟨written, answered, -⟩ := sound.temp h c had
    exact ⟨written, answered, c, had, rfl, rfl, fun wrong => by cases wrong⟩

theorem unlink_chain (sound : Sound hostsubfolder v) (known : path = [] ∨ Final hostsubfolder path)
    (on : Bool) : Chain hostsubfolder v (if on then v else unlinkName path v) := by
  split
  · exact .refl
  · exact (Move.unlink path (sound.free_path known)).chain

theorem disconnectBackend_chain (sound : Sound hostsubfolder v) (fromDestructor renamed : Bool) :
    Chain hostsubfolder v (disconnectBackend enable fromDestructor h renamed v) := by
  have final := closeFinal_chain (h := h) sound
  have before := final.sound sound
  unfold disconnectBackend
  dsimp only
  generalize closeFinal h v = w at final before
  cases had : (w.downloads h).tempCache with
  | none => exact final.trans (unregister_chain before fromDestructor)
  | some c =>
    dsimp only
    split
    · -- the names that are unlinked are nobody's any more
      have stopped : Chain hostsubfolder w (Volume.restart w) := Move.restart.chain
      have drops : Chain hostsubfolder (Volume.restart w)
          (unlinkName (w.downloads h).cachePath (Volume.restart w)) :=
        (Move.unlink _ (free_of_bare fun _ => rfl)).chain
      have drops' : Chain hostsubfolder (unlinkName (w.downloads h).cachePath (Volume.restart w))
          (unlinkName (tmp (w.downloads h).cachePath)
            (unlinkName (w.downloads h).cachePath (Volume.restart w))) :=
        (Move.unlink _ (free_of_bare fun _ => rfl)).chain
      exact ((final.trans stopped).trans drops).trans drops'
    · rename_i going
      have writes : Writes w h c := by
        refine ⟨had, ?_⟩
        cases opened : c.isOpen with
        | true => rfl
        | false => simp [opened] at going
      have closes : Chain hostsubfolder w
          (setHttp h ({ · with tempCache := some { c with isOpen := false } }) w) :=
        (Move.lessen h ({ · with tempCache := some { c with isOpen := false } })
          (lesser_closed before had)).chain
      have closed := closes.sound before
      have path : (w.downloads h).cachePath = ((setHttp h
          ({ · with tempCache := some { c with isOpen := false } }) w).downloads h).cachePath :=
        (congrArg Http.cachePath (downloads_setHttp_self
          ({ · with tempCache := some { c with isOpen := false } }))).symm
      have saves := save_chain closed renamed path
        (fun c' writes' => by
          rw [Writes, downloads_setHttp_self] at writes'
          obtain rfl := Option.some.inj writes'.1
          cases writes'.2)
        fun named => ⟨c.file, before.closed_own writes named⟩
      have saved := saves.sound closed
      have drops := unlink_chain saved (before.path h) enable
      exact (((final.trans closes).trans saves).trans drops).trans
        (unregister_chain (drops.sound saved) fromDestructor)

theorem dnsRight_chain {r : Request} (fresh : Bool)
    (apart : v.pathToHttp (!r.https) (cachePath hostsubfolder XXH3_64bits r) = none) :
    Chain hostsubfolder v (Volume.dnsRight hostsubfolder XXH3_64bits r fresh v) := by
  have final : Final hostsubfolder (cachePath hostsubfolder XXH3_64bits r) :=
    cachePath_final XXH3_64bits r
  unfold Volume.dnsRight
  dsimp only
  generalize cachePath hostsubfolder XXH3_64bits r = path at apart final ⊢
  split
  · exact .refl
  · rename_i missing
    have unknown (s : Bool) : v.pathToHttp s path = none := by
      by_cases scheme : s = r.https
      · rw [scheme]
        exact Option.not_isSome_iff_eq_none.mp missing
      · have other : s = !r.https := by
          cases s <;> cases https : r.https <;> simp_all
        rw [other]
        exact apart
    split
    · exact (Move.newDownload r.https none final unknown).chain
    · rename_i fd w opened
      have opens : Chain hostsubfolder v w := openName_chain opened
      split
      · exact opens
      · have same : w.pathToHttp = v.pathToHttp := by
          obtain ⟨file, -, same⟩ := Option.map_eq_some_iff.mp opened
          obtain ⟨-, rfl⟩ := Prod.mk.inj same
          unfold Volume.call
          split <;> rfl
        exact opens.trans
          (Move.newDownload r.https (some fd) final fun s => by rw [same, unknown]).chain

theorem HttpReturnCode_chain (sound : Sound hostsubfolder v) (errorCode time : ℕ) :
    Chain hostsubfolder v (Volume.HttpReturnCode h errorCode time v) := by
  unfold Volume.HttpReturnCode
  dsimp only
  split
  · exact .refl
  · rename_i unanswered
    have bare (c : Handle) : (v.downloads h).tempCache ≠ some c := fun had =>
      unanswered (sound.temp h c had).2.1
    have codes : Chain hostsubfolder v (setHttp h ({ · with http_code := errorCode }) v) :=
      (Move.lessen h ({ · with http_code := errorCode })
        ⟨rfl, .inl rfl, fun c had => absurd had (bare c)⟩).chain
    split
    · split
      · exact codes
      · rename_i fd _
        have calls := codes.trans (Move.call fd (.set_last_modification_time_check time)).chain
        have sound' := calls.sound sound
        split
        · exact calls
        · have same : (Volume.call fd (.set_last_modification_time_check time)
              (setHttp h ({ · with http_code := errorCode }) v)).downloads h =
              { v.downloads h with http_code := errorCode } := by
            refine Eq.trans ?_ (downloads_setHttp_self ({ · with http_code := errorCode }))
            unfold Volume.call
            split <;> rfl
          have free := sound'.free_tmp h fun c writes => by
            rw [Writes, same] at writes
            exact bare c writes.1
          rw [same] at free
          exact calls.trans (Move.unlink _ free).chain
    · exact codes

theorem headFails_chain (sound : Sound hostsubfolder v) (failure : Failure) (f : File)
    (bare : (v.downloads h).tempCache = none) :
    Chain hostsubfolder v (headFails enable h failure f v) := by
  have free := sound.free_tmp h fun c writes => by
    rw [Writes, bare] at writes
    cases writes.1
  have creates : Chain hostsubfolder v (create (tmp (v.downloads h).cachePath) f none v) :=
    (Move.create f free (not_final_tmp (sound.path h))).chain
  have created := creates.sound sound
  let written (d : Http) : Http := { d with headerWriten := d.headerWriten || failure = .header }
  have less := lesser_same (h := h) (f := written) created rfl rfl rfl
    (fun had => Bool.or_eq_true_iff.mpr (.inl had)) rfl
  have notes : Chain hostsubfolder _ (setHttp h written _) := (Move.lessen h written less).chain
  have noted := notes.sound created
  have disconnects : Chain hostsubfolder v (disconnectBackend enable false h false
      (setHttp h written (create (tmp (v.downloads h).cachePath) f none v))) :=
    (creates.trans notes).trans (disconnectBackend_chain noted false false)
  have sound' := disconnects.sound sound
  unfold headFails
  dsimp only
  split
  · refine disconnects.trans (Move.unlink (tmp []) ?_).chain
    intro other c _ named same
    exact named (tmp_injective same)
  · exact disconnects

theorem header_initialised {w : ℕ} {e : Ending} {f f' g : File}
    (fields : setFields w e f = .ok f') (header : writeHeader w e f' = .ok g) :
    initialise w e.currentTime 200 e.randomIndex e.etagBackend e.header f = some g := by
  rw [← setFields_writeHeader, fields]
  exact congrArg Except.toOption header

theorem header_agrees {w : ℕ} {e : Ending} {f f' : File} (empty : f.bytes = [])
    (fields : setFields w e f = .ok f') {g : File} (header : writeHeader w e f' = .ok g) :
    Agree w (contentPos e.etagBackend) e.header (fileRun g) := by
  obtain ⟨placed, writer⟩ := initialise_placed empty (header_initialised fields header)
  exact ⟨placed, writer, fun fd b _ got => by cases got⟩

theorem endOfHead_chain (sound : Sound hostsubfolder v) (e : Ending) :
    Chain hostsubfolder v (endOfHead enable h e v) := by
  have forgets : Chain hostsubfolder v (setHttp h ({ · with tempCache := none }) v) :=
    (Move.lessen h ({ · with tempCache := none }) ⟨rfl, .inl rfl, fun c had => by cases had⟩).chain
  have sound' := forgets.sound sound
  have bare : ((setHttp h ({ · with tempCache := none }) v).downloads h).tempCache = none :=
    congrArg Http.tempCache (downloads_setHttp_self _)
  have code : ((setHttp h ({ · with tempCache := none }) v).downloads h).http_code =
      (v.downloads h).http_code := by
    rw [downloads_setHttp_self]
  unfold endOfHead
  split
  · exact .refl
  · rename_i answered
    dsimp only
    generalize setHttp h ({ · with tempCache := none }) v = w at forgets sound' bare code ⊢
    have free := sound'.free_tmp h fun c writes => by
      rw [Writes, bare] at writes
      cases writes.1
    split
    · exact forgets.trans (Move.unlink _ free).chain
    · split
      · exact forgets.trans (headFails_chain sound' _ _ bare)
      · rename_i f fields
        split
        · -- the process is gone before the file is looked for
          have stopped : Chain hostsubfolder w (Volume.restart w) := Move.restart.chain
          exact (forgets.trans stopped).trans
            (Move.create f (free_of_bare fun _ => rfl) (not_final_tmp (sound'.path h))).chain
        · split
          · exact forgets.trans (headFails_chain sound' _ _ bare)
          · rename_i f' header
            have begun := header_agrees rfl fields header
            refine forgets.trans (Move.initialise (b := ⟨w.newFd, e.etagBackend, e.header⟩) h rfl
              bare ?_ begun).chain
            rw [code]
            intro zero
            rw [zero] at answered
            exact answered (by decide)

theorem corrupted_chain (sound : Sound hostsubfolder v) (r : Request) :
    Chain hostsubfolder v (Volume.corrupted hostsubfolder XXH3_64bits r v) := by
  unfold Volume.corrupted
  dsimp only
  split
  · exact .refl
  · exact (Move.unlink _ (sound.free_path (.inr (cachePath_final XXH3_64bits r)))).chain

theorem write_chain (data : Bytes) : Chain hostsubfolder v (Volume.write h data v) := by
  unfold Volume.write
  split
  · exact .refl
  · rename_i c had
    split
    · rename_i opened
      exact (Move.write data ⟨had, opened⟩).chain
    · exact .refl

theorem perform_chain {e : CacheVolume.Event} (sound : Sound hostsubfolder v)
    (apart : Apart hostsubfolder XXH3_64bits e v) :
    Chain hostsubfolder v (perform hostsubfolder enable XXH3_64bits e v) := by
  cases e with
  | dnsRight r fresh => exact dnsRight_chain fresh apart
  | openName name =>
    cases opened : v.openName name with
    | none =>
      rw [perform, opened]
      exact .refl
    | some result =>
      rw [perform, opened]
      exact openName_chain opened
  | call fd c => exact (Move.call fd c).chain
  | close fd => exact (Move.close fd).chain
  | corrupted r => exact corrupted_chain sound r
  | HttpReturnCode h errorCode time => exact HttpReturnCode_chain sound errorCode time
  | endOfHead h e => exact endOfHead_chain sound e
  | write h data => exact write_chain data
  | backendError h => exact unregister_chain sound false
  | disconnectBackend h renamed => exact disconnectBackend_chain sound false renamed
  | deleteHttp h =>
    have forgets : Chain hostsubfolder v (setHttp h ({ · with tempCache := none }) v) :=
      (Move.lessen h ({ · with tempCache := none }) ⟨rfl, .inl rfl, fun c had => by cases had⟩).chain
    exact forgets.trans (disconnectBackend_chain (forgets.sound sound) true false)
  | restart => exact Move.restart.chain

end Chains

section Runs

theorem initial_sound : Sound hostsubfolder Volume.initial where
  single first second file found := by cases found
  named name file found := by cases found
  agree file b born := by cases born
  numbered file b born := by cases born
  published name file found := by cases found
  reader fd file reads := by cases reads
  apart file b born := rfl
  path h := .inl rfl
  registered h named := absurd rfl named
  alone path := .inl rfl
  temp h c had := by cases had
  owner h h' c c' had := by cases had
  own h c writes := by cases writes.1
  hidden h c name writes := by cases writes.1

theorem step_sound {e : CacheVolume.Event} (sound : Sound hostsubfolder v)
    (apart : Apart hostsubfolder XXH3_64bits e v)
    (taken : Step hostsubfolder enable XXH3_64bits e v v') : Sound hostsubfolder v' :=
  taken ▸ (perform_chain sound apart).sound sound

theorem reach_sound (reached : Reach (Step hostsubfolder enable XXH3_64bits)
    (Apart hostsubfolder XXH3_64bits) (· = Volume.initial) v) : Sound hostsubfolder v := by
  apply reached.invariant
  · rintro first rfl
    exact initial_sound
  · intro e s t sound apart taken
    exact step_sound sound apart taken

/-- A file that is made and that nobody writes. -/
structure Settled (v : Volume) (file : ℕ) : Prop where
  made : file < v.newFile
  unwritten : ∀ h c, Writes v h c → c.file ≠ file

/-- The file is settled, and is what it was but for what readers do to it. -/
structure Stays (file : ℕ) (v v' : Volume) : Prop where
  settled : Settled v' file
  writes : (v'.files file).writes = (v.files file).writes
  born : v'.born file = v.born file

theorem move_stays (move : Move hostsubfolder v v') (sound : Sound hostsubfolder v)
    (settled : Settled v file) : Stays file v v' := by
  have grown : file < v.newFile + 1 := Nat.lt_succ_of_lt settled.made
  have older : file ≠ v.newFile := Nat.ne_of_lt settled.made
  cases move with
  | lessen h f less =>
    refine ⟨⟨settled.made, fun other c writes same => ?_⟩, rfl, rfl⟩
    obtain ⟨-, -, c', had, file', -, opened⟩ :=
      (lesser_setHttp less sound other).tempCache c writes.1
    exact settled.unwritten other c' ⟨had, opened writes.2⟩ (file'.symm.trans same)
  | unlink name free => exact ⟨⟨settled.made, settled.unwritten⟩, rfl, rfl⟩
  | call fd c =>
    unfold Volume.call
    cases reads : v.readers fd with
    | none => exact ⟨settled, rfl, rfl⟩
    | some target =>
      refine ⟨⟨settled.made, settled.unwritten⟩, ?_, rfl⟩
      by_cases same : file = target
      · subst same
        simp only [Function.update_self, step]
      · simp only [Function.update_of_ne same]
  | close fd => exact ⟨⟨settled.made, settled.unwritten⟩, rfl, rfl⟩
  | opened found => exact ⟨⟨settled.made, settled.unwritten⟩, rfl, rfl⟩
  | newDownload https finalCache final unknown =>
    refine ⟨⟨settled.made, fun other c writes => ?_⟩, rfl, rfl⟩
    by_cases self : other = v.newHttp
    · subst self
      simp only [Writes, Volume.newDownload, Function.update_self] at writes
      cases writes.1
    · simp only [Writes, Volume.newDownload, Function.update_of_ne self] at writes
      exact settled.unwritten other c writes
  | erase https path other => exact ⟨⟨settled.made, settled.unwritten⟩, rfl, rfl⟩
  | create f free temporary =>
    exact ⟨⟨grown, settled.unwritten⟩, congrArg Run.writes (Function.update_of_ne older _ _),
      Function.update_of_ne older _ _⟩
  | initialise h own bare answered begun =>
    refine ⟨⟨grown, fun other c writes => ?_⟩, congrArg Run.writes (Function.update_of_ne older _ _),
      Function.update_of_ne older _ _⟩
    by_cases self : other = h
    · subst self
      rw [Writes, downloads_setHttp_self] at writes
      obtain rfl := Option.some.inj writes.1
      exact older.symm
    · rw [Writes, downloads_setHttp_ne _ self] at writes
      exact settled.unwritten other c writes
  | rename final found made others => exact ⟨⟨settled.made, settled.unwritten⟩, rfl, rfl⟩
  | @write h c data writes =>
    have apart : file ≠ c.file := (settled.unwritten h c writes).symm
    exact ⟨⟨settled.made, settled.unwritten⟩, congrArg Run.writes (Function.update_of_ne apart _ _),
      rfl⟩
  | restart => exact ⟨⟨settled.made, fun h c writes => by cases writes.1⟩, rfl, rfl⟩

theorem chain_stays (chain : Chain hostsubfolder v v') (sound : Sound hostsubfolder v)
    (settled : Settled v file) : Stays file v v' := by
  induction chain with
  | refl => exact ⟨settled, rfl, rfl⟩
  | tail before move ih =>
    have next := move_stays move (Chain.sound before sound) ih.settled
    exact ⟨next.settled, next.writes.trans ih.writes, next.born.trans ih.born⟩

theorem later_stays (sound : Sound hostsubfolder v) (settled : Settled v file)
    (later : Reach (Step hostsubfolder enable XXH3_64bits) (Apart hostsubfolder XXH3_64bits)
      (· = v) v') : Sound hostsubfolder v' ∧ Stays file v v' := by
  apply later.invariant (P := fun w => Sound hostsubfolder w ∧ Stays file v w)
  · rintro first rfl
    exact ⟨sound, settled, rfl, rfl⟩
  · rintro e s t ⟨sound, stays⟩ apart rfl
    have chain : Chain hostsubfolder s (perform hostsubfolder enable XXH3_64bits e s) :=
      perform_chain sound apart
    have next := chain_stays chain sound stays.settled
    exact ⟨chain.sound sound, next.settled, next.writes.trans stays.writes,
      next.born.trans stays.born⟩

theorem published (sound : Sound hostsubfolder v) (final : Final hostsubfolder name)
    (found : v.names name = some file) : Settled v file ∧ ∃ b, v.born file = some b := by
  refine ⟨⟨sound.named name file found, fun h c writes same => ?_⟩,
    Option.isSome_iff_exists.mp (sound.published name file found final)⟩
  exact sound.hidden h c name writes (same ▸ found) final

end Runs

section Page

def page : Request := ⟨false, [97], [47], []⟩

def pagePath : Bytes := cachePath true CacheKeys.XXH3_len_0to16_64b page

def ending : Ending := ⟨true, fun _ => 1000, 7, fun _ => 0, [], [9]⟩

def pageEvents (es : List CacheVolume.Event) (v : Volume) : Volume :=
  es.foldl (fun v e => perform true true CacheKeys.XXH3_len_0to16_64b e v) v

def answered (h : ℕ) : List CacheVolume.Event :=
  [.HttpReturnCode h 200 8, .endOfHead h ending, .write h [1, 2]]

theorem pageEvents_reached {init : Volume → Prop} {v : Volume} (es : List CacheVolume.Event)
    (plain : ∀ e ∈ es, ∀ v, Apart true CacheKeys.XXH3_len_0to16_64b e v)
    (reached : Reach (Step true true CacheKeys.XXH3_len_0to16_64b)
      (Apart true CacheKeys.XXH3_len_0to16_64b) init v) :
    Reach (Step true true CacheKeys.XXH3_len_0to16_64b)
      (Apart true CacheKeys.XXH3_len_0to16_64b) init (pageEvents es v) := by
  induction es generalizing v with
  | nil => exact reached
  | cons e es ih =>
    exact ih (fun e' member => plain e' (List.mem_cons_of_mem e member))
      (reached.next (plain e (List.mem_cons_self ..) v) rfl)

def asked (v : Volume) : Volume := pageEvents [.dnsRight page false] v

def written : Volume := pageEvents (answered 0) (asked .initial)

def ended : Volume := pageEvents [.disconnectBackend 0 true] written

theorem asked_reached : Reach (Step true true CacheKeys.XXH3_len_0to16_64b)
    (Apart true CacheKeys.XXH3_len_0to16_64b) (· = Volume.initial) (asked .initial) := by
  have first : Apart true CacheKeys.XXH3_len_0to16_64b (.dnsRight page false) Volume.initial := rfl
  exact .next (.start rfl) first rfl

theorem written_reached : Reach (Step true true CacheKeys.XXH3_len_0to16_64b)
    (Apart true CacheKeys.XXH3_len_0to16_64b) (· = Volume.initial) written :=
  pageEvents_reached (answered 0) (by simp [answered, Apart]) asked_reached

theorem ended_reached : Reach (Step true true CacheKeys.XXH3_len_0to16_64b)
    (Apart true CacheKeys.XXH3_len_0to16_64b) (· = Volume.initial) ended :=
  pageEvents_reached [.disconnectBackend 0 true] (by simp [Apart]) written_reached

end Page

section Runs

/-- Whatever has the name of a path at one time has the same content ever after, also
when it has lost the name. -/
theorem published_content_stays (reached : Reach (Step hostsubfolder enable XXH3_64bits)
    (Apart hostsubfolder XXH3_64bits) (· = Volume.initial) v) (final : Final hostsubfolder name)
    (found : v.names name = some file) (later : Reach (Step hostsubfolder enable XXH3_64bits)
      (Apart hostsubfolder XXH3_64bits) (· = v) v') :
    ∃ pos content, Placed pos content (v.files file).file ∧
      Placed pos content (v'.files file).file := by
  have sound := reach_sound reached
  obtain ⟨settled, b, born⟩ := published sound final found
  obtain ⟨sound', stays⟩ := later_stays sound settled later
  have same : (v'.files file).body = (v.files file).body := by rw [Run.body, Run.body, stays.writes]
  have now := (sound'.agree file b (stays.born.trans born)).placed
  rw [same] at now
  exact ⟨_, _, (sound.agree file b born).placed, now⟩

def replaced : Volume := pageEvents (answered 1 ++ [.disconnectBackend 1 true]) (asked ended)

theorem old_content_stays : ended.names pagePath = some 0 ∧ replaced.names pagePath = some 1 ∧
    ∃ pos content, Placed pos content (ended.files 0).file ∧
      Placed pos content (replaced.files 0).file := by
  have named : ended.names pagePath = some 0 := by decide +kernel
  have apart : Apart true CacheKeys.XXH3_len_0to16_64b (.dnsRight page false) ended := by
    unfold Apart
    decide +kernel
  have begins : Reach (Step true true CacheKeys.XXH3_len_0to16_64b)
      (Apart true CacheKeys.XXH3_len_0to16_64b) (· = ended) ended := .start rfl
  have later := pageEvents_reached (answered 1 ++ [.disconnectBackend 1 true])
    (by simp [answered, Apart]) (begins.next apart rfl)
  exact ⟨named, by decide +kernel,
    published_content_stays ended_reached (cachePath_final _ page) named later⟩

/-- What has the name of a path has no other name and no writer, and every handle
finds in it the header and all that its download has stored. -/
theorem published_files_are_finished (reached : Reach (Step hostsubfolder enable XXH3_64bits)
    (Apart hostsubfolder XXH3_64bits) (· = Volume.initial) v) (final : Final hostsubfolder name)
    (found : v.names name = some file) :
    (∀ other, v.names other = some file → other = name) ∧
      (∀ h c, Writes v h c → c.file ≠ file) ∧
      ∃ b, v.born file = some b ∧ (∀ fd, (seekToContentPos fd (v.files file).file).1 = true) ∧
        Placed (contentPos b.etagBackend) (b.header ++ (v.files file).body)
          (v.files file).file := by
  have sound := reach_sound reached
  obtain ⟨settled, b, born⟩ := published sound final found
  have placed := (sound.agree file b born).placed
  exact ⟨fun other named => sound.single other name file named found, settled.unwritten, b, born,
    fun fd => (seekToContentPos_placed fd placed).1, placed⟩

theorem ended_page_is_finished : ∃ b, ended.born 0 = some b ∧
    Placed (contentPos b.etagBackend) (b.header ++ (ended.files 0).body) (ended.files 0).file := by
  have named : ended.names pagePath = some 0 := by decide +kernel
  obtain ⟨-, -, b, born, -, placed⟩ :=
    published_files_are_finished ended_reached (cachePath_final _ page) named
  exact ⟨b, born, placed⟩

/-- A handle that has sought the content of an initialised file has read the beginning
of what one download stored, and reads what comes next, under whatever name. -/
theorem reader_sees_one_download {b : Birth} {read : Bytes}
    (reached : Reach (Step hostsubfolder enable XXH3_64bits) (Apart hostsubfolder XXH3_64bits)
      (· = Volume.initial) v) (reads : v.readers fd = some file) (born : v.born file = some b)
    (got : (v.files file).got fd = some read) :
    read <+: b.header ++ (v.files file).body ∧
      ∀ n, read ++ ((v.files file).file.read fd n).1 =
        (b.header ++ (v.files file).body).take (read.length + n) := by
  have sound := reach_sound reached
  have agree := sound.agree file b born
  have other : fd ≠ b.fd := by
    rintro rfl
    rw [sound.apart file b born] at reads
    cases reads
  obtain ⟨part, here⟩ := agree.reader fd read other got
  refine ⟨part, fun n => ?_⟩
  rw [read_placed agree.placed here, append_read part]

def readOn : Volume :=
  pageEvents [.openName (tmp pagePath), .call 1 .seekToContentPos, .call 1 (.read 2),
    .disconnectBackend 0 true] written

theorem renamed_page_is_read_on : readOn.names pagePath = some 0 ∧
    ∃ b, readOn.born 0 = some b ∧ [9, 1] <+: b.header ++ (readOn.files 0).body ∧
      [9, 1] ++ ((readOn.files 0).file.read 1 5).1 =
        (b.header ++ (readOn.files 0).body).take 7 := by
  have reached : Reach _ (Apart true CacheKeys.XXH3_len_0to16_64b) _ readOn :=
    pageEvents_reached _ (by simp [Apart]) written_reached
  have born : (readOn.born 0).isSome = true := by decide +kernel
  obtain ⟨b, born⟩ := Option.isSome_iff_exists.mp born
  have reads : readOn.readers 1 = some 0 := by decide +kernel
  have got : (readOn.files 0).got 1 = some [9, 1] := by decide +kernel
  obtain ⟨part, next⟩ := reader_sees_one_download reached reads born got
  exact ⟨by decide +kernel, b, born, part, next 5⟩

theorem unregister_names (fromDestructor : Bool) :
    (unregister fromDestructor h v).names = v.names := by
  unfold unregister
  dsimp only
  split <;> rfl

theorem unregister_files (fromDestructor : Bool) :
    (unregister fromDestructor h v).files = v.files := by
  unfold unregister
  dsimp only
  split <;> rfl

theorem unregister_born (fromDestructor : Bool) :
    (unregister fromDestructor h v).born = v.born := by
  unfold unregister
  dsimp only
  split <;> rfl

/-- A download that ends gives its own file the name of its path, which it loses again
when nothing is to be cached. -/
theorem disconnectBackend_publishes {c : Handle} (sound : Sound hostsubfolder v)
    (writes : Writes v h c) (named : (v.downloads h).cachePath ≠ []) (large : 25 < size c.file v)
    (small : size c.file v < 100000000) (fromDestructor : Bool) :
    (disconnectBackend enable fromDestructor h true v).names (v.downloads h).cachePath =
        (if enable then some c.file else none) ∧
      (disconnectBackend enable fromDestructor h true v).files = v.files ∧
      (disconnectBackend enable fromDestructor h true v).born = v.born := by
  have temporary : v.names (tmp (v.downloads h).cachePath) = some c.file := sound.own h c writes named
  have apart : tmp (v.downloads h).cachePath ≠ (v.downloads h).cachePath := by
    intro same
    apply not_final_tmp (sound.path h)
    rw [same]
    exact (sound.path h).resolve_left named
  have sized : size c.file (closeFinal h v) = size c.file v := by
    rw [size, size, closeFinal_files]
  have renames : save (v.downloads h).cachePath true
      (setHttp h ({ · with tempCache := some { c with isOpen := false } }) (closeFinal h v)) =
      { setHttp h ({ · with tempCache := some { c with isOpen := false } }) (closeFinal h v) with
        names := rename (tmp (v.downloads h).cachePath) (v.downloads h).cachePath
          (unlink (v.downloads h).cachePath v.names) } := by
    have found : (setHttp h ({ · with tempCache := some { c with isOpen := false } })
        (closeFinal h v)).names (tmp (v.downloads h).cachePath) = some c.file := by
      rw [← temporary, ← closeFinal_names (v := v) (h := h)]
      rfl
    unfold save
    rw [found]
    dsimp only
    rw [if_pos, if_pos ⟨rfl, named⟩, ← closeFinal_names (v := v) (h := h)]
    · rfl
    · change size c.file (closeFinal h v) < 100000000 ∧ 25 < size c.file (closeFinal h v)
      rw [sized]
      exact ⟨small, large⟩
  have fits : ¬(!c.isOpen || decide (size c.file v < 25)) = true := by
    rw [writes.2]
    simp only [Bool.not_true, Bool.false_or, decide_eq_true_eq]
    omega
  unfold disconnectBackend
  dsimp only
  rw [closeFinal_downloads]
  dsimp only
  rw [writes.1]
  dsimp only
  rw [sized, if_neg fits, renames, unregister_names, unregister_files, unregister_born]
  cases enable with
  | true =>
    refine ⟨?_, closeFinal_files, closeFinal_born⟩
    exact (rename_eq_some (unlink_eq_some.mpr ⟨apart, temporary⟩)).mpr (.inl ⟨rfl, rfl⟩)
  | false => exact ⟨Function.update_self .., closeFinal_files, closeFinal_born⟩

/-- The file that a download has written holds, when it ends, the header and all that
was stored. It takes the name of its path where pages are cached; otherwise the path is
left without a file. -/
theorem finished_download_is_published {c : Handle}
    (reached : Reach (Step hostsubfolder enable XXH3_64bits) (Apart hostsubfolder XXH3_64bits)
      (· = Volume.initial) v) (writes : Writes v h c) (named : (v.downloads h).cachePath ≠ [])
    (large : 25 < size c.file v) (small : size c.file v < 100000000) :
    (perform hostsubfolder enable XXH3_64bits (.disconnectBackend h true) v).names
        (v.downloads h).cachePath = (if enable then some c.file else none) ∧
      ∃ b, v.born c.file = some b ∧ Placed (contentPos b.etagBackend)
        (b.header ++ (v.files c.file).body)
        ((perform hostsubfolder enable XXH3_64bits (.disconnectBackend h true) v).files
          c.file).file := by
  have sound := reach_sound reached
  obtain ⟨-, -, b, born, -⟩ := sound.temp h c writes.1
  obtain ⟨renamed, files, -⟩ := disconnectBackend_publishes sound writes named large small false
  refine ⟨renamed, b, born, ?_⟩
  rw [perform, files]
  exact (sound.agree c.file b born).placed

theorem page_is_published : ended.names pagePath = some 0 ∧ ∃ b, written.born 0 = some b ∧
    Placed (contentPos b.etagBackend) (b.header ++ (written.files 0).body)
      (ended.files 0).file := by
  have writes : Writes written 0 ⟨0, 0, true⟩ := ⟨by decide +kernel, rfl⟩
  have path : (written.downloads 0).cachePath = pagePath := by decide +kernel
  obtain ⟨named, b, born, placed⟩ := finished_download_is_published written_reached writes
    (by decide +kernel) (by decide +kernel) (by decide +kernel)
  rw [path] at named
  exact ⟨named, b, born, placed⟩

end Runs

end FastCgiCdn.PublishedFiles
