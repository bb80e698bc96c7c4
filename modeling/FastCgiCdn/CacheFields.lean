import FastCgiCdn.CacheFile

/-! The fields of a cache file as they are read back, by the handle of a `Cache` and
by the `pread` of a client. A build with `DEBUGFASTCGI` drops an ETag that holds a
zero byte, and aborts where the code is missing. -/

namespace FastCgiCdn.CacheFields

open HttpModel ClientModel SparseFile CacheFile

variable {debug : Bool} {fd fd' pos n m : ℕ} {c : Byte} {etag wanted rest : Bytes} {f f' : File}

def field (fd pos n : ℕ) (f : File) : Bytes × File := (f.lseek fd pos).read fd n

def ofLittleEndian : Bytes → ℕ
  | [] => 0
  | c :: bytes => c.toNat + 256 * ofLittleEndian bytes

def access_time (fd : ℕ) (f : File) : ℕ × File :=
  let time := field fd 0 8 f
  (if time.1.length = 8 then ofLittleEndian time.1 else 0, time.2)

def last_modification_time_check (fd : ℕ) (f : File) : ℕ × File :=
  let time := field fd 8 8 f
  (if time.1.length = 8 then ofLittleEndian time.1 else 0, time.2)

/-- `none` is an abort. -/
def http_code (debug : Bool) (fd : ℕ) (f : File) : Option ℕ × File :=
  let code := field fd 16 2 f
  (if code.1.length = 2 then some (ofLittleEndian code.1)
    else if debug then none else some 500, code.2)

def zeroFree (debug : Bool) (etag : Bytes) : Bytes := if debug && etag.contains 0 then [] else etag

def ETagFrontend (debug : Bool) (fd : ℕ) (f : File) : Bytes × File :=
  let randomIndex := field fd 18 6 f
  (if randomIndex.1.length = 6 then zeroFree debug randomIndex.1 else [], randomIndex.2)

def ETagBackend (debug : Bool) (fd : ℕ) (f : File) : Bytes × File :=
  let size := field fd 24 1 f
  match size.1 with
  | [etagBackendSize] =>
    let buffer := field fd 25 etagBackendSize.toNat size.2
    (if buffer.1.length = etagBackendSize.toNat then zeroFree debug buffer.1 else [], buffer.2)
  | _ => ([], size.2)

def pread (n pos : ℕ) (f : File) : Bytes := (f.bytes.drop pos).take n

/-- The ETag that `dnsRight` asks the backend with. `none` is an answer with the
code 500. -/
def dnsRightEtag (debug : Bool) (f : File) : Option Bytes :=
  match pread 1 24 f with
  | [etagBackendSize] =>
    let buffer := pread etagBackendSize.toNat 25 f
    if buffer.length = etagBackendSize.toNat then
      if debug && buffer.contains 0 then none else some buffer
    else some []
  | _ => some []

def stored (etag : Bytes) : Bytes := if etag.length ≤ 255 then etag else []

/-- Everything that is read back after `set_ETagBackend`. -/
structure RoundTrip (debug : Bool) (fd : ℕ) (etag : Bytes) (f f' : File) : Prop where
  etagBackend : (ETagBackend debug fd f').1 = stored etag
  dnsRight : dnsRightEtag debug f' = some (stored etag)
  content : (seekToContentPos fd f').1 = true ∧
    (seekToContentPos fd f').2.offset fd = 25 + (stored etag).length
  access_time : (access_time fd f').1 = (access_time fd f).1
  last_modification_time_check :
    (last_modification_time_check fd f').1 = (last_modification_time_check fd f).1
  http_code : (http_code debug fd f').1 = (http_code debug fd f).1
  etagFrontend : (ETagFrontend debug fd f').1 = (ETagFrontend debug fd f).1

section Fields

theorem field_fst : (field fd pos n f).1 = pread n pos f := by
  simp only [field, File.read, File.lseek, Function.update_self, pread]

theorem pread_congr (pos n : ℕ) (inside : pos + n ≤ m) (same : f'.bytes.take m = f.bytes.take m) :
    pread n pos f' = pread n pos f := by
  have within (g : File) : pread n pos g = ((g.bytes.take m).drop pos).take n := by
    rw [List.drop_take, List.take_take, Nat.min_eq_left (by omega)]
    rfl
  rw [within, within, same]

theorem length_pread : (pread n pos f).length = min n (f.bytes.length - pos) := by
  rw [pread, List.length_take, List.length_drop]

theorem access_time_congr (same : f'.bytes.take 8 = f.bytes.take 8) :
    (access_time fd f').1 = (access_time fd f).1 := by
  simp only [access_time, field_fst, pread_congr 0 8 (Nat.le_refl _) same]

theorem last_modification_time_check_congr (same : f'.bytes.take 16 = f.bytes.take 16) :
    (last_modification_time_check fd f').1 = (last_modification_time_check fd f).1 := by
  simp only [last_modification_time_check, field_fst,
    pread_congr 8 8 (Nat.le_refl _) same]

theorem http_code_congr (same : f'.bytes.take 18 = f.bytes.take 18) :
    (http_code debug fd f').1 = (http_code debug fd f).1 := by
  simp only [http_code, field_fst, pread_congr 16 2 (Nat.le_refl _) same]

theorem ETagFrontend_congr (same : f'.bytes.take 24 = f.bytes.take 24) :
    (ETagFrontend debug fd f').1 = (ETagFrontend debug fd f).1 := by
  simp only [ETagFrontend, field_fst, pread_congr 18 6 (Nat.le_refl _) same]

theorem pread_size (sized : f.bytes.drop 24 = c :: rest) :
    pread 1 24 f = [c] ∧ ∀ n, pread n 25 f = rest.take n := by
  have behind : f.bytes.drop 25 = rest := by
    rw [show 25 = 24 + 1 from rfl, ← List.drop_drop, sized]
    rfl
  constructor
  · rw [pread, sized]
    rfl
  · intro n
    rw [pread, behind]

theorem ETagBackend_sized (sized : f.bytes.drop 24 = c :: rest) : (ETagBackend debug fd f).1 =
    if (rest.take c.toNat).length = c.toNat then zeroFree debug (rest.take c.toNat) else [] := by
  obtain ⟨size, behind⟩ := pread_size sized
  have moved (n : ℕ) : pread n 25 (field fd 24 1 f).2 = rest.take n := behind n
  unfold ETagBackend
  dsimp only
  rw [field_fst, size]
  dsimp only
  rw [field_fst, moved]

theorem dnsRightEtag_sized (sized : f.bytes.drop 24 = c :: rest) : dnsRightEtag debug f =
    if (rest.take c.toNat).length = c.toNat then
      if debug && (rest.take c.toNat).contains 0 then none else some (rest.take c.toNat)
    else some [] := by
  obtain ⟨size, behind⟩ := pread_size sized
  unfold dnsRightEtag
  rw [size]
  dsimp only
  rw [behind]

theorem seekToContentPos_sized (sized : f.bytes.drop 24 = c :: rest) :
    (seekToContentPos fd f).1 = true ∧
      (seekToContentPos fd f).2.offset fd = 25 + c.toNat :=
  seekToContentPos_placed fd ⟨⟨c, (pread_size sized).1, rfl⟩, rfl⟩

end Fields

section Store

def size (etag : Bytes) : Byte := if 255 < etag.length then 0 else UInt8.ofNat etag.length

/-- What `set_ETagBackend` writes behind the size, where a `char` of 128 and more is
negative. -/
def written (etag : Bytes) : Bytes := if etag.length ≤ 127 then etag else []

theorem size_toNat (etag : Bytes) : (size etag).toNat = (stored etag).length := by
  unfold size stored
  by_cases long : 255 < etag.length
  · rw [if_pos long, if_neg (by omega)]
    rfl
  · rw [if_neg long, if_pos (by omega), UInt8.toNat_ofNat']
    omega

theorem positive_iff (short : etag.length ≤ 255) :
    0 < (UInt8.ofNat etag.length).toInt8 ↔ 0 < etag.length ∧ etag.length ≤ 127 := by
  rw [Int8.lt_iff_toInt_lt, UInt8.toInt8_ofNat', Int8.toInt_ofNat', Int8.toInt_zero, Int.bmod_def,
    show Int8.size = 256 from rfl]
  split <;> omega

theorem set_ETagBackend_bytes (done : (set_ETagBackend fd etag f).1 = true) :
    (set_ETagBackend fd etag f).2.bytes = overwrite 0 24 (size etag :: written etag) f.bytes := by
  unfold set_ETagBackend at done ⊢
  unfold size written
  by_cases long : 255 < etag.length
  · rw [if_pos long] at done
    rw [if_pos long, if_pos long, if_neg (by omega)]
    exact (setField_bytes done).1
  · rw [if_neg long] at done
    rw [if_neg long, if_neg long]
    dsimp only at done ⊢
    by_cases sized : (setField fd 24 [UInt8.ofNat etag.length] f).1 = true
    · rw [sized] at done ⊢
      obtain ⟨bytes, here⟩ := setField_bytes sized
      by_cases positive : 0 < (UInt8.ofNat etag.length).toInt8
      · have short := ((positive_iff (by omega)).mp positive).2
        simp only [Bool.not_true, Bool.false_eq_true, if_false, if_pos positive] at done ⊢
        have whole := stored_eq (of_decide_eq_true done)
        rw [if_pos short]
        change overwrite 0 _ _ _ = _
        rw [whole, here, bytes]
        exact overwrite_append (List.cons_ne_nil _ _)
      · simp only [Bool.not_true, Bool.false_eq_true, if_false, if_neg positive]
        have nothing : (if etag.length ≤ 127 then etag else []) = [] := by
          by_cases short : etag.length ≤ 127
          · have empty : ¬0 < etag.length := fun filled =>
              positive ((positive_iff (by omega)).mpr ⟨filled, short⟩)
            rw [if_pos short]
            exact List.eq_nil_of_length_eq_zero (by omega)
          · exact if_neg short
        rw [nothing]
        exact bytes
    · rw [Bool.eq_false_iff.mpr sized] at done
      exact absurd done (by simp [sized])

end Store

section Back

/-- From the size on, a file with an ETag. -/
def behind (etag : Bytes) (f : File) : Bytes :=
  written etag ++ f.bytes.drop (25 + (written etag).length)

theorem set_ETagBackend_sized (done : (set_ETagBackend fd etag f).1 = true) :
    (set_ETagBackend fd etag f).2.bytes.drop 24 = size etag :: behind etag f := by
  rw [set_ETagBackend_bytes done, drop_overwrite_self (List.cons_ne_nil _ _), List.length_cons]
  have next : 24 + ((written etag).length + 1) = 25 + (written etag).length := by omega
  rw [next]
  rfl

theorem set_ETagBackend_front (done : (set_ETagBackend fd etag f).1 = true) :
    (set_ETagBackend fd etag f).2.bytes.take 24 =
      f.bytes.take 24 ++ List.replicate (24 - f.bytes.length) 0 := by
  rw [set_ETagBackend_bytes done, take_overwrite_self (List.cons_ne_nil _ _)]

theorem set_ETagBackend_keeps (done : (set_ETagBackend fd etag f).1 = true) (low : m ≤ 24)
    (inside : m ≤ f.bytes.length) :
    (set_ETagBackend fd etag f).2.bytes.take m = f.bytes.take m := by
  rw [set_ETagBackend_bytes done]
  exact take_overwrite low inside

theorem set_ETagBackend_long (done : (set_ETagBackend fd etag f).1 = true) :
    25 ≤ (set_ETagBackend fd etag f).2.bytes.length := by
  have length := congrArg List.length (set_ETagBackend_sized done)
  rw [List.length_drop, List.length_cons] at length
  omega

theorem take_behind_iff : (behind etag f).take (stored etag).length = stored etag ↔
    etag.length ≤ 127 ∨ 255 < etag.length ∨ (f.bytes.drop 25).take etag.length = etag := by
  unfold behind written stored
  by_cases low : etag.length ≤ 127
  · rw [if_pos low, if_pos (by omega), List.take_left' rfl]
    exact ⟨fun _ => .inl low, fun _ => rfl⟩
  · by_cases long : 255 < etag.length
    · rw [if_neg (by omega : ¬etag.length ≤ 255), List.length_nil, List.take_zero]
      exact ⟨fun _ => .inr (.inl long), fun _ => rfl⟩
    · rw [if_neg low, if_pos (by omega), List.nil_append, List.length_nil, Nat.add_zero]
      constructor
      · exact fun same => .inr (.inr same)
      · intro either
        rcases either with small | large | same
        · exact absurd small low
        · exact absurd large long
        · exact same

end Back

section Both

theorem zeroFree_eq_iff (filled : wanted ≠ []) (same : rest = wanted) :
    zeroFree debug rest = wanted ↔ (debug = true → 0 ∉ wanted) := by
  subst same
  unfold zeroFree
  cases debug with
  | false => simp
  | true =>
    by_cases zero : 0 ∈ rest
    · simp [zero, filled.symm]
    · simp [zero]

theorem ETagBackend_eq_iff (debug : Bool) (fd : ℕ) (sized : f.bytes.drop 24 = c :: rest) (length : wanted.length = c.toNat) :
    (ETagBackend debug fd f).1 = wanted ↔
      rest.take wanted.length = wanted ∧ (debug = true → 0 ∉ wanted) := by
  rw [ETagBackend_sized sized, ← length]
  by_cases empty : wanted = []
  · subst empty
    simp [zeroFree]
  · by_cases same : rest.take wanted.length = wanted
    · rw [if_pos (congrArg List.length same), zeroFree_eq_iff empty same]
      exact ⟨fun free => ⟨same, free⟩, fun both => both.2⟩
    · refine ⟨fun read => ?_, fun both => absurd both.1 same⟩
      split at read
      · unfold zeroFree at read
        split at read
        · exact absurd read.symm empty
        · exact absurd read same
      · exact absurd read.symm empty

theorem dnsRightEtag_eq_iff (sized : f.bytes.drop 24 = c :: rest)
    (length : wanted.length = c.toNat) : dnsRightEtag debug f = some wanted ↔
      rest.take wanted.length = wanted ∧ (debug = true → 0 ∉ wanted) := by
  rw [dnsRightEtag_sized sized, ← length]
  by_cases same : rest.take wanted.length = wanted
  · rw [same, if_pos rfl]
    cases debug <;> simp
  · refine ⟨fun read => ?_, fun both => absurd both.1 same⟩
    split at read
    · split at read
      · cases read
      · exact absurd (Option.some.inj read) same
    · have empty : wanted = [] := (Option.some.inj read).symm
      rw [empty] at same
      exact absurd List.take_zero same

end Both

section Fixed

theorem http_code_whole (whole : 18 ≤ f.bytes.length) :
    (http_code debug fd f).1 = some (ofLittleEndian (pread 2 16 f)) := by
  have length : (pread 2 16 f).length = 2 := by
    rw [length_pread]
    omega
  rw [http_code, field_fst, if_pos length]

theorem http_code_short (short : f.bytes.length < 18) :
    (http_code debug fd f).1 = if debug then none else some 500 := by
  have length : (pread 2 16 f).length ≠ 2 := by
    rw [length_pread]
    omega
  rw [http_code, field_fst, if_neg length]

theorem ETagFrontend_whole (whole : 24 ≤ f.bytes.length) :
    (ETagFrontend debug fd f).1 = zeroFree debug (pread 6 18 f) := by
  have length : (pread 6 18 f).length = 6 := by
    rw [length_pread]
    omega
  rw [ETagFrontend, field_fst, if_pos length]

theorem ETagFrontend_short (short : f.bytes.length < 24) : (ETagFrontend debug fd f).1 = [] := by
  have length : (pread 6 18 f).length ≠ 6 := by
    rw [length_pread]
    omega
  rw [ETagFrontend, field_fst, if_neg length]

/-- Behind a short file the frontend ETag ends in the zeros of the hole. -/
theorem zero_in_hole (done : (set_ETagBackend fd etag f).1 = true) (short : f.bytes.length < 24) :
    0 ∈ pread 6 18 (set_ETagBackend fd etag f).2 := by
  have last : (set_ETagBackend fd etag f).2.bytes[23]? = some 0 := by
    have front : ((set_ETagBackend fd etag f).2.bytes.take 24)[23]? = some 0 := by
      rw [set_ETagBackend_front done, List.take_of_length_le (by omega),
        List.getElem?_append_right (by omega), List.getElem?_replicate, if_pos (by omega)]
    rwa [List.getElem?_take_of_lt (by omega)] at front
  apply List.mem_of_getElem? (i := 5)
  rw [pread, List.getElem?_take_of_lt (by omega), List.getElem?_drop]
  exact last

theorem fixed_kept_iff (debug : Bool) (fd' : ℕ) (done : (set_ETagBackend fd etag f).1 = true) :
    ((http_code debug fd' (set_ETagBackend fd etag f).2).1 = (http_code debug fd' f).1 ∧
        (ETagFrontend debug fd' (set_ETagBackend fd etag f).2).1 = (ETagFrontend debug fd' f).1) ↔
      (if debug then 18 else 24) ≤ f.bytes.length := by
  have long := set_ETagBackend_long done
  by_cases whole : 24 ≤ f.bytes.length
  · have enough : (if debug then 18 else 24) ≤ f.bytes.length := by
      split <;> omega
    have code := set_ETagBackend_keeps (m := 18) done (by omega) (by omega)
    have front := set_ETagBackend_keeps (m := 24) done (by omega) whole
    exact ⟨fun _ => enough, fun _ => ⟨http_code_congr code, ETagFrontend_congr front⟩⟩
  · cases debug with
    | false =>
      refine ⟨fun same => ?_, fun enough => absurd enough whole⟩
      have read : pread 6 18 (set_ETagBackend fd etag f).2 = [] := by
        have kept := same.2
        rw [ETagFrontend_whole (by omega), ETagFrontend_short (by omega)] at kept
        exact kept
      have length := congrArg List.length read
      rw [length_pread, List.length_nil] at length
      omega
    | true =>
      rw [if_pos rfl]
      refine ⟨fun same => ?_, fun enough => ⟨?_, ?_⟩⟩
      · by_contra short
        have kept := same.1
        rw [http_code_whole (by omega), http_code_short (by omega)] at kept
        cases kept
      · exact http_code_congr (set_ETagBackend_keeps done (by omega) enough)
      · rw [ETagFrontend_whole (by omega), ETagFrontend_short (by omega)]
        exact if_pos (by simpa using zero_in_hole done (by omega))

end Fixed

/-- An ETag comes back when its size is no negative `char`, or when the file holds it
already. The other fields come back from a file that has them. -/
theorem etag_round_trip_iff (debug : Bool) (fd fd' : ℕ) (etag : Bytes) (f : File)
    (done : (set_ETagBackend fd etag f).1 = true) :
    RoundTrip debug fd' etag f (set_ETagBackend fd etag f).2 ↔
      (etag.length ≤ 127 ∨ 255 < etag.length ∨ (f.bytes.drop 25).take etag.length = etag) ∧
        (debug = true → 0 ∉ stored etag) ∧ (if debug then 18 else 24) ≤ f.bytes.length := by
  have sized := set_ETagBackend_sized done
  have length := (size_toNat etag).symm
  have read := ETagBackend_eq_iff debug fd' sized length
  rw [← take_behind_iff (f := f), ← fixed_kept_iff debug fd' done, ← and_assoc,
    ← read]
  constructor
  · intro back
    exact ⟨back.etagBackend, back.http_code, back.etagFrontend⟩
  · rintro ⟨etagBackend, code, etagFrontend⟩
    have inside := (fixed_kept_iff debug fd' done).mp ⟨code, etagFrontend⟩
    have enough : 18 ≤ f.bytes.length := by
      refine Nat.le_trans ?_ inside
      split <;> omega
    exact {
      etagBackend := etagBackend
      dnsRight := (dnsRightEtag_eq_iff sized length).mpr (read.mp etagBackend)
      content := by
        rw [length]
        exact seekToContentPos_sized sized
      access_time := access_time_congr (set_ETagBackend_keeps done (by omega) (by omega))
      last_modification_time_check :=
        last_modification_time_check_congr (set_ETagBackend_keeps done (by omega) (by omega))
      http_code := code
      etagFrontend := etagFrontend }

def headed : File := ⟨List.replicate 24 1, fun _ => 0, fun _ => 1000, 0⟩

set_option maxRecDepth 4096 in
theorem three_bytes_come_back :
    RoundTrip false 1 [97, 98, 99] headed (set_ETagBackend 0 [97, 98, 99] headed).2 :=
  (etag_round_trip_iff false 0 1 [97, 98, 99] headed (by decide)).mpr
    ⟨.inl (by decide), (fun debug => by cases debug), by decide⟩

set_option maxRecDepth 8192 in
/-- Of an ETag of 128 bytes only the size is written. -/
theorem etag_of_128_bytes_is_lost :
    (set_ETagBackend 0 (List.replicate 128 65) headed).1 = true ∧
      ¬RoundTrip false 0 (List.replicate 128 65) headed
        (set_ETagBackend 0 (List.replicate 128 65) headed).2 := by
  constructor
  · decide
  · intro back
    have lost : (ETagBackend false 0
        (set_ETagBackend 0 (List.replicate 128 65) headed).2).1 = [] := by decide
    have promised : stored (List.replicate 128 65) = List.replicate 128 65 := rfl
    have read := back.etagBackend
    rw [lost, promised] at read
    cases read

end FastCgiCdn.CacheFields
