import FastCgiCdn.CacheFields

/-! Whether a cache file is served as it is or the backend is asked first. Both
functions subtract the caching time from the clock as unsigned numbers of 64 bits,
so that a caching time greater than the clock wraps round. Only `loadUrl` takes a
check in the future for one at present, and it answers a conditional request before
it looks at any time. -/

namespace FastCgiCdn.Freshness

open HttpModel CacheFile CacheFields

variable {fd : ℕ} {content : Bytes} {f : File}

def CACHETIMEDIVIDER : UInt32 := 1

def timeToCache (http200Time : UInt32) (http_code : UInt16) : UInt32 :=
  if http_code = 200 then http200Time / CACHETIMEDIVIDER else 60 / CACHETIMEDIVIDER

inductive Source
  | notModified
  | cache
  | error
  /-- The backend is asked, by `loadUrl` when the DNS has answered. -/
  | backend
  deriving DecidableEq, Repr

def Source.fromCache (s : Source) : Prop := s = notModified ∨ s = cache

instance (s : Source) : Decidable s.fromCache := inferInstanceAs (Decidable (_ ∨ _))

/-- `memcmp` on six bytes from the second on, which reads what is in memory behind a
string that is shorter. -/
def sameETag (ifNoneMatch : Bytes) (stale : ℕ → Byte) (bufferETag : Bytes) : Bool :=
  ((ifNoneMatch.drop 1).take 6 ++ 0 :: (List.range 6).map stale).take 6 = bufferETag

def storedCheck (f : File) : UInt64 := UInt64.ofNat (ofLittleEndian (pread 8 8 f))

def storedCode (f : File) : UInt16 := UInt16.ofNat (ofLittleEndian (pread 2 16 f))

def startRead (fd : ℕ) (f : File) : Bool × File :=
  let first := seekToContentPos fd f
  if first.1 then seekToContentPos fd first.2 else first

section Conditional

variable (ifNoneMatch : Bytes) (stale : ℕ → Byte)

/-- A conditional request that names the ETag of the file. -/
def Named (f : File) : Prop :=
  ifNoneMatch ≠ [] ∧ (pread 6 18 f).length = 6 ∧ sameETag ifNoneMatch stale (pread 6 18 f) = true

instance : Decidable (Named ifNoneMatch stale f) := inferInstanceAs (Decidable (_ ∧ _ ∧ _))

def loadUrl (http200Time : UInt32) (currentTime : UInt64) (fd : ℕ) (f : File) : Source × File :=
  if Named ifNoneMatch stale f then (.notModified, f)
  else if f.bytes.length < 25 then (.backend, f)
  else if (pread 8 8 f).length ≠ 8 then (.backend, f)
  else if (pread 2 16 f).length ≠ 2 then (.backend, f)
  else
    let lastModificationTimeCheck :=
      if currentTime < storedCheck f then currentTime else storedCheck f
    if currentTime - (timeToCache http200Time (storedCode f)).toUInt64 < lastModificationTimeCheck
    then
      let read := startRead fd (set_access_time fd currentTime.toNat f).2
      (if read.1 then .cache else .backend, read.2)
    else (.backend, f)

end Conditional

def dnsRight (http200Time : UInt32) (currentTime : UInt64) (fd : ℕ) (f : File) : Source × File :=
  let lastModificationTimeCheck := if (pread 8 8 f).length ≠ 8 then 0 else storedCheck f
  let http_code := if (pread 2 16 f).length ≠ 2 then 500 else storedCode f
  if currentTime - (timeToCache http200Time http_code).toUInt64 < lastModificationTimeCheck then
    let read := startRead fd (set_access_time fd currentTime.toNat f).2
    (if read.1 then .cache else .error, read.2)
  else (.backend, f)

/-- The content has been checked within the caching time, where a check in the future
is one at present. -/
def Fresh (http200Time : UInt32) (currentTime : UInt64) (f : File) : Prop :=
  currentTime.toNat < min (storedCheck f).toNat currentTime.toNat +
    (timeToCache http200Time (storedCode f)).toNat

instance (http200Time : UInt32) (currentTime : UInt64) (f : File) :
    Decidable (Fresh http200Time currentTime f) := inferInstanceAs (Decidable (_ < _))

section Clock

variable {now last : UInt64} {time : UInt32}

theorem wrapped_lt_iff : now - time.toUInt64 < last ↔
    if time.toNat ≤ now.toNat then now.toNat < last.toNat + time.toNat
    else 2 ^ 64 + now.toNat < last.toNat + time.toNat := by
  have low := now.toNat_lt
  have small := time.toNat_lt
  rw [UInt64.lt_iff_toNat_lt, UInt64.toNat_sub, UInt32.toNat_toUInt64]
  split
  case isTrue inside =>
    have wrapped : (2 ^ 64 - time.toNat + now.toNat) % 2 ^ 64 = now.toNat - time.toNat := by omega
    rw [wrapped]
    omega
  case isFalse before =>
    have wrapped : (2 ^ 64 - time.toNat + now.toNat) % 2 ^ 64 = 2 ^ 64 - time.toNat + now.toNat :=
      Nat.mod_eq_of_lt (by omega)
    rw [wrapped]
    omega

theorem clamped_lt_iff : (now - time.toUInt64 < if now < last then now else last) ↔
    time.toNat ≤ now.toNat ∧ now.toNat < min last.toNat now.toNat + time.toNat := by
  have small := time.toNat_lt
  have low := now.toNat_lt
  have clamp : (if now < last then now else last).toNat = min last.toNat now.toNat := by
    split
    case isTrue future =>
      have := UInt64.lt_iff_toNat_lt.mp future
      omega
    case isFalse past =>
      have := mt UInt64.lt_iff_toNat_lt.mpr past
      omega
  rw [wrapped_lt_iff, clamp]
  split <;> omega

end Clock

section Read

theorem placed_of_long (long : 25 ≤ f.bytes.length) : ∃ pos content, Placed pos content f := by
  have one : (pread 1 24 f).length = 1 := by
    rw [length_pread]
    omega
  obtain ⟨c, size⟩ := List.length_eq_one_iff.mp one
  exact ⟨25 + c.toNat, _, ⟨c, size, rfl⟩, rfl⟩

theorem startRead_placed {pos : ℕ} (placed : Placed pos content f) : (startRead fd f).1 = true := by
  have first := (seekToContentPos_placed fd placed).1
  have again : Placed pos content (seekToContentPos fd f).2 := placed.of_bytes bytes_seekToContentPos
  rw [startRead, first, if_pos rfl]
  exact (seekToContentPos_placed fd again).1

theorem read_succeeds (long : 25 ≤ f.bytes.length) (time : ℕ) :
    (startRead fd (set_access_time fd time f).2).1 = true := by
  obtain ⟨pos, content, placed⟩ := placed_of_long long
  apply startRead_placed
  apply placed.setField
  rw [littleEndian_length]
  omega

end Read

section Decisions

variable {ifNoneMatch : Bytes} {stale : ℕ → Byte} {http200Time : UInt32} {now : UInt64}

theorem loadUrl_fromCache_iff (long : 25 ≤ f.bytes.length) :
    (loadUrl ifNoneMatch stale http200Time now fd f).1.fromCache ↔
      Named ifNoneMatch stale f ∨
        (timeToCache http200Time (storedCode f)).toNat ≤ now.toNat ∧ Fresh http200Time now f := by
  have check : (pread 8 8 f).length = 8 := by
    rw [length_pread]
    omega
  have code : (pread 2 16 f).length = 2 := by
    rw [length_pread]
    omega
  unfold loadUrl
  by_cases named : Named ifNoneMatch stale f
  · rw [if_pos named]
    exact ⟨fun _ => .inl named, fun _ => .inl rfl⟩
  · rw [if_neg named, if_neg (by omega), if_neg (not_not.mpr check), if_neg (not_not.mpr code)]
    dsimp only
    rw [read_succeeds long, if_congr clamped_lt_iff rfl rfl]
    split
    case isTrue fresh => exact ⟨fun _ => .inr fresh, fun _ => .inr rfl⟩
    case isFalse old =>
      constructor
      · rintro (wrong | wrong) <;> cases wrong
      · rintro (wrong | fresh)
        · exact absurd wrong named
        · exact absurd fresh old

theorem dnsRight_fromCache_iff (long : 25 ≤ f.bytes.length) :
    (dnsRight http200Time now fd f).1.fromCache ↔
      if (timeToCache http200Time (storedCode f)).toNat ≤ now.toNat then
        now.toNat < (storedCheck f).toNat + (timeToCache http200Time (storedCode f)).toNat
      else 2 ^ 64 + now.toNat <
        (storedCheck f).toNat + (timeToCache http200Time (storedCode f)).toNat := by
  have check : (pread 8 8 f).length = 8 := by
    rw [length_pread]
    omega
  have code : (pread 2 16 f).length = 2 := by
    rw [length_pread]
    omega
  rw [← wrapped_lt_iff]
  unfold dnsRight
  rw [if_neg (not_not.mpr check), if_neg (not_not.mpr code)]
  dsimp only
  rw [read_succeeds long]
  split
  case isTrue fresh => exact ⟨fun _ => fresh, fun _ => .inr rfl⟩
  case isFalse old =>
    refine ⟨?_, fun fresh => absurd fresh old⟩
    rintro (wrong | wrong) <;> cases wrong

end Decisions

/-- Both decisions are the fresh one when the clock is not behind the caching time, a
check in the future does not meet a caching time of zero, and a conditional request
names the ETag of a fresh file only. Behind the caching time the two agree on a named
file alone, whose check wraps round as well. -/
theorem freshness_iff (ifNoneMatch : Bytes) (stale : ℕ → Byte) (http200Time : UInt32)
    (now : UInt64) (fd : ℕ) (f : File) (long : 25 ≤ f.bytes.length) :
    (((loadUrl ifNoneMatch stale http200Time now fd f).1.fromCache ↔ Fresh http200Time now f) ∧
        ((dnsRight http200Time now fd f).1.fromCache ↔
          (loadUrl ifNoneMatch stale http200Time now fd f).1.fromCache)) ↔
      (Named ifNoneMatch stale f → Fresh http200Time now f) ∧
        ((timeToCache http200Time (storedCode f)).toNat ≤ now.toNat ∧
            (now < storedCheck f → timeToCache http200Time (storedCode f) ≠ 0) ∨
          Named ifNoneMatch stale f ∧
            now.toNat < (timeToCache http200Time (storedCode f)).toNat ∧
            2 ^ 64 + now.toNat <
              (storedCheck f).toNat + (timeToCache http200Time (storedCode f)).toNat) := by
  have zero : timeToCache http200Time (storedCode f) ≠ 0 ↔
      0 < (timeToCache http200Time (storedCode f)).toNat := by
    rw [Ne, ← UInt32.toNat_inj]
    exact Nat.pos_iff_ne_zero.symm
  have future : now < storedCheck f ↔ now.toNat < (storedCheck f).toNat := UInt64.lt_iff_toNat_lt
  rw [loadUrl_fromCache_iff long, dnsRight_fromCache_iff long, zero, future]
  unfold Fresh
  by_cases named : Named ifNoneMatch stale f
  · simp only [named, true_or, true_and, true_iff, iff_true, forall_const]
    split <;> omega
  · simp only [named, false_or, false_and, or_false, false_implies, true_and]
    split <;> omega

def checkedAt (check : ℕ) : File :=
  ⟨ClientModel.littleEndian 8 0 ++ ClientModel.littleEndian 8 check ++
    ClientModel.littleEndian 2 200 ++ [65, 66, 67, 68, 69, 70, 0], fun _ => 0, fun _ => 1000, 0⟩

set_option maxRecDepth 4096 in
theorem page_of_an_hour_is_fresh :
    ((loadUrl [] (fun _ => 0) 86400 1700000000 3 (checkedAt 1699996400)).1.fromCache ↔
        Fresh 86400 1700000000 (checkedAt 1699996400)) ∧
      ((dnsRight 86400 1700000000 3 (checkedAt 1699996400)).1.fromCache ↔
        (loadUrl [] (fun _ => 0) 86400 1700000000 3 (checkedAt 1699996400)).1.fromCache) :=
  (freshness_iff [] (fun _ => 0) 86400 1700000000 3 (checkedAt 1699996400) (by decide)).mpr
    ⟨by decide, .inl (by decide)⟩

set_option maxRecDepth 4096 in
/-- A page that was never checked is not modified, one that was checked just now is
asked for when the caching time reaches back before 1970, and a check in the future
outlives a caching time of zero in `dnsRight` alone. -/
theorem decisions_differ :
    ((loadUrl [34, 65, 66, 67, 68, 69, 70, 34] (fun _ => 0) 86400 1700000000 3
          (checkedAt 0)).1.fromCache ∧ ¬Fresh 86400 1700000000 (checkedAt 0)) ∧
      (¬(loadUrl [] (fun _ => 0) 4294967295 1700000000 3 (checkedAt 1700000000)).1.fromCache ∧
        Fresh 4294967295 1700000000 (checkedAt 1700000000)) ∧
      ((dnsRight 0 1700000000 3 (checkedAt 1700000001)).1.fromCache ∧
        ¬(loadUrl [] (fun _ => 0) 0 1700000000 3 (checkedAt 1700000001)).1.fromCache) := by
  decide

end FastCgiCdn.Freshness
