import FastCgiCdn.ClientModel

/-! Which requests share a cache file. The hash is a parameter, and all that is
asked of it is that it tells apart the strings it is given for two requests. -/

namespace FastCgiCdn.CacheKeys

open HttpModel FastCgiRecords ClientModel

section Hexadecimal

theorem lut_injective : ∀ d < 16, ∀ d' < 16, Common.lut d = Common.lut d' → d = d' := by decide

theorem binarytoHexa_injective (s : Bytes) : ∀ t : Bytes,
    Common.binarytoHexa s = Common.binarytoHexa t → s = t := by
  induction s with
  | nil =>
    intro t same
    cases t with
    | nil => rfl
    | cons d t => cases same
  | cons c s ih =>
    intro t same
    cases t with
    | nil => cases same
    | cons d t =>
      obtain ⟨high, low, rest⟩ : Common.lut (c.toNat / 16) = Common.lut (d.toNat / 16) ∧
          Common.lut (c.toNat % 16) = Common.lut (d.toNat % 16) ∧
          Common.binarytoHexa s = Common.binarytoHexa t := by
        simpa [Common.binarytoHexa] using same
      have bound := c.toNat_lt
      have bound' := d.toNat_lt
      have upper := lut_injective _ (by omega) _ (by omega) high
      have lower := lut_injective _ (by omega) _ (by omega) low
      rw [ih t rest, UInt8.toNat_inj.mp (show c.toNat = d.toNat by omega)]

theorem littleEndian_injective (n : ℕ) : ∀ {v w : ℕ}, v < 256 ^ n → w < 256 ^ n →
    littleEndian n v = littleEndian n w → v = w := by
  induction n with
  | zero =>
    intro v w small small' _
    omega
  | succ n ih =>
    intro v w small small' same
    obtain ⟨low, high⟩ := List.cons.inj same
    have low := congrArg UInt8.toNat low
    rw [UInt8.toNat_ofNat', UInt8.toNat_ofNat'] at low
    have rest := ih (show v / 256 < 256 ^ n by omega) (show w / 256 < 256 ^ n by omega) high
    omega

theorem hexa32_injective {x y : UInt32}
    (same : Common.binarytoHexa (littleEndian 4 x.toNat) = Common.binarytoHexa (littleEndian 4 y.toNat)) :
    x = y := by
  have bytes := binarytoHexa_injective _ _ same
  exact UInt32.toNat_inj.mp (littleEndian_injective 4 x.toNat_lt y.toNat_lt bytes)

theorem hexa64_injective {x y : UInt64}
    (same : Common.binarytoHexa (littleEndian 8 x.toNat) = Common.binarytoHexa (littleEndian 8 y.toNat)) :
    x = y := by
  have bytes := binarytoHexa_injective _ _ same
  exact UInt64.toNat_inj.mp (littleEndian_injective 8 x.toNat_lt y.toNat_lt bytes)

end Hexadecimal

def SameUrl (r r' : Request) : Prop := r.https = r'.https ∧ r.host = r'.host ∧ r.uri = r'.uri

/-- The hashes tell apart the strings that they are given for two requests. -/
def HashesApart (hostsubfolder : Bool) (XXH3_64bits : Bytes → UInt64) (r r' : Request) : Prop :=
  if hostsubfolder then
    ((XXH3_64bits (hostwithprotocol r)).toUInt32 = (XXH3_64bits (hostwithprotocol r')).toUInt32 →
      hostwithprotocol r = hostwithprotocol r') ∧
    (XXH3_64bits r.uri = XXH3_64bits r'.uri → r.uri = r'.uri)
  else
    XXH3_64bits (hostwithprotocol r ++ r.uri) = XXH3_64bits (hostwithprotocol r' ++ r'.uri) →
      hostwithprotocol r ++ r.uri = hostwithprotocol r' ++ r'.uri

/-- The host of the first, asked for over http, is the host of the second, asked
for over https, and the letter "s". -/
def Marked (r r' : Request) : Prop :=
  r.https = false ∧ r'.https = true ∧ r.host = r'.host ++ ascii "s"

def Glued (hostsubfolder : Bool) (r r' : Request) : Prop :=
  if hostsubfolder then r.uri = r'.uri ∧ (Marked r r' ∨ Marked r' r)
  else hostwithprotocol r ++ r.uri = hostwithprotocol r' ++ r'.uri

section Paths

variable {hostsubfolder : Bool} {XXH3_64bits : Bytes → UInt64} {r r' : Request}

theorem hostwithprotocol_eq_iff (differ : ¬SameUrl r r') (uri : r.uri = r'.uri) :
    hostwithprotocol r = hostwithprotocol r' ↔ Marked r r' ∨ Marked r' r := by
  have apart (scheme : r.https = r'.https) : r.host ≠ r'.host := fun host => differ ⟨scheme, host, uri⟩
  unfold hostwithprotocol Marked
  cases scheme : r.https with
  | false =>
    cases scheme' : r'.https with
    | false => simp [apart (scheme.trans scheme'.symm)]
    | true => simp
  | true =>
    cases scheme' : r'.https with
    | false => simp [eq_comm]
    | true => simp [apart (scheme.trans scheme'.symm)]

theorem cachePath_eq_iff (differ : ¬SameUrl r r')
    (apart : HashesApart hostsubfolder XXH3_64bits r r') :
    cachePath hostsubfolder XXH3_64bits r = cachePath hostsubfolder XXH3_64bits r' ↔
      Glued hostsubfolder r r' := by
  cases hostsubfolder with
  | true =>
    obtain ⟨hosts, uris⟩ := apart
    constructor
    · intro same
      obtain ⟨folder, file⟩ := List.append_inj (List.append_cancel_left same) rfl
      have uri := uris (hexa64_injective file)
      have host := hosts (hexa32_injective (List.append_cancel_right folder))
      exact ⟨uri, (hostwithprotocol_eq_iff differ uri).mp host⟩
    · rintro ⟨uri, marked⟩
      simp only [cachePath, (hostwithprotocol_eq_iff differ uri).mpr marked, uri]
  | false =>
    constructor
    · intro same
      exact apart (hexa64_injective (List.append_cancel_left same))
    · intro glued
      have key : hostwithprotocol r ++ r.uri = hostwithprotocol r' ++ r'.uri := glued
      simp only [cachePath, key]
      rfl

end Paths

section ShortKeys

def XXH3_kSecret : Bytes := [
  0xb8, 0xfe, 0x6c, 0x39, 0x23, 0xa4, 0x4b, 0xbe, 0x7c, 0x01, 0x81, 0x2c, 0xf7, 0x21, 0xad, 0x1c,
  0xde, 0xd4, 0x6d, 0xe9, 0x83, 0x90, 0x97, 0xdb, 0x72, 0x40, 0xa4, 0xa4, 0xb7, 0xb3, 0x67, 0x1f,
  0xcb, 0x79, 0xe6, 0x4e, 0xcc, 0xc0, 0xe5, 0x78, 0x82, 0x5a, 0xd0, 0x7d, 0xcc, 0xff, 0x72, 0x21,
  0xb8, 0x08, 0x46, 0x74, 0xf7, 0x43, 0x24, 0x8e, 0xe0, 0x35, 0x90, 0xe6, 0x81, 0x3a, 0x26, 0x4c,
  0x3c, 0x28, 0x52, 0xbb, 0x91, 0xc3, 0x00, 0xcb]

/-- `XXH_readLE32` and `XXH_readLE64`. -/
def readLE (width pos : ℕ) (s : Bytes) : UInt64 :=
  ((s.drop pos).take width).foldr (fun c value => value * 256 + c.toUInt64) 0

def swap64 (x : UInt64) : UInt64 :=
  (List.range 8).foldl (fun swapped i => swapped * 256 + x / UInt64.ofNat (256 ^ i) % 256) 0

def rotl64 (x : UInt64) (n : UInt64) : UInt64 := (x <<< n) ||| (x >>> (64 - n))

def XXH64_avalanche (h64 : UInt64) : UInt64 :=
  let h64 := (h64 ^^^ (h64 >>> 33)) * 0xC2B2AE3D27D4EB4F
  let h64 := (h64 ^^^ (h64 >>> 29)) * 0x165667B19E3779F9
  h64 ^^^ (h64 >>> 32)

def XXH3_avalanche (h64 : UInt64) : UInt64 :=
  let h64 := (h64 ^^^ (h64 >>> 37)) * 0x165667919E3779F9
  h64 ^^^ (h64 >>> 32)

def XXH3_rrmxmx (h64 len : UInt64) : UInt64 :=
  let h64 := (h64 ^^^ (rotl64 h64 49 ^^^ rotl64 h64 24)) * 0x9FB21C651E98DF25
  let h64 := (h64 ^^^ ((h64 >>> 35) + len)) * 0x9FB21C651E98DF25
  h64 ^^^ (h64 >>> 28)

def XXH3_mul128_fold64 (lhs rhs : UInt64) : UInt64 :=
  UInt64.ofNat (lhs.toNat * rhs.toNat) ^^^ UInt64.ofNat (lhs.toNat * rhs.toNat / 2 ^ 64)

/-- The hash of an input of at most 16 bytes, with the seed 0. -/
def XXH3_len_0to16_64b (input : Bytes) : UInt64 :=
  let secret (pos : ℕ) := readLE 8 pos XXH3_kSecret
  let len := input.length
  if 8 < len then
    let lo := readLE 8 0 input ^^^ (secret 24 ^^^ secret 32)
    let hi := readLE 8 (len - 8) input ^^^ (secret 40 ^^^ secret 48)
    XXH3_avalanche (UInt64.ofNat len + swap64 lo + hi + XXH3_mul128_fold64 lo hi)
  else if 4 ≤ len then
    let input64 := readLE 4 (len - 4) input + readLE 4 0 input <<< 32
    XXH3_rrmxmx (input64 ^^^ (secret 8 ^^^ secret 16)) (UInt64.ofNat len)
  else if 0 < len then
    let byte (pos : ℕ) := readLE 1 pos input
    let combined := byte 0 <<< 16 ||| byte (len / 2) <<< 24 ||| byte (len - 1) |||
      UInt64.ofNat len <<< 8
    XXH64_avalanche (combined ^^^ (readLE 4 0 XXH3_kSecret ^^^ readLE 4 4 XXH3_kSecret))
  else XXH64_avalanche (secret 56 ^^^ secret 64)

-- The values of the self-test that comes with the library.
example : XXH3_len_0to16_64b [] = 0x2D06800538D394C2 ∧
    XXH3_len_0to16_64b [0] = 0xC44BDFF4074EECDB ∧
    XXH3_len_0to16_64b [0, 82, 146, 155, 183, 50] = 0x27B56A84CD2D7325 ∧
    XXH3_len_0to16_64b [0, 82, 146, 155, 183, 50, 163, 36, 45, 0, 175, 149] = 0xA713DAF0DFBB77E7 := by
  decide

end ShortKeys

/-- Two requests for different urls have different cache files, except where the
strings glued together for them are the same. -/
theorem cache_key_separates_urls (hostsubfolder : Bool) (XXH3_64bits : Bytes → UInt64)
    (r r' : Request) (differ : ¬SameUrl r r')
    (apart : HashesApart hostsubfolder XXH3_64bits r r') :
    cachePath hostsubfolder XXH3_64bits r ≠ cachePath hostsubfolder XXH3_64bits r' ↔
      ¬Glued hostsubfolder r r' :=
  not_congr (cachePath_eq_iff differ apart)

theorem two_hosts_have_two_files : ∃ r r' : Request, r.uri = r'.uri ∧
    cachePath true XXH3_len_0to16_64b r ≠ cachePath true XXH3_len_0to16_64b r' := by
  let r : Request := ⟨false, ascii "a.com", ascii "/x", []⟩
  let r' : Request := ⟨false, ascii "b.com", ascii "/x", []⟩
  have differ : ¬SameUrl r r' := by
    unfold SameUrl
    decide
  have hosts : (XXH3_len_0to16_64b (hostwithprotocol r)).toUInt32 ≠
      (XXH3_len_0to16_64b (hostwithprotocol r')).toUInt32 := by
    decide
  have apart : HashesApart true XXH3_len_0to16_64b r r' := ⟨fun same => absurd same hosts, fun _ => rfl⟩
  have free : ¬Glued true r r' := by
    unfold Glued Marked
    decide
  exact ⟨r, r', rfl, (cache_key_separates_urls true XXH3_len_0to16_64b r r' differ apart).mpr free⟩

set_option maxRecDepth 8192 in
/-- In both layouts a site asked for over http shares its cache file with another
one asked for over https, whatever the hash. -/
theorem http_host_shares_file_with_https_host : ∃ r r' : Request,
    (readyToRead .new ⟨requestOf [(ascii "HTTP_HOST", ascii "x"),
      (ascii "REQUEST_URI", ascii "/a.coms/x")], fun _ => 0⟩).2 = .download r ∧
    (readyToRead .new ⟨requestOf [(ascii "HTTP_HOST", ascii "x"),
      (ascii "REQUEST_URI", ascii "/a.com/x"), (ascii "REQUEST_SCHEME", ascii "https")],
      fun _ => 0⟩).2 = .download r' ∧
    ¬SameUrl r r' ∧ ∀ hostsubfolder XXH3_64bits, HashesApart hostsubfolder XXH3_64bits r r' ∧
      cachePath hostsubfolder XXH3_64bits r = cachePath hostsubfolder XXH3_64bits r' := by
  let r : Request := ⟨false, ascii "a.coms", ascii "/x", []⟩
  let r' : Request := ⟨true, ascii "a.com", ascii "/x", []⟩
  have differ : ¬SameUrl r r' := by
    unfold SameUrl
    decide
  have host : hostwithprotocol r = hostwithprotocol r' := by decide
  have key : hostwithprotocol r ++ r.uri = hostwithprotocol r' ++ r'.uri := congrArg (· ++ r.uri) host
  refine ⟨r, r', by decide, by decide, differ, fun hostsubfolder XXH3_64bits => ?_⟩
  have apart : HashesApart hostsubfolder XXH3_64bits r r' := by
    cases hostsubfolder with
    | true => exact ⟨fun _ => host, fun _ => rfl⟩
    | false => exact fun _ => key
  have glued : Glued hostsubfolder r r' := by
    cases hostsubfolder with
    | true => exact ⟨rfl, .inl ⟨rfl, rfl, by decide⟩⟩
    | false => exact key
  exact ⟨apart, (cachePath_eq_iff differ apart).mpr glued⟩

end FastCgiCdn.CacheKeys
