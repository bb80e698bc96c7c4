import FastCgiCdn.FastCgiRecords

/-! `Client::readyToRead` from the bytes of a read to the download it starts: the
three ways in which a host is named, what is answered at once, and the path of
the cache file. Positions in strings are `size_t`, where `npos` is the greatest
one and a difference wraps round. The build defines `DEBUGDNS`. -/

namespace FastCgiCdn.ClientModel

open HttpModel FastCgiRecords

structure Request where
  https : Bool
  host : Bytes
  uri : Bytes
  ifNoneMatch : Bytes
  deriving DecidableEq, Repr

/-- What a call comes to. Every answer ends the connection. -/
inductive Reading
  | ignored
  | refused
  | waits
  | answered (text : Bytes)
  /-- The page of the host "debug.m3MM7UcOEr3qP3ZK". -/
  | statistics
  | download (r : Request)
  deriving DecidableEq, Repr

def npos : ℕ := 2 ^ 64 - 1

def sizeSub (a b : ℕ) : ℕ := (a + 2 ^ 64 - b) % 2 ^ 64

def rfind (s text : Bytes) : ℕ :=
  ((List.range (s.length + 1)).reverse.find? fun i => (s.drop i).take text.length = text).getD npos

/-- `find("/", 1)`. -/
def findSlash (s : Bytes) : ℕ :=
  ((List.range s.length).find? fun i => 1 ≤ i && s[i]? = some 47).getD npos

/-- The host is the first component of the path, when that has two bytes. `none`
is a path with no second component. -/
def fromPath (host uri : Bytes) : Option (Bytes × Bytes) :=
  if findSlash uri ≠ npos then
    some (if 2 < findSlash uri then ((uri.drop 1).take (findSlash uri - 1), uri.drop (findSlash uri))
      else (host, uri))
  else none

/-- The host is a hexadecimal label in front of "cdn", or is in the path when
there is none. -/
def fromLabel (hostb : Bytes) (markb : ℕ) (host uri : Bytes) : Option (Bytes × Bytes) :=
  if 1 < markb then some (Common.hexaToBinary (hostb.take (markb - 1)), uri)
  else if markb = 0 then fromPath host uri
  else some (host, uri)

/-- In a host too short for the suffix by one byte `rfind` and the wrapped
difference are both `npos`. -/
def endsWith (s text : Bytes) : Bool := rfind s text = sizeSub s.length text.length

def site (host uri : Bytes) : Option (Bytes × Bytes) :=
  if endsWith host (ascii ".confiared.com") || endsWith host (ascii ".bolivia-online.com") then
    let hostb :=
      if endsWith host (ascii ".confiared.com") then host.take (sizeSub host.length 14)
      else host.take (sizeSub host.length 19)
    if endsWith hostb (ascii "cdn") then fromLabel hostb (sizeSub hostb.length 3) host uri
    else if endsWith hostb (ascii "cdn1") || endsWith hostb (ascii "cdn2") ||
        endsWith hostb (ascii "cdn3") then
      fromLabel hostb (sizeSub hostb.length 4) host uri
    else some (host, uri)
  else fromPath host uri

def plainText : Bytes := ascii "X-Robots-Tag: noindex, nofollow\r\nContent-type: text/plain\r\n\r\n"

def badUsage : Bytes := plainText ++ ascii "CDN bad usage: contact@confiared.com"

/-- What `loadUrl` does before it looks for the download. -/
def loadUrl (r : Request) : Reading :=
  if r.host = [] then .answered badUsage
  else if r.host = ascii "debug.m3MM7UcOEr3qP3ZK" then .statistics
  else .download r

def dispatch (c : Client) (ifNoneMatch : Bytes) : Reading :=
  if c.uri = ascii "/robots.txt" then .answered (plainText ++ ascii "User-agent: *\r\nDisallow: /")
  else if c.uri = ascii "/favicon.ico" then .answered (plainText ++ ascii "Dropped for now")
  else match site c.host c.uri with
    | none => .answered badUsage
    | some (host, uri) =>
      loadUrl ⟨c.https || endsWith c.host (ascii ".bolivia-online.com"), host, uri, ifNoneMatch⟩

def readyToRead (c : Client) (r : Read) : Client × Reading :=
  if c.fullyParsed || !c.isValid || r.data.isEmpty then (c, .ignored)
  else
    match (records (r.buffer []) r.data.length).run
        ⟨{ c with https := false, uri := [], host := [] }, [], 0⟩ with
    | .refused => (c.disconnect, .refused)
    | .antiLoop => (c.disconnect, .answered (plainText ++ ascii "Anti loop protection"))
    | .parsed s =>
      if s.client.fullyParsed then
        match dispatch s.client s.ifNoneMatch with
        | .download r => ({ s.client with https := r.https, host := r.host, uri := r.uri }, .download r)
        | reading => (s.client.disconnect, reading)
      else (s.client, .waits)

theorem loadUrl_download {r r' : Request} (leads : loadUrl r = .download r') :
    r' = r ∧ r.host ≠ [] := by
  unfold loadUrl at leads
  split at leads
  · cases leads
  · rename_i named
    split at leads
    · cases leads
    · exact ⟨(Reading.download.inj leads).symm, named⟩

theorem dispatch_download {c : Client} {ifNoneMatch : Bytes} {r : Request}
    (leads : dispatch c ifNoneMatch = .download r) : r.host ≠ [] := by
  unfold dispatch at leads
  split at leads
  · cases leads
  · split at leads
    · cases leads
    · split at leads
      · cases leads
      · obtain ⟨rfl, named⟩ := loadUrl_download leads
        exact named

theorem download_host {c : Client} {read : Read} {r : Request}
    (leads : (readyToRead c read).2 = .download r) : r.host ≠ [] := by
  unfold readyToRead at leads
  split at leads
  · cases leads
  · split at leads
    · cases leads
    · cases leads
    · split at leads
      · split at leads
        · rename_i dispatched
          obtain rfl := Reading.download.inj leads
          exact dispatch_download dispatched
        · exact dispatch_download leads
      · cases leads

def hostwithprotocol (r : Request) : Bytes := if r.https then r.host ++ ascii "s" else r.host

def littleEndian : ℕ → ℕ → Bytes
  | 0, _ => []
  | n + 1, value => UInt8.ofNat value :: littleEndian n (value / 256)

/-- The path of the cache file, which `loadUrl` and `dnsRight` build alike. The
flat cache hashes the host and the path as one stream. -/
def cachePath (hostsubfolder : Bool) (XXH3_64bits : Bytes → UInt64) (r : Request) : Bytes :=
  ascii "cache/" ++
    if hostsubfolder then
      Common.binarytoHexa (littleEndian 4 (XXH3_64bits (hostwithprotocol r)).toUInt32.toNat) ++
        ascii "/" ++ Common.binarytoHexa (littleEndian 8 (XXH3_64bits r.uri).toNat)
    else Common.binarytoHexa (littleEndian 8 (XXH3_64bits (hostwithprotocol r ++ r.uri)).toNat)

end FastCgiCdn.ClientModel
