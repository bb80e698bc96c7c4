import FastCgiCdn.ChunkCuts
import FastCgiCdn.Numerals

/-! Chunked encoding, and that `Http::write` undoes it when it is given the whole
body at once. -/

namespace FastCgiCdn.ChunkRoundTrip

open ChunkCuts ChunkDecoder ChunkFraming Common HttpModel Numerals

structure Size where
  digits : Bytes
  extension : Bytes
  some_digits : digits ≠ []
  hex : ∀ c ∈ digits, (hexToDecUnit c).isSome
  semicolon : ∀ c ∈ extension.head?, c = 59
  line : ∀ c ∈ extension, c ≠ CR ∧ c ≠ LF

namespace Size

def bytes (s : Size) : Bytes := s.digits ++ s.extension ++ [CR, LF]

def value (s : Size) : ℕ := numeral 16 s.digits

end Size

/-- A chunk fits in memory. -/
structure Chunk where
  size : Size
  data : Bytes
  some_data : data ≠ []
  announced : size.value = data.length
  fits : data.length < 2 ^ 63

def Chunk.bytes (c : Chunk) : Bytes := c.size.bytes ++ c.data ++ [CR, LF]

/-- The chunks, the last chunk and a trailer. -/
def encode (chunks : List Chunk) (last : Size) (trailer : Bytes) : Bytes :=
  chunks.flatMap Chunk.bytes ++ last.bytes ++ trailer

theorem hexToDecUnit_lt {c : Byte} {digit : ℕ} (read : hexToDecUnit c = some digit) :
    digit < 16 := by
  have upper (a : Byte) (order : c ≤ a) : c.toNat ≤ a.toNat := order
  have nine := upper 57
  have greatF := upper 70
  have smallF := upper 102
  simp only [UInt8.reduceToNat] at nine greatF smallF
  unfold hexToDecUnit at read
  split at read
  · cases read
  · split at read
    · obtain rfl := Option.some.inj read
      have bound := nine ‹_›
      omega
    · split at read
      · cases read
      · split at read
        · obtain rfl := Option.some.inj read
          have bound := greatF ‹_›
          omega
        · split at read
          · cases read
          · split at read
            · obtain rfl := Option.some.inj read
              have bound := smallF ‹_›
              omega
            · cases read

theorem sizeLine_of_size (s : Size) (small : s.value < 2 ^ 63) :
    SizeLine (s.digits ++ s.extension) s.value := by
  have clean : ∀ c ∈ s.digits, IsDigit 16 c := by
    intro c member
    obtain ⟨digit, read⟩ := Option.isSome_iff_exists.mp (s.hex c member)
    exact ⟨digit, read, hexToDecUnit_lt read⟩
  exact ⟨⟨s.digits, s.extension, rfl, s.some_digits, s.hex, digitsValue_numeral clean, s.semicolon,
    fun c member => (s.line c member).symm⟩, small⟩

theorem chunked_encode (chunks : List Chunk) (last : Size) (zero : last.value = 0)
    (trailer : Bytes) : Chunked (encode chunks last trailer) (chunks.flatMap Chunk.data) := by
  induction chunks with
  | nil =>
    have line := sizeLine_of_size last (by rw [zero]; decide)
    rw [zero] at line
    have body : encode [] last trailer =
        (last.digits ++ last.extension) ++ CR :: LF :: trailer := by
      simp [encode, Size.bytes]
    rw [body]
    exact .last trailer line
  | cons c chunks ih =>
    have line := sizeLine_of_size c.size (by rw [c.announced]; exact c.fits)
    rw [c.announced] at line
    have body : encode (c :: chunks) last trailer =
        (c.size.digits ++ c.size.extension) ++
          CR :: LF :: (c.data ++ CR :: LF :: encode chunks last trailer) := by
      simp [encode, Chunk.bytes, Size.bytes]
    rw [body, List.flatMap_cons]
    exact .chunk line c.some_data ih

/-- One call of `write` with the whole encoded body, from the state at the end of
the head, adds the data of the chunks to the file and ends the download. -/
theorem write_undoes_encoding (h : Http) (going : h.endDetected = false)
    (stored : h.tempCache.isSome) (accepted : h.http_code = 200) (unsized : h.contentsize < 0)
    (chunkLength : h.chunkLength = -1) (chunkHeader : h.chunkHeader = []) (chunks : List Chunk)
    (last : Size) (zero : last.value = 0) (trailer : Bytes) (behind : Byte) :
    (h.write ⟨encode chunks last trailer, behind⟩).1.endDetected = true ∧
      (h.write ⟨encode chunks last trailer, behind⟩).1.tempCache.map Cache.asked =
        h.tempCache.map fun c => c.asked ++ chunks.flatMap Chunk.data := by
  have live : Live h := ⟨going, stored, by omega, unsized⟩
  have start : view h = image (.line 0 []) := by
    rw [view, going, chunkLength, chunkHeader]
    rfl
  obtain ⟨ended, emitted⟩ := (chunked_encode chunks last zero trailer).read
  have received := write_receives live (.line 0) start ⟨encode chunks last trailer, behind⟩
  have read : reading (.line 0 []) (encode chunks last trailer) =
      (⟨true, 0, []⟩, chunks.flatMap Chunk.data) := by
    rw [reading, ended, emitted]
    rfl
  rw [read] at received
  constructor
  · exact congrArg View.endDetected (received.view_eq live)
  · rw [received.asked, Option.map_map]
    rfl

set_option maxRecDepth 2048 in
def hello : Chunk where
  size := ⟨ascii "05", ascii ";x", by decide, by decide, by decide, by decide⟩
  data := ascii "hello"
  some_data := by decide
  announced := by decide
  fits := by decide

set_option maxRecDepth 2048 in
def lastSize : Size := ⟨ascii "00", [], by decide, by decide, by decide, by decide⟩

set_option maxRecDepth 2048 in
theorem hello_is_decoded :
    (storing.write ⟨encode [hello] lastSize (ascii "a: b\r\n\r\n"), 0⟩).1.endDetected = true ∧
    (storing.write ⟨encode [hello] lastSize (ascii "a: b\r\n\r\n"), 0⟩).1.tempCache.map
      Cache.asked = storing.tempCache.map fun c => c.asked ++ [hello].flatMap Chunk.data :=
  write_undoes_encoding storing rfl rfl rfl (by decide) rfl rfl [hello] lastSize (by decide) _ 0

end FastCgiCdn.ChunkRoundTrip
