import Mathlib.Data.UInt
import Mathlib.Tactic.Common

/-! The format of FastCGI records: a header of eight bytes, the content, and a padding that
means nothing. The content of a record with parameters is a list of pairs. -/

namespace FastCgiCdn.RecordFormat

/-- The size of a name or of a value. Four bytes may stand where one would do. -/
def sizeBytes (long : Bool) (n : ℕ) : List UInt8 :=
  if long = true ∨ 127 < n then
    [UInt8.ofNat (128 + n / 2 ^ 24), UInt8.ofNat (n / 65536), UInt8.ofNat (n / 256), UInt8.ofNat n]
  else [UInt8.ofNat n]

theorem sizeBytes_pos (long : Bool) (n : ℕ) : 0 < (sizeBytes long n).length := by
  unfold sizeBytes
  split <;> exact Nat.succ_pos _

def pairBytes (nameLong valueLong : Bool) (name value : List UInt8) : List UInt8 :=
  sizeBytes nameLong name.length ++ (sizeBytes valueLong value.length ++ (name ++ value))

def recordBytes (kind : UInt8) (id : ℕ) (content padding : List UInt8) (reserved : UInt8) :
    List UInt8 :=
  [1, kind, UInt8.ofNat (id / 256), UInt8.ofNat id, UInt8.ofNat (content.length / 256),
    UInt8.ofNat content.length, UInt8.ofNat padding.length, reserved] ++ (content ++ padding)

theorem length_recordBytes (kind : UInt8) (id : ℕ) (content padding : List UInt8)
    (reserved : UInt8) : (recordBytes kind id content padding reserved).length =
      8 + (content.length + padding.length) := by
  simp only [recordBytes, List.length_append, List.length_cons, List.length_nil]

/-- A record without padding. -/
def plainBytes (kind : UInt8) (id : ℕ) (content : List UInt8) : List UInt8 :=
  recordBytes kind id content [] 0

theorem plainBytes_eq (kind : UInt8) (id : ℕ) (content : List UInt8) :
    plainBytes kind id content = [1, kind, UInt8.ofNat (id / 256), UInt8.ofNat id,
      UInt8.ofNat (content.length / 256), UInt8.ofNat content.length, 0, 0] ++ content := by
  rw [plainBytes, recordBytes, List.append_nil]
  rfl

theorem high_low {n : ℕ} (small : n < 65536) :
    (UInt8.ofNat (n / 256)).toNat * 256 + (UInt8.ofNat n).toNat = n := by
  rw [UInt8.toNat_ofNat', UInt8.toNat_ofNat']
  omega

end FastCgiCdn.RecordFormat
