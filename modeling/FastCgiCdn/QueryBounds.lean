import FastCgiCdn.ClientModel
import FastCgiCdn.QueryEncoding

/-! How long the query of a client's host can get. `Dns::get` has no check of its own: the
host comes out of one read of a bounded size, behind a record header, two sizes and a
name. -/

namespace FastCgiCdn.QueryBounds

open ClientModel DnsModel FastCgiRecords HttpModel MeasuredLoop QueryEncoding

section Parsing

variable {buff : Buffer} {size pos : ℕ}

/-- The strings that a host comes from, with room for what is in front of them. -/
structure Bounded (size : ℕ) (c : Client) : Prop where
  host : c.host.length ≤ size - 19
  uri : c.uri.length ≤ size - 19

theorem length_span (start stop : ℕ) : (span buff start stop).length = stop - start := by
  rw [span, List.length_map, List.length_range']

theorem takeParam_bounded {varSize valSize : ℕ} {s : Scan} (behind : 10 ≤ pos)
    (fits : pos + (varSize + valSize) ≤ size) (bounded : Bounded size s.client) :
    Bounded size (takeParam buff pos varSize valSize s).client := by
  have value : (span buff (pos + varSize) (pos + varSize + valSize)).length = valSize := by
    rw [length_span, Nat.add_sub_cancel_left]
  unfold takeParam
  simp only [Bool.and_eq_true, decide_eq_true_eq]
  split
  · rename_i named
    refine ⟨?_, bounded.uri⟩
    dsimp only
    omega
  · split
    · rename_i named
      refine ⟨bounded.host, ?_⟩
      dsimp only
      omega
    · split
      · exact ⟨bounded.host, bounded.uri⟩
      · split
        · exact bounded
        · exact bounded

theorem params_bounded (contentLenghtAbs : ℕ) (s : Scan) :
    8 ≤ s.pos → Bounded size s.client →
      ∀ t, (params buff size contentLenghtAbs).run s = .parsed t → Bounded size t.client := by
  apply (params buff size contentLenghtAbs).run_induct (P := fun s end_ =>
    8 ≤ s.pos → Bounded size s.client → ∀ t, end_ = .parsed t → Bounded size t.client)
  case stops =>
    rintro s _ taken - bounded t rfl
    change paramsBody buff size contentLenghtAbs s = _ at taken
    unfold paramsBody at taken
    split at taken
    · split at taken
      · cases taken
      · split at taken
        · cases taken
        · split at taken <;> cases taken
    · cases taken
      exact bounded
  case goes =>
    intro s t taken later behind bounded
    change paramsBody buff size contentLenghtAbs s = _ at taken
    unfold paramsBody at taken
    split at taken
    · split at taken
      · cases taken
      · rename_i varSize valSize pos sizes
        split at taken
        · cases taken
        · split at taken
          · cases taken
          · rename_i next added
            cases taken
            have read := readSizes_bound sizes
            have bound := canAddToPos_bound added
            refine later ?_ (takeParam_bounded (by omega) (by omega) bounded)
            dsimp only
            omega
    · cases taken

theorem recordStart_client {c d : Client} {var8 next : ℕ}
    (started : recordStart buff size c pos = some (d, var8, next)) : d.host = c.host ∧ d.uri = c.uri := by
  obtain ⟨⟨version, p⟩, -, rest⟩ := Option.bind_eq_some_iff.mp started
  dsimp only at rest
  split at rest
  · cases rest
  · obtain ⟨⟨kind, q⟩, -, rest⟩ := Option.bind_eq_some_iff.mp rest
    dsimp only at rest
    split at rest
    · split at rest
      · cases rest
      · obtain ⟨⟨var16, r⟩, -, same⟩ := Option.map_eq_some_iff.mp rest
        cases same
        exact ⟨rfl, rfl⟩
    · split at rest
      · cases rest
      · obtain ⟨⟨var16, r⟩, -, rest⟩ := Option.bind_eq_some_iff.mp rest
        dsimp only at rest
        split at rest
        · cases rest
        · cases rest
          exact ⟨rfl, rfl⟩

theorem recordHeader_client {c : Client} {h : Header} (read : recordHeader buff size c pos = some h) :
    h.client.host = c.host ∧ h.client.uri = c.uri := by
  obtain ⟨⟨d, var8, p⟩, first, rest⟩ := Option.bind_eq_some_iff.mp read
  obtain ⟨⟨contentLenght, q⟩, -, rest⟩ := Option.bind_eq_some_iff.mp rest
  obtain ⟨⟨paddingLength, r⟩, -, rest⟩ := Option.bind_eq_some_iff.mp rest
  obtain ⟨last, -, rfl⟩ := Option.map_eq_some_iff.mp rest
  exact recordStart_client first

theorem record_bounded {s t : Scan} (bounded : Bounded size s.client)
    (read : record buff size s = .parsed t) : Bounded size t.client := by
  unfold record at read
  split at read
  · cases read
  · rename_i h header
    have behind := recordHeader_bound buff size header
    have same := recordHeader_client header
    have kept : Bounded size h.client := ⟨same.1 ▸ bounded.host, same.2 ▸ bounded.uri⟩
    split at read
    · split at read
      · rename_i u parsed
        have inside := params_bounded (h.contentLenght + h.pos) { s with client := h.client, pos := h.pos }
          (show 8 ≤ h.pos by omega) kept u parsed
        split at read
        · cases read
        · cases read
          exact inside
      · rename_i fault
        exact absurd read (fault t)
    · split at read
      · cases read
      · cases read
        exact ⟨kept.host, kept.uri⟩

theorem records_bounded (s : Scan) : Bounded size s.client →
    ∀ t, (records buff size).run s = .parsed t → Bounded size t.client := by
  apply (records buff size).run_induct (P := fun s end_ =>
    Bounded size s.client → ∀ t, end_ = .parsed t → Bounded size t.client)
  case stops =>
    rintro s _ taken bounded t rfl
    change recordsBody buff size s = _ at taken
    unfold recordsBody at taken
    split at taken
    · rename_i u read
      split at taken
      · cases taken
      · cases taken
        exact record_bounded bounded read
    · rename_i fault
      exact absurd (Outcome.stop.inj taken) (fault t)
  case goes =>
    intro s t taken later bounded
    change recordsBody buff size s = _ at taken
    unfold recordsBody at taken
    split at taken
    · rename_i u read
      split at taken
      · cases taken
        exact later (record_bounded bounded read)
      · cases taken
    · cases taken

end Parsing

section Site

variable {n : ℕ} {host uri : Bytes} {found : Bytes × Bytes}

theorem length_hexPairs (hexa : Bytes) {r : Bytes} (read : Common.hexPairs hexa = some r) :
    r.length ≤ hexa.length := by
  induction hexa using Common.hexPairs.induct generalizing r with
  | case1 c1 c2 rest ih =>
    obtain ⟨d1, -, read⟩ := Option.bind_eq_some_iff.mp read
    obtain ⟨d2, -, read⟩ := Option.bind_eq_some_iff.mp read
    obtain ⟨more, pairs, rfl⟩ := Option.map_eq_some_iff.mp read
    have shorter := ih pairs
    simp only [List.length_cons]
    omega
  | case2 hexa short =>
    rw [Common.hexPairs] at read
    · cases read
      exact Nat.zero_le _
    · exact short

theorem length_hexaToBinary (hexa : Bytes) : (Common.hexaToBinary hexa).length ≤ hexa.length := by
  unfold Common.hexaToBinary
  split
  · exact Nat.zero_le _
  · cases read : Common.hexPairs hexa with
    | none => exact Nat.zero_le _
    | some r => exact length_hexPairs hexa read

theorem fromPath_bounded (named : host.length ≤ n) (addressed : uri.length ≤ n)
    (leads : fromPath host uri = some found) : found.1.length ≤ n := by
  unfold fromPath at leads
  split at leads
  · obtain rfl := Option.some.inj leads
    split
    · have shorter := List.length_take_le' (findSlash uri - 1) (uri.drop 1)
      rw [List.length_drop] at shorter
      dsimp only
      omega
    · exact named
  · cases leads

theorem fromLabel_bounded {hostb : Bytes} {markb : ℕ} (front : hostb.length ≤ n)
    (named : host.length ≤ n) (addressed : uri.length ≤ n)
    (leads : fromLabel hostb markb host uri = some found) : found.1.length ≤ n := by
  unfold fromLabel at leads
  split at leads
  · obtain rfl := Option.some.inj leads
    have decoded := length_hexaToBinary (hostb.take (markb - 1))
    have shorter := List.length_take_le' (markb - 1) hostb
    dsimp only
    omega
  · split at leads
    · exact fromPath_bounded named addressed leads
    · obtain rfl := Option.some.inj leads
      exact named

theorem site_bounded (named : host.length ≤ n) (addressed : uri.length ≤ n)
    (leads : site host uri = some found) : found.1.length ≤ n := by
  unfold site at leads
  split at leads
  · have front : (if endsWith host (ascii ".confiared.com") then host.take (sizeSub host.length 14)
        else host.take (sizeSub host.length 19)).length ≤ n := by
      split
      · exact (List.length_take_le' _ host).trans named
      · exact (List.length_take_le' _ host).trans named
    dsimp only at leads
    generalize (if endsWith host (ascii ".confiared.com") then host.take (sizeSub host.length 14)
      else host.take (sizeSub host.length 19)) = hostb at leads front
    split at leads
    · exact fromLabel_bounded front named addressed leads
    · split at leads
      · exact fromLabel_bounded front named addressed leads
      · obtain rfl := Option.some.inj leads
        exact named
  · exact fromPath_bounded named addressed leads

end Site

theorem dispatch_bounded {n : ℕ} {c : Client} {ifNoneMatch : Bytes} {q : Request}
    (named : c.host.length ≤ n) (addressed : c.uri.length ≤ n)
    (leads : dispatch c ifNoneMatch = .download q) : q.host.length ≤ n := by
  unfold dispatch at leads
  split at leads
  · cases leads
  · split at leads
    · cases leads
    · split at leads
      · cases leads
      · rename_i host uri found
        obtain ⟨rfl, -⟩ := loadUrl_download leads
        exact site_bounded named addressed found

theorem download_bounded {c : Client} {r : Read} {q : Request}
    (leads : (readyToRead c r).2 = .download q) : q.host.length ≤ r.data.length - 19 := by
  unfold readyToRead at leads
  split at leads
  · cases leads
  · split at leads
    · cases leads
    · cases leads
    · rename_i s parsed
      have bounded : Bounded r.data.length s.client :=
        records_bounded _ ⟨Nat.zero_le _, Nat.zero_le _⟩ s parsed
      split at leads
      · split at leads
        · rename_i q' decided
          obtain rfl := Reading.download.inj leads
          exact dispatch_bounded bounded.host bounded.uri decided
        · rename_i reading other
          exact absurd leads (other q)
      · cases leads

/-- Whatever a read of at most 4096 bytes leads to, its query is written into the first
4096 bytes of the buffer. -/
theorem query_fits_buffer (c : Client) (r : Read) (q : Request) (small : r.data.length ≤ 4096)
    (leads : (readyToRead c r).2 = .download q) (id : ℕ) (buffer : Memory) :
    (writeQuery id q.host buffer).pos ≤ 4096 ∧
      ∀ i, 4096 ≤ i → (writeQuery id q.host buffer).buffer i = buffer i := by
  have host := download_bounded leads
  have some_host := List.length_pos_iff.mpr (download_host leads)
  have length := length_encodeQuery id q.host
  have fits : (Dns.encodeQuery id q.host).length ≤ 4096 := by omega
  rw [writeQuery_eq]
  refine ⟨?_, fun i behind => ?_⟩
  · change 0 + (Dns.encodeQuery id q.host).length ≤ 4096
    omega
  · have front : 0 + (Dns.encodeQuery id q.host).length ≤ i := by omega
    exact store_behind (Dns.encodeQuery id q.host) front

def pageRead : Read :=
  ⟨requestOf [(ascii "HTTP_HOST", ascii "x"), (ascii "REQUEST_URI", ascii "/a.com/x")], fun _ => 0⟩

set_option maxRecDepth 8192 in
theorem page_query_fits_buffer : (writeQuery 1 (ascii "a.com") fun _ => 0).pos ≤ 4096 ∧
    ∀ i, 4096 ≤ i → (writeQuery 1 (ascii "a.com") fun _ => 0).buffer i = 0 :=
  query_fits_buffer .new pageRead ⟨false, ascii "a.com", ascii "/x", []⟩ (by decide) (by decide) 1
    fun _ => 0

end FastCgiCdn.QueryBounds
