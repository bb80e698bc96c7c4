import FastCgiCdn.ClientModel

/-! The suffix tests on the host of a request. `rfind` and the difference of the sizes are
both `npos` for a string that is one byte shorter than the suffix. -/

namespace FastCgiCdn.SuffixTests

open ClientModel FastCgiRecords HttpModel

section Rfind

variable {s text : Bytes} {i : ℕ}

def At (s text : Bytes) (i : ℕ) : Prop := (s.drop i).take text.length = text

instance : Decidable (At s text i) := inferInstanceAs (Decidable (_ = _))

theorem rfind_eq (s text : Bytes) :
    rfind s text = ((List.range (s.length + 1)).reverse.find? fun i => At s text i).getD npos := rfl

theorem At.fits (here : At s text i) : text.length ≤ s.length - i := by
  have length := congrArg List.length here
  rw [List.length_take, List.length_drop] at length
  omega

theorem at_end_iff (fits : text.length ≤ s.length) :
    At s text (s.length - text.length) ↔ text <:+ s := by
  have length : (s.drop (s.length - text.length)).length = text.length := by
    rw [List.length_drop]
    omega
  rw [At, List.take_of_length_le (Nat.le_of_eq length), List.suffix_iff_eq_drop]
  exact eq_comm

theorem find_last {p : ℕ → Bool} {n : ℕ} (inside : i < n) (here : p i = true)
    (none_later : ∀ j, i < j → j < n → p j = false) : (List.range n).reverse.find? p = some i := by
  induction n with
  | zero => exact absurd inside (Nat.not_lt_zero i)
  | succ n ih =>
    rw [List.range_succ, List.reverse_append, List.reverse_singleton, List.singleton_append]
    by_cases last : i = n
    · rw [← last, List.find?_cons_of_pos here]
    · have missed := none_later n (by omega) (Nat.lt_succ_self n)
      rw [List.find?_cons_of_neg (Bool.eq_false_iff.mp missed)]
      exact ih (by omega) fun j behind front => none_later j behind (Nat.lt_succ_of_lt front)

theorem rfind_suffix (ends : text <:+ s) : rfind s text = s.length - text.length := by
  have fits := ends.length_le
  have found : (List.range (s.length + 1)).reverse.find? (fun i => At s text i) =
      some (s.length - text.length) := by
    apply find_last
    · omega
    · exact decide_eq_true ((at_end_iff fits).mpr ends)
    · intro j behind _
      refine decide_eq_false fun here => ?_
      have room := At.fits here
      omega
  rw [rfind_eq, found]
  rfl

theorem rfind_cases (s text : Bytes) : rfind s text = npos ∨ At s text (rfind s text) := by
  rw [rfind_eq]
  cases found : (List.range (s.length + 1)).reverse.find? fun i => At s text i with
  | none => exact .inl rfl
  | some i =>
    have here := List.find?_some found
    exact .inr (of_decide_eq_true here)

theorem rfind_long (long : s.length < text.length) : rfind s text = npos := by
  rcases rfind_cases s text with none | here
  · exact none
  · have room := At.fits here
    omega

/-- The test is wrong for a string that is one byte shorter than the suffix. -/
theorem endsWith_iff (sized : s.length < 2 ^ 64) (filled : text ≠ []) (few : text.length < 2 ^ 64) :
    endsWith s text = true ↔ text <:+ s ∨ s.length + 1 = text.length := by
  have some_bytes := List.length_pos_iff.mpr filled
  unfold endsWith
  rw [decide_eq_true_iff]
  by_cases fits : text.length ≤ s.length
  · have difference : sizeSub s.length text.length = s.length - text.length := by
      unfold sizeSub
      omega
    rw [difference]
    constructor
    · intro same
      rcases rfind_cases s text with none | here
      · unfold npos at none
        omega
      · rw [same] at here
        exact .inl ((at_end_iff fits).mp here)
    · rintro (ends | short)
      · exact rfind_suffix ends
      · omega
  · have difference : sizeSub s.length text.length = s.length + 2 ^ 64 - text.length := by
      unfold sizeSub
      omega
    rw [rfind_long (by omega), difference]
    unfold npos
    constructor
    · exact fun same => .inr (by omega)
    · rintro (ends | short)
      · exact absurd ends.length_le fits
      · omega

end Rfind

section Hosts

def confiared : Bytes := ascii ".confiared.com"

def bolivia : Bytes := ascii ".bolivia-online.com"

def isCdnHost (host : Bytes) : Bool := endsWith host confiared || endsWith host bolivia

def isCdnName (hostb : Bytes) : Bool :=
  endsWith hostb (ascii "cdn") || (endsWith hostb (ascii "cdn1") || endsWith hostb (ascii "cdn2") ||
    endsWith hostb (ascii "cdn3"))

def NumberedCdn (front : Bytes) : Prop :=
  ascii "cdn1" <:+ front ∨ ascii "cdn2" <:+ front ∨ ascii "cdn3" <:+ front

instance (front : Bytes) : Decidable (NumberedCdn front) := inferInstanceAs (Decidable (_ ∨ _ ∨ _))

/-- What stands in front of a suffix. -/
def without (s text : Bytes) : Bytes := s.take (s.length - text.length)

def wantedLabel (label host uri : Bytes) : Option (Bytes × Bytes) :=
  if 1 < label.length then some (Common.hexaToBinary label.dropLast, uri)
  else if label = [] then fromPath host uri
  else some (host, uri)

def wantedName (front host uri : Bytes) : Option (Bytes × Bytes) :=
  if ascii "cdn" <:+ front then wantedLabel (without front (ascii "cdn")) host uri
  else if NumberedCdn front then wantedLabel (without front (ascii "cdn1")) host uri
  else some (host, uri)

def wantedSite (host uri : Bytes) : Option (Bytes × Bytes) :=
  if confiared <:+ host then wantedName (without host confiared) host uri
  else if bolivia <:+ host then wantedName (without host bolivia) host uri
  else fromPath host uri

structure Exact (host : Bytes) : Prop where
  host_test : isCdnHost host = true ↔ confiared <:+ host ∨ bolivia <:+ host
  name_test : ∀ front, host = front ++ confiared ∨ host = front ++ bolivia →
    (isCdnName front = true ↔ ascii "cdn" <:+ front ∨ NumberedCdn front)
  https_test : endsWith host bolivia = true ↔ bolivia <:+ host
  rewritten : ∀ uri, site host uri = wantedSite host uri

/-- No string that is tested is one byte shorter than a suffix. -/
def Unmistaken (host : Bytes) : Prop :=
  host.length ≠ 13 ∧ host.length ≠ 18 ∧ ∀ front, host = front ++ confiared ∨ host = front ++ bolivia →
    front.length ≠ 2 ∧ (front.length = 3 → front = ascii "cdn")

variable {host front uri s text : Bytes}

theorem endsWith_sized (sized : s.length < 2 ^ 64) (k : ℕ) (few : k + 1 < 2 ^ 64)
    (length : text.length = k + 1) : endsWith s text = true ↔ text <:+ s ∨ s.length = k := by
  have filled : text ≠ [] := List.length_pos_iff.mp (length ▸ Nat.succ_pos k)
  rw [endsWith_iff sized filled (length ▸ few), length, Nat.succ_inj]

theorem isCdnHost_iff (sized : host.length < 2 ^ 64) : isCdnHost host = true ↔
    (confiared <:+ host ∨ host.length = 13) ∨ bolivia <:+ host ∨ host.length = 18 := by
  rw [isCdnHost, Bool.or_eq_true, endsWith_sized sized 13 (by decide) rfl,
    endsWith_sized sized 18 (by decide) rfl]

theorem endsWith_numbered (sized : front.length < 2 ^ 64) :
    (endsWith front (ascii "cdn1") || endsWith front (ascii "cdn2") || endsWith front (ascii "cdn3")) =
      true ↔ NumberedCdn front ∨ front.length = 3 := by
  rw [Bool.or_eq_true, Bool.or_eq_true, endsWith_sized sized 3 (by decide) rfl,
    endsWith_sized sized 3 (by decide) rfl, endsWith_sized sized 3 (by decide) rfl, NumberedCdn]
  tauto

theorem isCdnName_iff (sized : front.length < 2 ^ 64) : isCdnName front = true ↔
    (ascii "cdn" <:+ front ∨ front.length = 2) ∨ NumberedCdn front ∨ front.length = 3 := by
  rw [isCdnName, Bool.or_eq_true, endsWith_numbered sized, endsWith_sized sized 2 (by decide) rfl]

theorem NumberedCdn.length_le (numbered : NumberedCdn front) : 4 ≤ front.length := by
  rcases numbered with ends | ends | ends <;> exact ends.length_le

theorem without_append (front text : Bytes) : without (front ++ text) text = front := by
  unfold without
  rw [List.length_append, Nat.add_sub_cancel, List.take_left]

theorem fromLabel_eq (sized : front.length < 2 ^ 64) (fits : text.length ≤ front.length) (k : ℕ)
    (length : text.length = k) :
    fromLabel front (sizeSub front.length k) host uri = wantedLabel (without front text) host uri := by
  have difference : sizeSub front.length k = front.length - k := by
    unfold sizeSub
    omega
  have label : (without front text).length = front.length - k := by
    rw [without, List.length_take, length]
    omega
  unfold fromLabel wantedLabel
  rw [difference, label]
  by_cases more : 1 < front.length - k
  · have shorter : (without front text).dropLast = front.take (front.length - k - 1) := by
      rw [List.dropLast_eq_take, label, without, List.take_take, length, Nat.min_eq_left (by omega)]
    rw [if_pos more, if_pos more, shorter]
  · have empty : front.length - k = 0 ↔ without front text = [] := by
      rw [← List.length_eq_zero_iff, label]
    rw [if_neg more, if_neg more]
    exact if_congr empty rfl rfl

theorem fromName_eq (sized : front.length < 2 ^ 64) (two : front.length ≠ 2)
    (three : front.length = 3 → front = ascii "cdn") :
    (if endsWith front (ascii "cdn") then fromLabel front (sizeSub front.length 3) host uri
      else if endsWith front (ascii "cdn1") || endsWith front (ascii "cdn2") ||
        endsWith front (ascii "cdn3") then fromLabel front (sizeSub front.length 4) host uri
      else some (host, uri)) = wantedName front host uri := by
  have plain : endsWith front (ascii "cdn") = true ↔ ascii "cdn" <:+ front :=
    (endsWith_sized sized 2 (by decide) rfl).trans (or_iff_left two)
  unfold wantedName
  by_cases ends : ascii "cdn" <:+ front
  · rw [if_pos (plain.mpr ends), if_pos ends, fromLabel_eq sized ends.length_le 3 rfl]
  · have other : front.length ≠ 3 := fun same => ends (three same ▸ List.suffix_refl _)
    have tested := (endsWith_numbered sized).trans (or_iff_left other)
    rw [if_neg (mt plain.mp ends), if_neg ends]
    by_cases numbered : NumberedCdn front
    · have fits : (ascii "cdn1").length ≤ front.length := numbered.length_le
      rw [if_pos (tested.mpr numbered), if_pos numbered, fromLabel_eq sized fits 4 rfl]
    · rw [if_neg (mt tested.mp numbered), if_neg numbered]

theorem take_front (same : front ++ text = host) (sized : host.length < 2 ^ 64) (k : ℕ)
    (length : text.length = k) : host.take (sizeSub host.length k) = front := by
  have total : host.length = front.length + k := by rw [← same, List.length_append, length]
  have difference : sizeSub host.length k = front.length := by
    unfold sizeSub
    omega
  rw [difference, ← same, List.take_left]

theorem site_eq (sized : host.length < 2 ^ 64) (unmistaken : Unmistaken host) (uri : Bytes) :
    site host uri = wantedSite host uri := by
  obtain ⟨thirteen, eighteen, fronts⟩ := unmistaken
  have first : endsWith host (ascii ".confiared.com") = true ↔ confiared <:+ host :=
    (endsWith_sized sized 13 (by decide) rfl).trans (or_iff_left thirteen)
  have second : endsWith host (ascii ".bolivia-online.com") = true ↔ bolivia <:+ host :=
    (endsWith_sized sized 18 (by decide) rfl).trans (or_iff_left eighteen)
  have front_sized {front text : Bytes} (same : front ++ text = host) : front.length < 2 ^ 64 := by
    rw [← same, List.length_append] at sized
    omega
  unfold site wantedSite
  by_cases named : confiared <:+ host
  · obtain ⟨front, same⟩ := id named
    obtain ⟨two, three⟩ := fronts front (.inl same.symm)
    have back : without host confiared = front := by rw [← same, without_append]
    have tested := first.mpr named
    rw [if_pos (by rw [tested]; rfl), if_pos named, if_pos tested, take_front same sized 14 rfl, back]
    exact fromName_eq (front_sized same) two three
  · have untested := mt first.mp named
    rw [if_neg named, if_neg untested]
    by_cases debugged : bolivia <:+ host
    · obtain ⟨front, same⟩ := id debugged
      obtain ⟨two, three⟩ := fronts front (.inr same.symm)
      have back : without host bolivia = front := by rw [← same, without_append]
      rw [if_pos (by rw [second.mpr debugged, Bool.or_true]), if_pos debugged,
        take_front same sized 19 rfl, back]
      exact fromName_eq (front_sized same) two three
    · have neither : ¬(endsWith host (ascii ".confiared.com") ||
          endsWith host (ascii ".bolivia-online.com")) = true := by
        rw [Bool.or_eq_true]
        exact fun either => either.elim untested (mt second.mp debugged)
      rw [if_neg neither, if_neg debugged]

/-- The tests of a host are exact if and only if no string that is tested is one byte
shorter than a suffix it is tested for. -/
theorem suffix_tests_exact_iff (host : Bytes) (sized : host.length < 2 ^ 64) :
    Exact host ↔ Unmistaken host := by
  have front_sized {front text : Bytes} (same : host = front ++ text) : front.length < 2 ^ 64 := by
    rw [same, List.length_append] at sized
    omega
  constructor
  · intro exact_
    have host_test := (isCdnHost_iff sized).symm.trans exact_.host_test
    have https_test := (endsWith_sized sized 18 (by decide) rfl).symm.trans exact_.https_test
    refine ⟨fun thirteen => ?_, fun eighteen => ?_, fun front named => ⟨fun two => ?_, fun three => ?_⟩⟩
    · rcases host_test.mp (.inl (.inr thirteen)) with ends | ends
      · exact absurd (thirteen ▸ ends.length_le) (by decide)
      · exact absurd (thirteen ▸ ends.length_le) (by decide)
    · exact absurd (eighteen ▸ (https_test.mp (.inr eighteen)).length_le) (by decide)
    · have name_test := (isCdnName_iff (named.elim front_sized front_sized)).symm.trans
        (exact_.name_test front named)
      rcases name_test.mp (.inl (.inr two)) with ends | numbered
      · exact absurd (two ▸ ends.length_le) (by decide)
      · exact absurd (two ▸ numbered.length_le) (by decide)
    · have name_test := (isCdnName_iff (named.elim front_sized front_sized)).symm.trans
        (exact_.name_test front named)
      rcases name_test.mp (.inr (.inr three)) with ends | numbered
      · exact (ends.eq_of_length three.symm).symm
      · exact absurd (three ▸ numbered.length_le) (by decide)
  · intro unmistaken
    obtain ⟨thirteen, eighteen, fronts⟩ := id unmistaken
    refine ⟨?_, fun front named => ?_, ?_, site_eq sized unmistaken⟩
    · rw [isCdnHost_iff sized, or_iff_left thirteen, or_iff_left eighteen]
    · obtain ⟨two, three⟩ := fronts front named
      rw [isCdnName_iff (named.elim front_sized front_sized), or_iff_left two]
      by_cases short : front.length = 3
      · have whole : ascii "cdn" <:+ front := three short ▸ List.suffix_refl _
        exact iff_of_true (.inl whole) (.inl whole)
      · rw [or_iff_left short]
    · rw [endsWith_sized sized 18 (by decide) rfl, or_iff_left eighteen]

end Hosts

theorem hexadecimal_host_is_exact : Exact (ascii "6162.cdn.confiared.com") := by
  refine (suffix_tests_exact_iff (ascii "6162.cdn.confiared.com") (by decide)).mpr
    ⟨by decide, by decide, fun front named => ?_⟩
  rcases named with same | same
  · obtain rfl : front = ascii "6162.cdn" :=
      List.append_cancel_right (same.symm.trans (show _ = ascii "6162.cdn" ++ confiared by decide))
    exact ⟨by decide, fun wrong => absurd wrong (by decide)⟩
  · have ends : bolivia <:+ ascii "6162.cdn.confiared.com" := ⟨front, same.symm⟩
    exact absurd ends (by decide)

def asked (host uri : String) : Read :=
  ⟨requestOf [(ascii "HTTP_HOST", ascii host), (ascii "REQUEST_URI", ascii uri)], fun _ => 0⟩

set_option maxRecDepth 8192 in
/-- A host of 13 bytes is taken for a CDN host, and one of 18 bytes is asked for over
https. -/
theorem ordinary_hosts_are_mistaken :
    ¬Exact (ascii "www.google.fr") ∧ ¬Exact (ascii "www.openstreet.org") ∧
    (readyToRead .new (asked "www.google.fr" "/a.com/x")).2 =
      .download ⟨false, ascii "www.google.fr", ascii "/a.com/x", []⟩ ∧
    (readyToRead .new (asked "x" "/a.com/x")).2 = .download ⟨false, ascii "a.com", ascii "/x", []⟩ ∧
    (readyToRead .new (asked "www.openstreet.org" "/a.com/x")).2 =
      .download ⟨true, ascii "www.openstreet.org", ascii "/a.com/x", []⟩ := by
  refine ⟨fun exact_ => ?_, fun exact_ => ?_, by decide, by decide, by decide⟩
  · exact absurd (exact_.host_test.mp (by decide)) (by decide)
  · exact absurd (exact_.https_test.mp (by decide)) (by decide)

end FastCgiCdn.SuffixTests
