import Mathlib.Data.Fintype.Pigeonhole
import FastCgiCdn.DnsReplies

/-! The loop that skips the name of a question. Its offset and the length it reads have
eight bits, so that a walk does not have to go forward: a run of labels that takes a
multiple of 256 bytes leads back to where it began, and the loop does not end. -/

namespace FastCgiCdn.NameWalk

open DnsModel Dns DnsVerdict DnsReplies

section Walk

variable {buffer : Memory} {size pos offs fuel : ℕ} {before round lens : Bytes}

def taken (lens : Bytes) : ℕ := (lens.map fun len => len.toNat + 1).sum

/-- The lengths that the walk meets one after the other. -/
def Meets (buffer : Memory) (size pos : ℕ) : ℕ → Bytes → Prop
  | _, [] => True
  | offs, len :: lens => (offs < size - pos ∧ buffer (pos + offs) ≠ 0) ∧ buffer (pos + offs) = len ∧
      Meets buffer size pos ((offs + (len.toNat + 1)) % 256) lens

/-- Some labels on the way take a multiple of 256 bytes. -/
def ComesBack (buffer : Memory) (size pos : ℕ) : Prop :=
  ∃ before round, Meets buffer size pos 0 (before ++ round) ∧ round ≠ [] ∧ 256 ∣ taken round

theorem taken_cons (len : UInt8) (lens : Bytes) :
    taken (len :: lens) = len.toNat + 1 + taken lens :=
  List.sum_cons

theorem taken_append (before round : Bytes) : taken (before ++ round) = taken before + taken round := by
  rw [taken, List.map_append, List.sum_append]
  rfl

theorem meets_append (small : offs < 256) : Meets buffer size pos offs (before ++ round) ↔
    Meets buffer size pos offs before ∧ Meets buffer size pos ((offs + taken before) % 256) round := by
  induction before generalizing offs with
  | nil =>
    have here : (offs + taken []) % 256 = offs := Nat.mod_eq_of_lt small
    rw [here, List.nil_append]
    exact ⟨fun rest => ⟨trivial, rest⟩, fun both => both.2⟩
  | cons len before ih =>
    have there : ((offs + (len.toNat + 1)) % 256 + taken before) % 256 =
        (offs + taken (len :: before)) % 256 := by
      rw [taken_cons, Nat.mod_add_mod, Nat.add_assoc]
    rw [List.cons_append, Meets, Meets, ih (Nat.mod_lt _ (by decide)), there]
    simp only [and_assoc]

theorem skipName_none_iff : skipName buffer size pos fuel offs = none ↔
    ∃ lens, lens.length = fuel ∧ Meets buffer size pos offs lens := by
  induction fuel generalizing offs with
  | zero => exact ⟨fun _ => ⟨[], rfl, trivial⟩, fun _ => rfl⟩
  | succ fuel ih =>
    rw [skipName]
    constructor
    · intro unfinished
      split at unfinished
      · rename_i more
        obtain ⟨lens, length, met⟩ := ih.mp unfinished
        exact ⟨buffer (pos + offs) :: lens, congrArg (· + 1) length, more, rfl, met⟩
      · cases unfinished
    · rintro ⟨lens, length, met⟩
      cases lens with
      | nil => cases length
      | cons len lens =>
        obtain ⟨more, rfl, rest⟩ := met
        rw [if_pos more]
        exact ih.mpr ⟨lens, Nat.succ.inj length, rest⟩

theorem comesBack_of_long (long : lens.length = 256) (met : Meets buffer size pos 0 lens) :
    ComesBack buffer size pos := by
  obtain ⟨i, j, apart, same⟩ := Fintype.exists_ne_map_eq_of_card_lt
    (fun i : Fin 257 => (⟨taken (lens.take i) % 256, Nat.mod_lt _ (by decide)⟩ : Fin 256)) (by simp)
  have offsets : taken (lens.take i) % 256 = taken (lens.take j) % 256 := congrArg Fin.val same
  have back : ∀ i j : ℕ, i < j → j ≤ 256 → taken (lens.take i) % 256 = taken (lens.take j) % 256 →
      ComesBack buffer size pos := by
    intro i j order inside again
    have split : lens.take j = lens.take i ++ (lens.drop i).take (j - i) := by
      rw [← List.take_add, Nat.add_sub_cancel' (Nat.le_of_lt order)]
    refine ⟨lens.take i, (lens.drop i).take (j - i), ?_, ?_, ?_⟩
    · rw [← List.take_append_drop j lens] at met
      rw [← split]
      exact ((meets_append (by decide)).mp met).1
    · intro empty
      have length := congrArg List.length empty
      rw [List.length_take, List.length_drop, List.length_nil] at length
      omega
    · rw [split, taken_append] at again
      omega
  rcases Nat.lt_or_gt_of_ne (Fin.val_ne_of_ne apart) with order | order
  · exact back i j order (by omega) offsets
  · exact back j i order (by omega) offsets.symm

theorem meets_again (met : Meets buffer size pos offs round) (small : offs < 256)
    (back : 256 ∣ taken round) (n : ℕ) :
    Meets buffer size pos offs (List.replicate n round).flatten := by
  induction n with
  | zero => trivial
  | succ n ih =>
    have here : (offs + taken round) % 256 = offs := by omega
    rw [List.replicate_succ, List.flatten_cons, meets_append small, here]
    exact ⟨met, ih⟩

theorem endless_of_comesBack (back : ComesBack buffer size pos) (fuel : ℕ) :
    skipName buffer size pos fuel 0 = none := by
  obtain ⟨before, round, met, some_labels, multiple⟩ := back
  obtain ⟨reached, around⟩ := (meets_append (by decide)).mp met
  let walk := before ++ (List.replicate fuel round).flatten
  have walked : Meets buffer size pos 0 walk :=
    (meets_append (by decide)).mpr ⟨reached, meets_again around (Nat.mod_lt _ (by decide)) multiple fuel⟩
  have long : fuel ≤ walk.length := by
    have one := List.length_pos_iff.mpr some_labels
    have many : fuel ≤ fuel * round.length := Nat.le_mul_of_pos_right fuel one
    rw [List.length_append, List.length_flatten, List.map_replicate, List.sum_replicate_nat]
    omega
  rw [← List.take_append_drop fuel walk] at walked
  exact skipName_none_iff.mpr ⟨walk.take fuel, List.length_take_of_le long,
    ((meets_append (by decide)).mp walked).1⟩

/-- As many rounds as there are offsets tell whether the loop ends. -/
theorem skipName_none_iff_comesBack :
    skipName buffer size pos 256 0 = none ↔ ComesBack buffer size pos := by
  constructor
  · intro unfinished
    obtain ⟨lens, long, met⟩ := skipName_none_iff.mp unfinished
    exact comesBack_of_long long met
  · exact fun back => endless_of_comesBack back 256

theorem skipName_stop {stop : ℕ} (stopped : skipName buffer size pos fuel offs = some stop) :
    size - pos ≤ stop ∨ stop < size - pos ∧ buffer (pos + stop) = 0 := by
  induction fuel generalizing offs with
  | zero => cases stopped
  | succ fuel ih =>
    rw [skipName] at stopped
    split at stopped
    case isTrue => exact ih stopped
    case isFalse last =>
      obtain rfl := Option.some.inj stopped
      by_cases inside : offs < size - pos
      · exact .inr ⟨inside, not_not.mp fun more => last ⟨inside, more⟩⟩
      · exact .inl (Nat.not_lt.mp inside)

end Walk

section Datagram

variable {buffer : Memory} {size : ℕ}

def Asked (buffer : Memory) (size : ℕ) : Prop :=
  12 ≤ size ∧ (read16Bits buffer size 2).1 ≠ 0 ∧ (read16Bits buffer size 4).1 ≠ 0 ∧
    (read16Bits buffer size 6).1 ≠ 0

theorem read16Bits_filled {pos : ℕ} (filled : (read16Bits buffer size pos).1 ≠ 0) :
    (read16Bits buffer size pos).2 = pos + 2 ∧ pos + 2 ≤ size := by
  unfold read16Bits at filled ⊢
  split at filled
  case isTrue => exact absurd rfl filled
  case isFalse inside => exact ⟨congrArg Prod.snd (if_neg inside), Nat.not_lt.mp inside⟩

theorem parseHeader_unasked (unasked : ¬Asked buffer size) : parseHeader buffer size = .ok none := by
  unfold parseHeader read16BitsRaw
  by_cases numbered : 0 + 2 > size
  · rw [if_pos numbered]
  · rw [if_neg numbered]
    dsimp only
    by_cases flags : (read16Bits buffer size 2).1 = 0
    · rw [if_pos flags]
    · have second := (read16Bits_filled flags).1
      rw [if_neg flags, second]
      by_cases questions : (read16Bits buffer size 4).1 = 0
      · rw [if_pos questions]
      · have third := (read16Bits_filled questions).1
        rw [if_neg questions, third]
        by_cases answers : (read16Bits buffer size 6).1 = 0
        · rw [if_pos answers]
        · have fourth := (read16Bits_filled answers).1
          have short : 8 + (2 + 2) > size := by
            by_contra long
            exact unasked ⟨by omega, flags, questions, answers⟩
          rw [if_neg answers, fourth, canAddToPos, if_pos short]

theorem parseHeader_asked (asked : Asked buffer size) :
    parseHeader buffer size = .error .endlessLoop ↔ skipName buffer size 12 256 0 = none := by
  obtain ⟨long, flags, questions, answers⟩ := asked
  have numbered : ¬0 + 2 > size := by omega
  have second := (read16Bits_filled flags).1
  have third := (read16Bits_filled questions).1
  have fourth := (read16Bits_filled answers).1
  unfold parseHeader read16BitsRaw
  rw [if_neg numbered]
  dsimp only
  rw [if_neg flags, second, if_neg questions, third, if_neg answers, fourth, canAddToPos,
    if_neg (by omega)]
  dsimp only
  cases skipName buffer size 12 256 0 with
  | none => exact iff_of_true rfl rfl
  | some offs =>
    refine iff_of_false (fun wrong => ?_) fun wrong => by cases wrong
    dsimp only at wrong
    split at wrong
    · cases wrong
    · split at wrong <;> cases wrong

theorem parseHeader_endless :
    parseHeader buffer size = .error .endlessLoop ↔ Asked buffer size ∧ ComesBack buffer size 12 := by
  by_cases asked : Asked buffer size
  · rw [parseHeader_asked asked, skipName_none_iff_comesBack, and_iff_right asked]
  · rw [parseHeader_unasked asked]
    exact iff_of_false (fun wrong => by cases wrong) fun both => asked both.1

/-- Nothing else of a datagram keeps the parsing from its end. -/
theorem parseEvent_endless (time : Readings) (d : Dns) :
    parseEvent true buffer size time d = .error .endlessLoop ↔
      parseHeader buffer size = .error .endlessLoop := by
  cases parsed : parseHeader buffer size with
  | error halt =>
    have failed : parseEvent true buffer size time d = .error halt := by
      rw [parseEvent, parsed]
      rfl
    rw [failed]
    exact ⟨fun same => congrArg _ (Except.error.inj same), fun same => congrArg _ (Except.error.inj same)⟩
  | ok header =>
    refine iff_of_false (fun endless => ?_) fun wrong => by cases wrong
    rw [parseEvent_server time d parsed] at endless
    cases settles : settled buffer size d with
    | none =>
      rw [settles] at endless
      cases endless
    | some answer =>
      obtain ⟨id, q, o⟩ := answer
      obtain ⟨d', concluded, -⟩ :=
        conclude_ok o (time 0) id (d := uncount d) (settled_found settles).1
      rw [settles] at endless
      cases concluded.symm.trans endless

/-- The parsing of a datagram ends if and only if no labels on the way of its question
take a multiple of 256 bytes. -/
theorem datagram_parsing_ends_iff (buffer : Memory) (size : ℕ) (time : Readings) (d : Dns) :
    (parseEvent true buffer size time d ≠ .error .endlessLoop ∧
      (Asked buffer size → ∃ rounds stop, skipName buffer size 12 rounds 0 = some stop ∧
        (size - 12 ≤ stop ∨ stop < size - 12 ∧ buffer (12 + stop) = 0))) ↔
      (Asked buffer size → ¬ComesBack buffer size 12) := by
  rw [ne_eq, parseEvent_endless, parseHeader_endless]
  constructor
  · exact fun both asked back => both.1 ⟨asked, back⟩
  · intro onward
    refine ⟨fun both => onward both.1 both.2, fun asked => ?_⟩
    cases walked : skipName buffer size 12 256 0 with
    | none => exact absurd (skipName_none_iff_comesBack.mp walked) (onward asked)
    | some stop => exact ⟨256, stop, walked, skipName_stop walked⟩

def forgedReply : Bytes := [0, 0, 0x81, 0x80, 0, 1, 0, 1, 0, 0, 0, 0, 255]

/-- Thirteen bytes keep the resolver busy for ever. -/
theorem forged_reply_is_endless :
    Asked (received forgedReply) forgedReply.length ∧
    (∀ rounds, skipName (received forgedReply) forgedReply.length 12 rounds 0 = none) ∧
    parseEvent true (received forgedReply) forgedReply.length (fun _ => 0) .initial =
      .error .endlessLoop := by
  have asked : Asked (received forgedReply) forgedReply.length := by
    unfold Asked
    decide
  have back : ComesBack (received forgedReply) forgedReply.length 12 :=
    ⟨[], [255], ⟨by decide, rfl, trivial⟩, List.cons_ne_nil _ _, by decide⟩
  exact ⟨asked, endless_of_comesBack back,
    (parseEvent_endless _ _).mpr (parseHeader_endless.mpr ⟨asked, back⟩)⟩

end Datagram

end FastCgiCdn.NameWalk
