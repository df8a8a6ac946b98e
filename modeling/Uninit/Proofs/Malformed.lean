import Mathlib.Data.Nat.Find
import Uninit.Host.Memory
import Uninit.Load
import Uninit.Proofs.Analysis
import Uninit.Proofs.Decoding

/-!
# Bytes that are no text

Bytes are read as characters one after the other. Where no character can be read, the longest run
of bytes that a character starts with is taken together, or a single byte if none starts with it,
and one U+FFFD stands for it. The automaton does exactly this: what it has started is the start of
a character, and a byte is due exactly if a character goes on with it.

A byte of the ASCII range belongs to no such run, so it is read as its character, and the bytes on
both sides of it are read as if they stood alone. So a file has the lines and the ASCII characters
of its bytes, whatever else is in it.

## Main definitions

* `Text.Utf8.IsInvalid`: a longest run of bytes that cannot be read
* `Text.Utf8.Reads`: bytes and the text they are read as
* `Text.Utf8.Started`: what the automaton has started behind some bytes

## Main statements

* `reads_iff`: the automaton puts one U+FFFD for each longest run that cannot be read
* `splitOn_decode`: what is read between two bytes of the ASCII range
* `filter_isAscii_decode`: the ASCII characters of a text are those of its bytes
* `decode_ascii_exact`: the ASCII characters and the lines of a file
-/
namespace Uninit.Text.Utf8

/-! ## Runs that cannot be read -/

/-- A character starts with the bytes. -/
def BeginsChar (bytes : List UInt8) : Prop :=
  ∃ c, bytes <+: String.utf8EncodeChar c

/-- Bytes in front of others, where no character can be read: one byte, or several that a character
starts with, and no more of them can be taken. -/
structure IsInvalid (bad rest : List UInt8) : Prop where
  ne_nil : bad ≠ []
  unread : ∀ c, ¬ String.utf8EncodeChar c <+: bad ++ rest
  begins : bad.length = 1 ∨ BeginsChar bad
  longest : ∀ more, more ≠ [] → more <+: rest → ¬ BeginsChar (bad ++ more)

/-- **How bytes are to be read**: characters as they are encoded, and one U+FFFD for each longest
run of bytes that cannot be read. -/
inductive Reads : List UInt8 → List Char → Prop
  | nil : Reads [] []
  | char (c : Char) {rest : List UInt8} {cs : List Char} (h : Reads rest cs) :
      Reads (String.utf8EncodeChar c ++ rest) (c :: cs)
  | invalid {bad rest : List UInt8} {cs : List Char} (hbad : IsInvalid bad rest)
      (h : Reads rest cs) : Reads (bad ++ rest) (replacement :: cs)

theorem decodeFrom_eq_nil {pending : Option Partial} {bytes : List UInt8}
    (h : decodeFrom pending bytes = []) : bytes = [] := by
  induction bytes generalizing pending with
  | nil => rfl
  | cons b rest ih =>
    rw [decodeFrom_cons] at h
    obtain ⟨hfirst, hlast⟩ := List.append_eq_nil_iff.mp h
    obtain rfl := ih hlast
    exact absurd (Prod.ext hfirst (eq_none_of_decodeFrom_nil hlast)) (step_ne pending b.toNat)

/-! ## What has been started -/

/-- What the automaton has started behind some bytes that are no whole character. -/
inductive Started : List UInt8 → Partial → Prop
  | first {b : UInt8} {p : Partial} (h : start b.toNat = some p) : Started [b] p
  | more {pre : List UInt8} {b : UInt8} {more low high value : ℕ}
      (h : Started pre ⟨more + 1, low, high, value⟩) (hlow : low ≤ b.toNat)
      (hhigh : b.toNat ≤ high) :
      Started (pre ++ [b]) ⟨more, 0x80, 0xBF, value * 64 + (b.toNat - 0x80)⟩

theorem start_of_lt {b : ℕ} (h : b < 0x80) : start b = none := by
  simp only [start]
  split_ifs <;> first | omega | rfl

theorem decodeFrom_of_start {b : UInt8} {p : Partial} (h : start b.toNat = some p)
    (rest : List UInt8) : decodeFrom none (b :: rest) = decodeFrom (some p) rest := by
  have hb : ¬ b.toNat < 0x80 := by
    intro hlt
    rw [start_of_lt hlt] at h
    cases h
  rw [decodeFrom_cons, step, stepFresh, if_neg hb, h, List.nil_append]

namespace Started

variable {pre : List UInt8} {p : Partial}

/-- The automaton gets through what it has started without reading a character. -/
theorem decodeFrom_append (h : Started pre p) (rest : List UInt8) :
    decodeFrom none (pre ++ rest) = decodeFrom (some p) rest := by
  induction h generalizing rest with
  | first h => exact decodeFrom_of_start h rest
  | @more pre b more low high value _ hlow hhigh ih =>
    rw [List.append_assoc, ih, List.singleton_append, decodeFrom_cons]
    simp [step, hlow, hhigh]

end Started

/-! ## What completes a character -/

namespace Partial

/-- The bytes that are due are bytes from inside a character. -/
def IsDue (p : Partial) : Prop :=
  0x80 ≤ p.low ∧ p.low ≤ p.high ∧ p.high ≤ 0xBF

/-- What the automaton has read so far are the leading bits of what it can complete. -/
theorem div_eq_value {p : Partial} (h : p.IsDue) {v : ℕ} (hleast : p.least ≤ v)
    (hbound : v < p.bound) : v / 64 ^ (p.more + 1) = p.value := by
  obtain ⟨hlow, horder, hhigh⟩ := h
  have hlower : p.value * 64 ^ (p.more + 1) ≤ p.least := by
    rw [least, Nat.pow_succ', ← Nat.mul_assoc]
    exact Nat.mul_le_mul_right _ (Nat.le_add_right _ _)
  have hupper : p.bound ≤ (p.value + 1) * 64 ^ (p.more + 1) := by
    rw [bound, Nat.pow_succ', ← Nat.mul_assoc]
    apply Nat.mul_le_mul_right
    omega
  apply Nat.div_eq_of_lt_le
  · omega
  · omega

theorem IsDue.least_lt_bound {p : Partial} (h : p.IsDue) : p.least < p.bound := by
  obtain ⟨-, horder, -⟩ := h
  simp only [least, bound]
  apply Nat.mul_lt_mul_of_pos_right
  · omega
  · positivity

end Partial

/-- The first byte of a character holds its leading bits and tells how many bytes are due. -/
theorem start_eq_some {b : ℕ} {p : Partial} (h : start b = some p) :
    p.IsDue ∧
      (p.more = 0 ∧ b = p.value + 0xC0 ∧ p.value < 32 ∧ 0x80 ≤ p.least ∧ p.bound ≤ 0x800 ∨
        p.more = 1 ∧ b = p.value + 0xE0 ∧ p.value < 16 ∧ 0x800 ≤ p.least ∧ p.bound ≤ 0x10000 ∨
        p.more = 2 ∧ b = p.value + 0xF0 ∧ p.value < 8 ∧ 0x10000 ≤ p.least) := by
  rw [start] at h
  split_ifs at h
  all_goals
    obtain rfl := Option.some.inj h
    simp [Partial.IsDue, Partial.least, Partial.bound]
  all_goals omega

/-- The last bytes of the character with a number, one more than the given count. -/
def tail : ℕ → ℕ → List UInt8
  | 0, v => [UInt8.ofNat (v % 64 + 0x80)]
  | more + 1, v => UInt8.ofNat (v / 64 ^ (more + 1) % 64 + 0x80) :: tail more v

/-- Every character that a first byte can start is encoded with it. -/
theorem encode_of_start {b : UInt8} {p : Partial} (h : start b.toNat = some p) {v : ℕ}
    (hleast : p.least ≤ v) (hbound : v < p.bound) :
    String.utf8EncodeChar (Char.ofNat v) = [b] ++ tail p.more v := by
  have hvalid : v.isValidChar := ((isWide_of_start h).valid v hleast hbound).2
  have hv : (Char.ofNat v).val.toNat = v := toNat_ofNat_of_isValidChar hvalid
  have hb : UInt8.ofNat b.toNat = b := UInt8.ofNat_toNat
  obtain ⟨hdue, hcases⟩ := start_eq_some h
  have hvalue := p.div_eq_value hdue hleast hbound
  simp only [String.utf8EncodeChar, hv]
  rw [← hb]
  rcases hcases with ⟨hmore, hbyte, hlt, hmin, hmax⟩ | ⟨hmore, hbyte, hlt, hmin, hmax⟩ |
    ⟨hmore, hbyte, hlt, hmin⟩
  · rw [hmore] at hvalue
    have hbits : v / 64 % 32 + 0xC0 = b.toNat := by omega
    rw [if_neg (by omega), if_pos (by omega), hbits, hmore]
    rfl
  · rw [hmore] at hvalue
    have hbits : v / 4096 % 16 + 0xE0 = b.toNat := by omega
    rw [if_neg (by omega), if_neg (by omega), if_pos (by omega), hbits, hmore]
    simp [tail]
  · rw [hmore] at hvalue
    have hbits : v / 262144 % 8 + 0xF0 = b.toNat := by omega
    rw [if_neg (by omega), if_neg (by omega), if_neg (by omega), hbits, hmore]
    simp [tail]

namespace Started

variable {pre : List UInt8} {p : Partial}

theorem isDue (h : Started pre p) : p.IsDue := by
  cases h with
  | first h => exact (start_eq_some h).1
  | more h hlow hhigh => simp [Partial.IsDue]

/-- **Every character that can be completed is encoded with what has been started.** -/
theorem encode_eq (h : Started pre p) {v : ℕ} (hleast : p.least ≤ v) (hbound : v < p.bound) :
    String.utf8EncodeChar (Char.ofNat v) = pre ++ tail p.more v := by
  induction h with
  | first h => exact encode_of_start h hleast hbound
  | @more pre b more low high value h hlow hhigh ih =>
    have hbit := Partial.div_eq_value (h.more hlow hhigh).isDue hleast hbound
    have hdue := h.isDue
    simp only [Partial.IsDue] at hbit hdue
    have hbyte : v / 64 ^ (more + 1) % 64 + 0x80 = b.toNat := by omega
    rw [ih (Nat.le_trans (least_le_of_due hlow) hleast)
      (Nat.lt_of_lt_of_le hbound (bound_le_of_due hhigh)), tail, hbyte, UInt8.ofNat_toNat,
      List.append_assoc]
    rfl

/-- A byte is due exactly if a character goes on with it. -/
theorem beginsChar_iff (h : Started pre p) (b : UInt8) :
    BeginsChar (pre ++ [b]) ↔ p.low ≤ b.toNat ∧ b.toNat ≤ p.high := by
  constructor
  · rintro ⟨c, more, hc⟩
    by_contra hdue
    have hread := decodeFrom_encodeChar [] c
    -- a byte that is not due is read anew behind a replacement, so there are two characters
    rw [List.append_nil, ← hc, List.append_assoc, h.decodeFrom_append, List.singleton_append,
      decodeFrom_cons, step, if_neg hdue, List.cons_append] at hread
    have hnil := (List.cons.inj hread).2
    have hfresh : decodeFrom none (b :: more) = decodeFrom none [] := by
      rw [decodeFrom_cons]
      exact hnil
    cases decodeFrom_eq_nil hfresh
  · rintro ⟨hlow, hhigh⟩
    obtain ⟨more, low, high, value⟩ := p
    cases more with
    | zero =>
      have hdue := h.isDue
      simp only [Partial.IsDue] at hdue hlow hhigh
      have hbyte : (value * 64 + (b.toNat - 0x80)) % 64 + 0x80 = b.toNat := by omega
      have hchar := h.encode_eq (v := value * 64 + (b.toNat - 0x80))
        (by simp [Partial.least]; omega) (by simp [Partial.bound]; omega)
      rw [tail, hbyte, UInt8.ofNat_toNat] at hchar
      exact ⟨_, [], by rw [List.append_nil, hchar]⟩
    | succ more =>
      have hmore := h.more hlow hhigh
      exact ⟨_, _, (hmore.encode_eq (Nat.le_refl _) hmore.isDue.least_lt_bound).symm⟩

end Started

/-- A byte that no character starts with is above the ASCII range and starts nothing. -/
theorem start_of_not_beginsChar {b : UInt8} (h : ¬ BeginsChar [b]) :
    0x80 ≤ b.toNat ∧ start b.toNat = none := by
  constructor
  · by_contra hlt
    have hascii : String.utf8EncodeChar (Char.ofNat b.toNat) = [b] := by
      have hval : (Char.ofNat b.toNat).val.toNat = b.toNat := toNat_ofNat_toNat b
      rw [String.utf8EncodeChar, hval, if_pos (by omega), UInt8.ofNat_toNat]
    exact h ⟨_, [], by rw [List.append_nil, hascii]⟩
  · by_contra hsome
    obtain ⟨p, hp⟩ := Option.ne_none_iff_exists'.mp hsome
    have hchar := encode_of_start hp (Nat.le_refl _) (start_eq_some hp).1.least_lt_bound
    exact h ⟨_, _, hchar.symm⟩

/-! ## Reading as it is to be done -/

/-- As long as bytes of a character are still to come, a byte brings no character and leaves
something started. -/
theorem step_of_unfinished {pending : Option Partial} {b : UInt8} {rest : List UInt8} {c : Char}
    (h : decodeFrom pending (b :: rest) = [c]) (hrest : rest ≠ []) :
    ∃ q, step pending b.toNat = ([], some q) := by
  rw [decodeFrom_cons, List.append_eq_singleton_iff] at h
  rcases h with ⟨hfirst, -⟩ | ⟨-, hlast⟩
  · obtain ⟨q, hq⟩ : ∃ q, (step pending b.toNat).2 = some q := by
      rw [← Option.ne_none_iff_exists']
      intro hnone
      exact step_ne pending b.toNat (Prod.ext hfirst hnone)
    exact ⟨q, Prod.ext hfirst hq⟩
  · exact absurd (decodeFrom_eq_nil hlast) hrest

/-- **What stands before the end of a character has been started.** -/
theorem exists_started {c : Char} {pre rest : List UInt8}
    (h : String.utf8EncodeChar c = pre ++ rest) (hpre : pre ≠ []) (hrest : rest ≠ []) :
    ∃ p, Started pre p := by
  induction pre using List.reverseRecOn generalizing rest with
  | nil => exact absurd rfl hpre
  | append_singleton pre b ih =>
    have hread := decodeFrom_encodeChar [] c
    rw [List.append_nil, h, List.append_assoc, List.singleton_append] at hread
    by_cases hnil : pre = []
    · subst hnil
      obtain ⟨q, hq⟩ := step_of_unfinished hread hrest
      have hstart : start b.toNat = some q := by
        rw [step, stepFresh] at hq
        split_ifs at hq
        · simp at hq
        · cases hp : start b.toNat <;> simp_all
      exact ⟨q, .first hstart⟩
    · obtain ⟨p, hp⟩ := ih (by simp [h]) hnil (List.cons_ne_nil b rest)
      rw [hp.decodeFrom_append] at hread
      obtain ⟨q, hq⟩ := step_of_unfinished hread hrest
      obtain ⟨more, low, high, value⟩ := p
      rw [step] at hq
      split_ifs at hq with hdue
      · cases more with
        | zero => simp at hq
        | succ more => exact ⟨_, hp.more hdue.1 hdue.2⟩
      · simp at hq

/-- A run of bytes that cannot be read is read as one U+FFFD. -/
theorem decode_of_isInvalid {bad rest : List UInt8} (h : IsInvalid bad rest) :
    decode (bad ++ rest) = replacement :: decode rest := by
  by_cases hbegins : BeginsChar bad
  · obtain ⟨c, more, hc⟩ := hbegins
    have hmore : more ≠ [] := by
      rintro rfl
      rw [List.append_nil] at hc
      exact h.unread c (hc ▸ List.prefix_append bad rest)
    obtain ⟨p, hp⟩ := exists_started hc.symm h.ne_nil hmore
    rw [decode, hp.decodeFrom_append]
    cases rest with
    | nil => rfl
    | cons b rest =>
      have hdue : ¬ (p.low ≤ b.toNat ∧ b.toNat ≤ p.high) := by
        rw [← hp.beginsChar_iff]
        exact h.longest [b] (List.cons_ne_nil b []) (by simp)
      have hstep : step (some p) b.toNat = (replacement :: (stepFresh b.toNat).1,
          (stepFresh b.toNat).2) := by
        rw [step, if_neg hdue]
      rw [decode, decodeFrom_cons, decodeFrom_cons, hstep]
      rfl
  · obtain ⟨b, rfl⟩ := List.length_eq_one_iff.mp (h.begins.resolve_right hbegins)
    obtain ⟨hb, hstart⟩ := start_of_not_beginsChar hbegins
    have hstep : step none b.toNat = ([replacement], none) := by
      rw [step, stepFresh, if_neg (by omega), hstart]
    rw [decode, List.singleton_append, decodeFrom_cons, hstep]
    rfl

/-- Where no character can be read, there is a longest run of bytes that cannot be read. -/
theorem exists_isInvalid {bytes : List UInt8} (hne : bytes ≠ [])
    (hunread : ∀ c, ¬ String.utf8EncodeChar c <+: bytes) :
    ∃ bad rest, bytes = bad ++ rest ∧ IsInvalid bad rest := by
  classical
  have hpos : 0 < bytes.length := List.length_pos_iff.mpr hne
  obtain ⟨m, hm⟩ : ∃ m, Nat.findGreatest (fun n => BeginsChar (bytes.take n)) bytes.length = m :=
    ⟨_, rfl⟩
  have hmax : ∀ k ≤ bytes.length, BeginsChar (bytes.take k) → k ≤ m := fun k hk hbegins =>
    hm ▸ Nat.le_findGreatest hk hbegins
  have hle : m ≤ bytes.length := hm ▸ Nat.findGreatest_le _
  -- if not even the first byte starts a character, that byte is taken alone
  obtain ⟨n, hn⟩ : ∃ n, max 1 m = n := ⟨_, rfl⟩
  have hlength : (bytes.take n).length = n := by
    rw [List.length_take]
    omega
  refine ⟨bytes.take n, bytes.drop n, (List.take_append_drop n bytes).symm, ?_, ?_, ?_, ?_⟩
  · rw [← List.length_pos_iff, hlength]
    omega
  · rwa [List.take_append_drop]
  · by_cases hzero : m = 0
    · left
      omega
    · right
      have hsame : n = m := by omega
      exact hsame ▸ Nat.findGreatest_of_ne_zero hm hzero
  · intro more hmore hprefix hbegins
    have hrun : bytes.take n ++ more <+: bytes := by
      rw [← List.prefix_append_right_inj (bytes.take n), List.take_append_drop] at hprefix
      exact hprefix
    have hshort := hrun.length_le
    have hlonger := List.length_pos_iff.mpr hmore
    rw [List.prefix_iff_eq_take.mp hrun] at hbegins
    have hbound := hmax _ hshort hbegins
    rw [List.length_append, hlength] at hbound
    omega

theorem exists_reads (bytes : List UInt8) : ∃ cs, Reads bytes cs := by
  induction hlength : bytes.length using Nat.strong_induction_on generalizing bytes with
  | _ n ih =>
    by_cases hne : bytes = []
    · exact ⟨[], hne ▸ .nil⟩
    · by_cases hread : ∃ c, String.utf8EncodeChar c <+: bytes
      · obtain ⟨c, rest, rfl⟩ := hread
        have hsize := c.utf8Size_pos
        obtain ⟨cs, hcs⟩ := ih rest.length (by simp at hlength; omega) rest rfl
        exact ⟨c :: cs, .char c hcs⟩
      · obtain ⟨bad, rest, rfl, hbad⟩ := exists_isInvalid hne (not_exists.mp hread)
        have hsize := List.length_pos_iff.mpr hbad.ne_nil
        obtain ⟨cs, hcs⟩ := ih rest.length (by simp at hlength; omega) rest rfl
        exact ⟨_, .invalid hbad hcs⟩

/-- **Bytes are read as they are to be read.** -/
theorem reads_iff {bytes : List UInt8} {cs : List Char} : Reads bytes cs ↔ decode bytes = cs := by
  have hsound : ∀ {bytes cs}, Reads bytes cs → decode bytes = cs := by
    intro bytes cs h
    induction h with
    | nil => rfl
    | char c _ ih => rw [decode, decodeFrom_encodeChar, ← ih, decode]
    | invalid hbad _ ih => rw [decode_of_isInvalid hbad, ih]
  constructor
  · exact hsound
  · rintro rfl
    obtain ⟨cs, hcs⟩ := exists_reads bytes
    rwa [hsound hcs]

/-! ## Characters of the ASCII range -/

/-- What is read between two occurrences of a byte of the ASCII range is what the bytes there are
read as alone. -/
theorem splitOn_decode {b : UInt8} (hb : b.toNat < 0x80) (bytes : List UInt8) :
    (decode bytes).splitOn (Char.ofNat b.toNat) = (bytes.splitOn b).map decode := by
  induction hlength : bytes.length using Nat.strong_induction_on generalizing bytes with
  | _ n ih =>
    by_cases hmem : b ∈ bytes
    · obtain ⟨before, after, rfl⟩ := List.append_of_mem hmem
      rw [List.length_append, List.length_cons] at hlength
      rw [decode_append before hb, List.splitOn_append_cons_self, List.splitOn_append_cons_self,
        List.map_append, ih before.length (by omega) before rfl,
        ih after.length (by omega) after rfl]
    · rw [List.splitOn_eq_singleton hmem, List.splitOn_eq_singleton (notMem_decode hb hmem)]
      rfl

/-- The ASCII characters that are read are the bytes of the ASCII range, in their order. -/
theorem filter_isAscii_decodeFrom {pending : Option Partial} (hwide : IsWide pending)
    (bytes : List UInt8) :
    (decodeFrom pending bytes).filter (fun c => decide (c.toNat < 0x80)) =
      (bytes.filter fun b => decide (b.toNat < 0x80)).map fun b => Char.ofNat b.toNat := by
  have hnone : ∀ {cs : List Char}, (∀ c ∈ cs, 0x80 ≤ c.toNat) →
      cs.filter (fun c => decide (c.toNat < 0x80)) = [] := by
    intro cs h
    rw [List.filter_eq_nil_iff]
    intro c hc
    simpa using h c hc
  induction bytes generalizing pending with
  | nil => rw [hnone fun c => le_toNat_of_mem_decodeFrom_nil]; rfl
  | cons b rest ih =>
    rw [decodeFrom_cons, List.filter_append, ih (isWide_step hwide b.toNat)]
    by_cases hb : b.toNat < 0x80
    · have hascii : (Char.ofNat b.toNat).toNat < 0x80 := by rwa [toNat_ofNat_toNat]
      rw [step_of_lt hwide hb, List.filter_append, hnone fun c => le_toNat_of_mem_decodeFrom_nil]
      simp [hb, hascii]
    · rw [hnone (step_of_ge hwide (by omega)).1]
      simp [hb]

theorem filter_isAscii_decode (bytes : List UInt8) :
    (decode bytes).filter (fun c => decide (c.toNat < 0x80)) =
      (bytes.filter fun b => decide (b.toNat < 0x80)).map fun b => Char.ofNat b.toNat :=
  filter_isAscii_decodeFrom isWide_none bytes

/-- Bytes that are a text are read as the text. -/
theorem decode_of_isValidUTF8 {bytes : List UInt8} (h : bytes.toByteArray.IsValidUTF8) :
    decode bytes = (String.fromUTF8 bytes.toByteArray h).toList := by
  obtain ⟨cs, hcs⟩ := h
  have htext : String.fromUTF8 bytes.toByteArray ⟨cs, hcs⟩ = String.ofList cs := by
    rw [← String.toByteArray_inj, String.toByteArray_ofList, ← hcs]
    rfl
  have hbytes : bytes = encode cs := by
    have hdata := congrArg (fun b : ByteArray => b.data.toList) hcs
    simpa [List.utf8Encode, encode] using hdata
  have hread := decode_encode_append [] cs
  rw [List.append_nil, ← hbytes] at hread
  rw [htext, String.toList_ofList, hread]
  exact List.append_nil cs

end Uninit.Text.Utf8

namespace Uninit

theorem Text.splitFeeds_eq_splitOn (cs : List Char) : splitFeeds cs = cs.splitOn '\n' := by
  induction cs with
  | nil => rfl
  | cons c rest ih =>
    rw [splitFeeds, List.splitOn_cons_eq_if_modifyHead, ih]
    obtain ⟨piece, more, hrest⟩ :=
      List.exists_cons_of_ne_nil (List.splitOn_ne_nil '\n' rest)
    simp [hrest]

namespace Prepared

open Text.Utf8

/-- **The ASCII characters and the lines of a file are those of its bytes**, whether the bytes are
a text or not: what stands on the two sides of such a byte is read as if it stood alone, with one
U+FFFD for each longest run that cannot be read. -/
theorem decode_ascii_exact (bytes : List UInt8) :
    (∀ cs, Reads bytes cs ↔ decode bytes = cs) ∧
    (∀ hvalid : bytes.toByteArray.IsValidUTF8,
      decode bytes = (String.fromUTF8 bytes.toByteArray hvalid).toList) ∧
    (∀ before b after, b.toNat < 0x80 → bytes = before ++ [b] ++ after →
      decode bytes = decode before ++ [Char.ofNat b.toNat] ++ decode after) ∧
    (∀ b : UInt8, b.toNat < 0x80 →
      (decode bytes).splitOn (Char.ofNat b.toNat) = (bytes.splitOn b).map decode) ∧
    ((decode bytes).filter (fun c => decide (c.toNat < 0x80)) =
      (bytes.filter fun b => decide (b.toNat < 0x80)).map fun b => Char.ofNat b.toNat) ∧
    ∀ (h : Host) (path : String), h.read path = .ok bytes →
      ∃ prepared, load h path = .ok prepared ∧ prepared.text = String.ofList (decode bytes) ∧
        ∀ k, Text.lineAt? prepared.text (k + 1) = (bytes.splitOn 0x0A)[k]?.map decode := by
  refine ⟨fun cs => reads_iff, decode_of_isValidUTF8, ?_, fun b hb => splitOn_decode hb bytes,
    filter_isAscii_decode bytes, ?_⟩
  · rintro before b after hb rfl
    rw [List.append_assoc, List.singleton_append, decode_append before hb, List.append_assoc,
      List.singleton_append]
  · intro h path hread
    refine ⟨.raw path (String.ofList (decode bytes)), ?_, rfl, fun k => ?_⟩
    · rw [load, hread]
    · have hlines := splitOn_decode (show (0x0A : UInt8).toNat < 0x80 by decide) bytes
      have hfeed : Char.ofNat (0x0A : UInt8).toNat = '\n' := by decide
      rw [hfeed] at hlines
      simp only [raw, Text.lineAt?, String.toList_ofList, Text.splitFeeds_eq_splitOn, hlines,
        List.getElem?_map]

/-- Three lines: a character that lacks its last byte, a surrogate in front of a letter, and a byte
that no character starts with. -/
def brokenBytes : List UInt8 :=
  [0x61, 0xE2, 0x82, 0x0A, 0xED, 0xA0, 0x80, 0x62, 0x0A, 0xFF]

/-- A machine with these bytes in a file. -/
def brokenHost : Host :=
  Memory.host <| .directory [("a.c".toList, .file brokenBytes false)]

theorem decode_ascii_exact_brokenBytes :
    brokenHost.read "a.c" = .ok brokenBytes ∧
      (∃ prepared, load brokenHost "a.c" = .ok prepared ∧
        Text.lineAt? prepared.text 1 = some ['a', '\uFFFD'] ∧
        Text.lineAt? prepared.text 2 = some ['\uFFFD', '\uFFFD', '\uFFFD', 'b']) ∧
      decode brokenBytes = decode [0x61, 0xE2, 0x82] ++ ['\n'] ++
        decode [0xED, 0xA0, 0x80, 0x62, 0x0A, 0xFF] ∧
      [0xC3, 0xA9].toByteArray.IsValidUTF8 ∧ decode [0xC3, 0xA9] = ['\u00e9'] := by
  have hread : brokenHost.read "a.c" = .ok brokenBytes := by decide +kernel
  obtain ⟨-, -, happend, -, -, hload⟩ := decode_ascii_exact brokenBytes
  obtain ⟨prepared, hprepared, -, hlines⟩ := hload brokenHost "a.c" hread
  have hbytes : [0xC3, 0xA9].toByteArray = "\u00e9".toByteArray := by decide +kernel
  have hvalid : [0xC3, 0xA9].toByteArray.IsValidUTF8 := hbytes ▸ String.isValidUTF8 _
  refine ⟨hread, ⟨prepared, hprepared, ?_, ?_⟩, ?_, hvalid, ?_⟩
  · rw [hlines 0]
    decide +kernel
  · rw [hlines 1]
    decide +kernel
  · exact happend [0x61, 0xE2, 0x82] 0x0A _ (by decide) rfl
  · have htext : String.fromUTF8 _ hvalid = "\u00e9" := String.toByteArray_inj.mp hbytes
    rw [(decode_ascii_exact [0xC3, 0xA9]).2.1 hvalid, htext]
    decide +kernel

end Prepared

end Uninit
