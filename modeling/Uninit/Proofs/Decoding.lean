import Mathlib.Data.List.Basic
import Mathlib.Tactic.IntervalCases
import Uninit.Text.Utf8

/-!
# Bytes and the text they are read as

A text that is encoded as UTF-8 is read back unchanged: each character is one byte in the ASCII
range, or a first byte and up to three bytes of six bits each, and the reader never meets a byte
that it does not expect.

Bytes that encode no text are read too. What is read there differs from any character of the ASCII
range, and a byte of that range is read as its character whatever stands around it, so that the
lines of the text are the lines of the bytes.

## Main definitions

* `Text.Utf8.encode`: the bytes of a text
* `Text.Utf8.step`: what one byte brings
* `Text.Utf8.IsWide`: what has been started is not a character of the ASCII range

## Main statements

* `decode_encode_append`: the bytes of a text are read as the text
* `decode_append`: a byte of the ASCII range is read as its character
-/
namespace Uninit.Text.Utf8

def encode (cs : List Char) : List UInt8 :=
  cs.flatMap String.utf8EncodeChar

/-! ## One byte -/

theorem toNat_ofNat_of_lt {n : ℕ} (h : n < 256) : (UInt8.ofNat n).toNat = n := by
  rw [UInt8.toNat_ofNat']
  exact Nat.mod_eq_of_lt h

theorem toNat_ofNat_of_isValidChar {n : ℕ} (h : n.isValidChar) : (Char.ofNat n).toNat = n := by
  rw [Char.ofNat, dif_pos h]
  rfl

theorem toNat_ofNat_toNat (b : UInt8) : (Char.ofNat b.toNat).toNat = b.toNat := by
  have hb := b.toNat_lt
  exact toNat_ofNat_of_isValidChar (.inl (by omega))

theorem ofNat_toNat_injective : Function.Injective fun b : UInt8 => Char.ofNat b.toNat := by
  intro a b h
  have hnat : (Char.ofNat a.toNat).toNat = (Char.ofNat b.toNat).toNat := congrArg Char.toNat h
  rw [toNat_ofNat_toNat, toNat_ofNat_toNat] at hnat
  exact UInt8.toNat_inj.mp hnat

variable (rest : List UInt8)

theorem decodeFrom_ascii {n : ℕ} (h : n < 0x80) :
    decodeFrom none (UInt8.ofNat n :: rest) = Char.ofNat n :: decodeFrom none rest := by
  rw [decodeFrom]
  simp [toNat_ofNat_of_lt (by omega : n < 256), h]

theorem decodeFrom_start {n : ℕ} {p : Partial} (hlow : 0x80 ≤ n) (hhigh : n < 256)
    (h : start n = some p) :
    decodeFrom none (UInt8.ofNat n :: rest) = decodeFrom (some p) rest := by
  have hn : ¬ n < 0x80 := by omega
  rw [decodeFrom]
  simp [toNat_ofNat_of_lt hhigh, hn, h]

section Due

variable {k low high : ℕ} (hk : k < 64) (hlow : low ≤ k + 0x80) (hhigh : k + 0x80 ≤ high)
include hk hlow hhigh

/-- A byte that is due adds its six bits. -/
theorem decodeFrom_more (more value : ℕ) :
    decodeFrom (some ⟨more + 1, low, high, value⟩) (UInt8.ofNat (k + 0x80) :: rest) =
      decodeFrom (some ⟨more, 0x80, 0xBF, value * 64 + k⟩) rest := by
  have hbyte : (UInt8.ofNat (k + 0x80)).toNat = k + 0x80 := toNat_ofNat_of_lt (by omega)
  rw [decodeFrom]
  simp only [hbyte, hlow, hhigh, and_self, if_true, Nat.add_sub_cancel]

/-- With the last byte that is due a character is complete. -/
theorem decodeFrom_last (value : ℕ) :
    decodeFrom (some ⟨0, low, high, value⟩) (UInt8.ofNat (k + 0x80) :: rest) =
      Char.ofNat (value * 64 + k) :: decodeFrom none rest := by
  have hbyte : (UInt8.ofNat (k + 0x80)).toNat = k + 0x80 := toNat_ofNat_of_lt (by omega)
  rw [decodeFrom]
  simp only [hbyte, hlow, hhigh, and_self, if_true, Nat.add_sub_cancel]

end Due

/-! ## One character -/

section Bytes

variable {a b c d : ℕ}

theorem decodeFrom_two (ha : 2 ≤ a) (ha' : a < 32) (hb : b < 64) :
    decodeFrom none (UInt8.ofNat (a + 0xC0) :: UInt8.ofNat (b + 0x80) :: rest) =
      Char.ofNat (a * 64 + b) :: decodeFrom none rest := by
  have hstart : start (a + 0xC0) = some ⟨0, 0x80, 0xBF, a⟩ := by
    have hrange : 0xC2 ≤ a + 0xC0 ∧ a + 0xC0 ≤ 0xDF := by omega
    rw [start, if_pos hrange, Nat.add_sub_cancel]
  rw [decodeFrom_start _ (by omega) (by omega) hstart,
    decodeFrom_last _ hb (by omega) (by omega)]

/-- The second of three bytes rules out what fits in two bytes, and the surrogates. -/
theorem decodeFrom_three (ha : a < 16) (hb : b < 64) (hc : c < 64) (hlow : a = 0 → 32 ≤ b)
    (hhigh : a = 13 → b < 32) :
    decodeFrom none (UInt8.ofNat (a + 0xE0) :: UInt8.ofNat (b + 0x80) ::
        UInt8.ofNat (c + 0x80) :: rest) =
      Char.ofNat ((a * 64 + b) * 64 + c) :: decodeFrom none rest := by
  have hstart : start (a + 0xE0) =
      some ⟨1, if a = 0 then 0xA0 else 0x80, if a = 13 then 0x9F else 0xBF, a⟩ := by
    clear hlow hhigh
    interval_cases a <;> rfl
  have hlow' : (if a = 0 then 0xA0 else 0x80) ≤ b + 0x80 := by
    split <;> omega
  have hhigh' : b + 0x80 ≤ if a = 13 then 0x9F else 0xBF := by
    split <;> omega
  rw [decodeFrom_start _ (by omega) (by omega) hstart, decodeFrom_more _ hb hlow' hhigh',
    decodeFrom_last _ hc (by omega) (by omega)]

/-- The second of four bytes rules out what fits in three bytes, and what is beyond the end of
Unicode. -/
theorem decodeFrom_four (ha : a < 5) (hb : b < 64) (hc : c < 64) (hd : d < 64)
    (hlow : a = 0 → 16 ≤ b) (hhigh : a = 4 → b < 16) :
    decodeFrom none (UInt8.ofNat (a + 0xF0) :: UInt8.ofNat (b + 0x80) ::
        UInt8.ofNat (c + 0x80) :: UInt8.ofNat (d + 0x80) :: rest) =
      Char.ofNat (((a * 64 + b) * 64 + c) * 64 + d) :: decodeFrom none rest := by
  have hstart : start (a + 0xF0) =
      some ⟨2, if a = 0 then 0x90 else 0x80, if a = 4 then 0x8F else 0xBF, a⟩ := by
    clear hlow hhigh
    interval_cases a <;> rfl
  have hlow' : (if a = 0 then 0x90 else 0x80) ≤ b + 0x80 := by
    split <;> omega
  have hhigh' : b + 0x80 ≤ if a = 4 then 0x8F else 0xBF := by
    split <;> omega
  rw [decodeFrom_start _ (by omega) (by omega) hstart, decodeFrom_more _ hb hlow' hhigh',
    decodeFrom_more _ hc (by omega) (by omega), decodeFrom_last _ hd (by omega) (by omega)]

end Bytes

/-- The bytes of a character are read as the character. -/
theorem decodeFrom_encodeChar (c : Char) :
    decodeFrom none (String.utf8EncodeChar c ++ rest) = c :: decodeFrom none rest := by
  obtain ⟨v, hv⟩ : ∃ v, c.val.toNat = v := ⟨_, rfl⟩
  have hc : Char.ofNat v = c := hv ▸ Char.ofNat_toNat c
  have hvalid : v < 0xD800 ∨ 0xDFFF < v ∧ v < 0x110000 := hv ▸ c.valid
  simp only [String.utf8EncodeChar, hv]
  split_ifs with hone htwo hthree
  · rw [List.singleton_append, decodeFrom_ascii rest (by omega), hc]
  · have hbits : v / 64 % 32 * 64 + v % 64 = v := by omega
    simp only [List.cons_append, List.nil_append]
    rw [decodeFrom_two rest (by omega) (by omega) (by omega), hbits, hc]
  · have hbits : (v / 4096 % 16 * 64 + v / 64 % 64) * 64 + v % 64 = v := by omega
    simp only [List.cons_append, List.nil_append]
    rw [decodeFrom_three rest (by omega) (by omega) (by omega) (by omega) (by omega), hbits, hc]
  · have hbits : ((v / 262144 % 8 * 64 + v / 4096 % 64) * 64 + v / 64 % 64) * 64 + v % 64 = v := by
      omega
    simp only [List.cons_append, List.nil_append]
    rw [decodeFrom_four rest (by omega) (by omega) (by omega) (by omega) (by omega) (by omega),
      hbits, hc]

/-- **The bytes of a text are read as the text**, and reading starts anew behind them. -/
theorem decode_encode_append (cs : List Char) : decode (encode cs ++ rest) = cs ++ decode rest := by
  simp only [decode]
  induction cs with
  | nil => rfl
  | cons c cs ih =>
    have hcons : encode (c :: cs) = String.utf8EncodeChar c ++ encode cs := List.flatMap_cons
    rw [hcons, List.append_assoc, decodeFrom_encodeChar, ih, List.cons_append]

/-! ## Byte by byte -/

/-- What a byte brings between characters: the characters that are complete with it, and what it
leaves started. -/
def stepFresh (b : ℕ) : List Char × Option Partial :=
  if b < 0x80 then ([Char.ofNat b], none)
  else match start b with
    | some p => ([], some p)
    | none => ([replacement], none)

def step : Option Partial → ℕ → List Char × Option Partial
  | none, b => stepFresh b
  | some p, b =>
    if p.low ≤ b ∧ b ≤ p.high then
      match p.more with
      | 0 => ([Char.ofNat (p.value * 64 + (b - 0x80))], none)
      | more + 1 => ([], some ⟨more, 0x80, 0xBF, p.value * 64 + (b - 0x80)⟩)
    else (replacement :: (stepFresh b).1, (stepFresh b).2)

theorem decodeFrom_cons (pending : Option Partial) (byte : UInt8) :
    decodeFrom pending (byte :: rest) =
      (step pending byte.toNat).1 ++ decodeFrom (step pending byte.toNat).2 rest := by
  rw [decodeFrom.eq_def]
  cases pending with
  | none =>
    simp only [step, stepFresh]
    split_ifs
    · rfl
    · cases start byte.toNat <;> rfl
  | some p =>
    simp only [step, stepFresh]
    split_ifs
    · cases p.more <;> rfl
    · rfl
    · cases start byte.toNat <;> rfl

namespace Partial

/-- The least value that the bytes due can make up. -/
def least (p : Partial) : ℕ :=
  (p.value * 64 + (p.low - 0x80)) * 64 ^ p.more

/-- The bound of the values that the bytes due can make up. -/
def bound (p : Partial) : ℕ :=
  (p.value * 64 + (p.high - 0x80) + 1) * 64 ^ p.more

/-- What has been started can only become a character beyond the ASCII range, and no byte of that
range is due. -/
structure IsWide (p : Partial) : Prop where
  low : 0x80 ≤ p.low
  valid : ∀ v, p.least ≤ v → v < p.bound → 0x80 ≤ v ∧ v.isValidChar

end Partial

theorem isWide_of_start {b : ℕ} {p : Partial} (h : start b = some p) : p.IsWide := by
  rw [start] at h
  split_ifs at h
  all_goals
    obtain rfl := Option.some.inj h
    refine ⟨by simp, fun v hlow hhigh => ?_⟩
    simp only [Partial.least, Partial.bound, Nat.isValidChar] at *
    omega

section Due

variable {more low high value b : ℕ}

theorem least_le_of_due (hlow : low ≤ b) :
    Partial.least ⟨more + 1, low, high, value⟩ ≤
      Partial.least ⟨more, 0x80, 0xBF, value * 64 + (b - 0x80)⟩ := by
  have hvalue : value * 64 + (low - 0x80) ≤ value * 64 + (b - 0x80) := by omega
  simp only [Partial.least, Nat.sub_self, Nat.add_zero, Nat.pow_succ', ← Nat.mul_assoc]
  gcongr

theorem bound_le_of_due (hhigh : b ≤ high) :
    Partial.bound ⟨more, 0x80, 0xBF, value * 64 + (b - 0x80)⟩ ≤
      Partial.bound ⟨more + 1, low, high, value⟩ := by
  have hvalue : (value * 64 + (b - 0x80)) * 64 + (0xBF - 0x80) + 1 ≤
      (value * 64 + (high - 0x80) + 1) * 64 := by
    omega
  simp only [Partial.bound, Nat.pow_succ', ← Nat.mul_assoc]
  exact Nat.mul_le_mul_right _ hvalue

/-- A byte that is due narrows what the character can become. -/
theorem isWide_of_due (h : Partial.IsWide ⟨more + 1, low, high, value⟩) (hlow : low ≤ b)
    (hhigh : b ≤ high) : Partial.IsWide ⟨more, 0x80, 0xBF, value * 64 + (b - 0x80)⟩ :=
  ⟨Nat.le_refl _, fun v hv hv' => h.valid v (Nat.le_trans (least_le_of_due hlow) hv)
    (Nat.lt_of_lt_of_le hv' (bound_le_of_due hhigh))⟩

/-- The last byte that is due completes a character beyond the ASCII range. -/
theorem le_toNat_of_due (h : Partial.IsWide ⟨0, low, high, value⟩) (hlow : low ≤ b)
    (hhigh : b ≤ high) : 0x80 ≤ (Char.ofNat (value * 64 + (b - 0x80))).toNat := by
  have hvalue : 0x80 ≤ value * 64 + (b - 0x80) ∧ (value * 64 + (b - 0x80)).isValidChar := by
    refine h.valid _ ?_ ?_
    · simp only [Partial.least]
      omega
    · simp only [Partial.bound]
      omega
  rw [toNat_ofNat_of_isValidChar hvalue.2]
  exact hvalue.1

end Due

/-- Nothing has been started, or a character beyond the ASCII range. -/
def IsWide (pending : Option Partial) : Prop :=
  ∀ p, pending = some p → p.IsWide

theorem isWide_none : IsWide none := by simp [IsWide]

theorem isWide_some {p : Partial} (h : p.IsWide) : IsWide (some p) := by
  simpa [IsWide] using h

/-- **A byte of the ASCII range ends what has been started** and is read as its character. -/
theorem step_of_lt {pending : Option Partial} (hwide : IsWide pending) {b : ℕ} (hb : b < 0x80) :
    step pending b = (decodeFrom pending [] ++ [Char.ofNat b], none) := by
  cases pending with
  | none => simp [step, stepFresh, hb, decodeFrom]
  | some p =>
    have hlow := (hwide p rfl).low
    have hdue : ¬ (p.low ≤ b ∧ b ≤ p.high) := by omega
    simp [step, stepFresh, hb, hdue, decodeFrom]

/-- Any other byte is read as nothing but characters beyond the ASCII range. -/
theorem step_of_ge {pending : Option Partial} (hwide : IsWide pending) {b : ℕ} (hb : 0x80 ≤ b) :
    (∀ c ∈ (step pending b).1, 0x80 ≤ c.toNat) ∧ IsWide (step pending b).2 := by
  have hfresh : (∀ c ∈ (stepFresh b).1, 0x80 ≤ c.toNat) ∧ IsWide (stepFresh b).2 := by
    rw [stepFresh, if_neg (by omega)]
    cases hstart : start b with
    | none => exact ⟨by simp [replacement], isWide_none⟩
    | some p => exact ⟨by simp, isWide_some (isWide_of_start hstart)⟩
  cases pending with
  | none => exact hfresh
  | some p =>
    obtain ⟨more, low, high, value⟩ := p
    have hp := hwide _ rfl
    rw [step]
    split_ifs with hdue
    · cases more with
      | zero => exact ⟨by simpa using le_toNat_of_due hp hdue.1 hdue.2, isWide_none⟩
      | succ more => exact ⟨by simp, isWide_some (isWide_of_due hp hdue.1 hdue.2)⟩
    · refine ⟨?_, hfresh.2⟩
      rw [List.forall_mem_cons]
      exact ⟨by decide, hfresh.1⟩

theorem isWide_step {pending : Option Partial} (hwide : IsWide pending) (b : ℕ) :
    IsWide (step pending b).2 := by
  rcases Nat.lt_or_ge b 0x80 with hb | hb
  · rw [step_of_lt hwide hb]
    exact isWide_none
  · exact (step_of_ge hwide hb).2

theorem step_ne (pending : Option Partial) (b : ℕ) : step pending b ≠ ([], none) := by
  cases pending with
  | none =>
    rw [step, stepFresh]
    split_ifs
    · simp
    · cases start b <;> simp
  | some p =>
    rw [step]
    split_ifs
    · cases p.more <;> simp
    · simp

theorem eq_none_of_decodeFrom_nil {pending : Option Partial} (h : decodeFrom pending [] = []) :
    pending = none := by
  cases pending with
  | none => rfl
  | some p => simp [decodeFrom] at h

theorem le_toNat_of_mem_decodeFrom_nil {pending : Option Partial} {c : Char}
    (h : c ∈ decodeFrom pending []) : 0x80 ≤ c.toNat := by
  cases pending with
  | none => simp [decodeFrom] at h
  | some p =>
    simp only [decodeFrom, List.mem_singleton] at h
    rw [h]
    decide

/-! ## Bytes of the ASCII range -/

section Ascii

variable {pending : Option Partial} (hwide : IsWide pending)
include hwide

/-- Reading starts anew behind a byte of the ASCII range. -/
theorem decodeFrom_append (before : List UInt8) {b : UInt8} (hb : b.toNat < 0x80)
    (after : List UInt8) :
    decodeFrom pending (before ++ b :: after) =
      decodeFrom pending before ++ Char.ofNat b.toNat :: decode after := by
  induction before generalizing pending with
  | nil =>
    rw [List.nil_append, decodeFrom_cons, step_of_lt hwide hb, List.append_assoc, decode]
    rfl
  | cons x before ih =>
    rw [List.cons_append, decodeFrom_cons, ih (isWide_step hwide _), decodeFrom_cons,
      List.append_assoc]

/-- Behind any other byte stands a character beyond the ASCII range. -/
theorem exists_getLast?_decodeFrom (before : List UInt8) {b : UInt8} (hb : 0x80 ≤ b.toNat) :
    ∃ c, (decodeFrom pending (before ++ [b])).getLast? = some c ∧ 0x80 ≤ c.toNat := by
  induction before generalizing pending with
  | nil =>
    have hne : decodeFrom pending [b] ≠ [] := by
      rw [decodeFrom_cons]
      intro h
      obtain ⟨hfirst, hlast⟩ := List.append_eq_nil_iff.mp h
      exact step_ne pending b.toNat (Prod.ext hfirst (eq_none_of_decodeFrom_nil hlast))
    have hall : ∀ c ∈ decodeFrom pending [b], 0x80 ≤ c.toNat := by
      rw [decodeFrom_cons]
      intro c hc
      rcases List.mem_append.mp hc with hc | hc
      · exact (step_of_ge hwide hb).1 c hc
      · exact le_toNat_of_mem_decodeFrom_nil hc
    exact ⟨_, List.getLast?_eq_some_getLast hne, hall _ (List.getLast_mem hne)⟩
  | cons x before ih =>
    obtain ⟨c, hc, hle⟩ := ih (isWide_step hwide x.toNat)
    refine ⟨c, ?_, hle⟩
    rw [List.cons_append, decodeFrom_cons, List.getLast?_append, hc, Option.some_or]

/-- A byte of the ASCII range is read from nothing but itself. -/
theorem notMem_decodeFrom {b : UInt8} (hb : b.toNat < 0x80) {bytes : List UInt8}
    (h : b ∉ bytes) : Char.ofNat b.toNat ∉ decodeFrom pending bytes := by
  have hascii : ¬ 0x80 ≤ (Char.ofNat b.toNat).toNat := by
    rw [toNat_ofNat_toNat]
    omega
  induction bytes generalizing pending with
  | nil => exact fun hmem => hascii (le_toNat_of_mem_decodeFrom_nil hmem)
  | cons x rest ih =>
    rw [List.mem_cons, not_or] at h
    have hrest := ih (isWide_step hwide x.toNat) h.2
    rw [decodeFrom_cons, List.mem_append, not_or]
    refine ⟨fun hmem => ?_, hrest⟩
    rcases Nat.lt_or_ge x.toNat 0x80 with hx | hx
    · rw [step_of_lt hwide hx, List.mem_append, List.mem_singleton] at hmem
      rcases hmem with hmem | hmem
      · exact hascii (le_toNat_of_mem_decodeFrom_nil hmem)
      · exact h.1 (ofNat_toNat_injective hmem)
    · exact hascii ((step_of_ge hwide hx).1 _ hmem)

end Ascii

/-- **A byte of the ASCII range is read as its character**, whatever stands around it. -/
theorem decode_append (before : List UInt8) {b : UInt8} (hb : b.toNat < 0x80)
    (after : List UInt8) :
    decode (before ++ b :: after) = decode before ++ Char.ofNat b.toNat :: decode after :=
  decodeFrom_append isWide_none before hb after

theorem notMem_decode {b : UInt8} (hb : b.toNat < 0x80) {bytes : List UInt8} (h : b ∉ bytes) :
    Char.ofNat b.toNat ∉ decode bytes :=
  notMem_decodeFrom isWide_none hb h

/-- What is read ends in a character of the ASCII range only if the bytes do. -/
theorem getLast?_decode_ne {b : UInt8} (hb : b.toNat < 0x80) {bytes : List UInt8}
    (h : bytes.getLast? ≠ some b) : (decode bytes).getLast? ≠ some (Char.ofNat b.toNat) := by
  rcases List.eq_nil_or_concat bytes with rfl | ⟨before, x, rfl⟩
  · simp [decode, decodeFrom]
  · rw [List.concat_eq_append] at h ⊢
    intro hlast
    rcases Nat.lt_or_ge x.toNat 0x80 with hx | hx
    · have hnil : decode [] = [] := rfl
      rw [decode_append before hx, hnil, List.getLast?_concat] at hlast
      rw [List.getLast?_concat] at h
      exact h (congrArg some (ofNat_toNat_injective (Option.some.inj hlast)))
    · obtain ⟨c, hc, hle⟩ := exists_getLast?_decodeFrom isWide_none before hx
      rw [decode, hc] at hlast
      rw [Option.some.inj hlast, toNat_ofNat_toNat] at hle
      omega

end Uninit.Text.Utf8
