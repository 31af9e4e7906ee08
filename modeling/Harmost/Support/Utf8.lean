import Harmost.Support.Text

/-!
# UTF-8

Encoding a text, and decoding bytes that need not be an encoding of anything.
The decoder reads one byte at a time.  Inside a character it knows which bytes
may come next; a byte that may not ends an ill-formed sequence and is read
again as the first of the next one.

A byte below `0x80` is never inside a character, so what is decoded on one side
of it does not depend on the bytes on the other.
-/

namespace Harmost.Support

/-- The UTF-8 encoding of a text. -/
def utf8 (s : Str) : List UInt8 :=
  s.flatMap String.utf8EncodeChar

namespace Utf8

/-- The state of a decoder inside a character: the bits read so far, the range
of the next byte, and how many bytes follow it. -/
structure Pending where
  bits : ℕ
  lo : ℕ
  hi : ℕ
  more : ℕ
  lo_ge : 0x80 ≤ lo
  /-- Whatever comes, the character is not an ASCII one. -/
  big : 0x80 ≤ (bits * 64 + (lo - 0x80)) * 64 ^ more

/-- The state after the first byte of a longer character. -/
def lead (b : ℕ) : Option Pending :=
  if h : 0xc2 ≤ b ∧ b ≤ 0xdf then
    some ⟨b - 0xc0, 0x80, 0xbf, 0, le_rfl, by omega⟩
  else if h : 0xe0 ≤ b ∧ b ≤ 0xef then
    some ⟨b - 0xe0, if b = 0xe0 then 0xa0 else 0x80,
      if b = 0xed then 0x9f else 0xbf, 1, by split_ifs <;> omega,
      by split_ifs <;> omega⟩
  else if h : 0xf0 ≤ b ∧ b ≤ 0xf4 then
    some ⟨b - 0xf0, if b = 0xf0 then 0x90 else 0x80,
      if b = 0xf4 then 0x8f else 0xbf, 2, by split_ifs <;> omega,
      by split_ifs <;> omega⟩
  else
    none

/-- Read a byte outside of a character.  `none` stands for an ill-formed
sequence. -/
def start (b : ℕ) : List (Option Char) × Option Pending :=
  if b < 0x80 then
    ([some (Char.ofNat b)], none)
  else
    match lead b with
    | some pending => ([], some pending)
    | none => ([none], none)

/-- Read a byte that may come next. -/
def accept (pending : Pending) (b : ℕ) (h : pending.lo ≤ b) :
    List (Option Char) × Option Pending :=
  match hmore : pending.more with
  | 0 => ([some (Char.ofNat (pending.bits * 64 + (b - 0x80)))], none)
  | more + 1 =>
      ([], some ⟨pending.bits * 64 + (b - 0x80), 0x80, 0xbf, more, le_rfl, by
        have hbig := pending.big
        rw [hmore, Nat.pow_succ', ← Nat.mul_assoc] at hbig
        exact hbig.trans (Nat.mul_le_mul_right _ (by omega))⟩)

def feed : Option Pending → ℕ → List (Option Char) × Option Pending
  | none, b => start b
  | some pending, b =>
      if h : pending.lo ≤ b ∧ b ≤ pending.hi then accept pending b h.1
      else (none :: (start b).1, (start b).2)

/-- The input ends. -/
def flush : Option Pending → List (Option Char)
  | none => []
  | some _ => [none]

def decodeFrom (pending : Option Pending) : List UInt8 → List (Option Char)
  | [] => flush pending
  | b :: bytes =>
      (feed pending b.toNat).1 ++ decodeFrom (feed pending b.toNat).2 bytes

end Utf8

open Utf8

/-- `String::from_utf8_lossy`. -/
def fromUtf8Lossy (bytes : List UInt8) : Str :=
  (decodeFrom none bytes).map fun c => c.getD (Char.ofNat 0xfffd)

/-- `str::from_utf8`. -/
def fromUtf8 (bytes : List UInt8) : Option Str :=
  (decodeFrom none bytes).mapM id

namespace Utf8

/-! ## ASCII bytes are boundaries -/

theorem start_ascii {b : ℕ} (hb : b < 0x80) :
    start b = ([some (Char.ofNat b)], none) :=
  if_pos hb

theorem feed_ascii (pending : Option Pending) {b : ℕ} (hb : b < 0x80) :
    feed pending b = (flush pending ++ [some (Char.ofNat b)], none) := by
  cases pending with
  | none => rw [feed, start_ascii hb, flush, List.nil_append]
  | some pending =>
      have hlo := pending.lo_ge
      rw [feed, dif_neg (by omega), start_ascii hb, flush]
      rfl

theorem decodeFrom_append_ascii (pending : Option Pending)
    (bytes : List UInt8) {b : UInt8} (hb : b.toNat < 0x80)
    (rest : List UInt8) :
    decodeFrom pending (bytes ++ b :: rest) =
      decodeFrom pending bytes ++ some (Char.ofNat b.toNat) ::
        decodeFrom none rest := by
  induction bytes generalizing pending with
  | nil => simp [decodeFrom, feed_ascii pending hb]
  | cons x bytes ih =>
      rw [List.cons_append, decodeFrom, decodeFrom, ih, List.append_assoc]

theorem toNat_ofNat_of_isValidChar {n : ℕ} (h : n.isValidChar) :
    (Char.ofNat n).toNat = n :=
  congrArg Char.toNat (dif_pos h)

theorem toNat_ofNat_eq_or (n : ℕ) :
    (Char.ofNat n).toNat = n ∨ (Char.ofNat n).toNat = 0 := by
  by_cases h : n.isValidChar
  · exact .inl (toNat_ofNat_of_isValidChar h)
  · exact .inr (congrArg Char.toNat (dif_neg h))

theorem mem_start {b : ℕ} {c : Char} (h : some c ∈ (start b).1) :
    b < 0x80 ∧ c = Char.ofNat b := by
  rw [start] at h
  split_ifs at h with hb
  · exact ⟨hb, by simpa using h⟩
  · cases hlead : lead b <;> simp [hlead] at h

theorem mem_accept {pending : Pending} {b : ℕ} {hb : pending.lo ≤ b} {c : Char}
    (h : some c ∈ (accept pending b hb).1) :
    ∃ n, 0x80 ≤ n ∧ c = Char.ofNat n := by
  have hbig := pending.big
  rw [accept] at h
  split at h
  next hmore =>
    refine ⟨_, ?_, by simpa using h⟩
    rw [hmore] at hbig
    omega
  next => simp at h

theorem mem_feed {pending : Option Pending} {b : ℕ} {c : Char}
    (h : some c ∈ (feed pending b).1) :
    b < 0x80 ∧ c = Char.ofNat b ∨ ∃ n, 0x80 ≤ n ∧ c = Char.ofNat n := by
  cases pending with
  | none => exact .inl (mem_start h)
  | some pending =>
      rw [feed] at h
      split_ifs at h with hnext
      · exact .inr (mem_accept h)
      · exact .inl (mem_start (by simpa using h))

/-- The ASCII characters of a decoded text are bytes of the input.  The
sentinel of `Char.ofNat` is left out. -/
theorem mem_of_mem_decodeFrom {pending : Option Pending} {bytes : List UInt8}
    {c : Char} (hc : c.toNat < 0x80) (hzero : c.toNat ≠ 0)
    (h : some c ∈ decodeFrom pending bytes) :
    ∃ b ∈ bytes, b.toNat = c.toNat := by
  induction bytes generalizing pending with
  | nil => cases pending <;> simp [decodeFrom, flush] at h
  | cons b bytes ih =>
      rw [decodeFrom, List.mem_append] at h
      rcases h with hfirst | hrest
      · rcases mem_feed hfirst with ⟨hb, rfl⟩ | ⟨n, hn, rfl⟩
        · refine ⟨b, List.mem_cons_self, ?_⟩
          exact (toNat_ofNat_of_isValidChar (.inl (by omega))).symm
        · rcases toNat_ofNat_eq_or n with heq | heq <;> omega
      · obtain ⟨b', hb', heq⟩ := ih hrest
        exact ⟨b', List.mem_cons_of_mem _ hb', heq⟩

/-! ## Decoding an encoded text -/

/-- The state inside a character, without the facts that it carries. -/
def Pending.Is (pending : Pending) (bits lo hi more : ℕ) : Prop :=
  pending.bits = bits ∧ pending.lo = lo ∧ pending.hi = hi ∧ pending.more = more

theorem toNat_ofNat_byte {n : ℕ} (hn : n < 256) :
    (UInt8.ofNat n).toNat = n := by
  simpa using hn

theorem lead_two {n : ℕ} (h : 0xc2 ≤ n ∧ n ≤ 0xdf) :
    ∃ pending : Pending, pending.Is (n - 0xc0) 0x80 0xbf 0 ∧
      lead n = some pending := by
  refine ⟨_, ?_, dif_pos h⟩
  exact ⟨rfl, rfl, rfl, rfl⟩

theorem lead_three {n : ℕ} (h : 0xe0 ≤ n ∧ n ≤ 0xef) :
    ∃ pending : Pending,
      pending.Is (n - 0xe0) (if n = 0xe0 then 0xa0 else 0x80)
        (if n = 0xed then 0x9f else 0xbf) 1 ∧
      lead n = some pending := by
  refine ⟨_, ?_, (dif_neg (by omega)).trans (dif_pos h)⟩
  exact ⟨rfl, rfl, rfl, rfl⟩

theorem lead_four {n : ℕ} (h : 0xf0 ≤ n ∧ n ≤ 0xf4) :
    ∃ pending : Pending,
      pending.Is (n - 0xf0) (if n = 0xf0 then 0x90 else 0x80)
        (if n = 0xf4 then 0x8f else 0xbf) 2 ∧
      lead n = some pending := by
  refine ⟨_, ?_, (dif_neg (by omega)).trans
    ((dif_neg (by omega)).trans (dif_pos h))⟩
  exact ⟨rfl, rfl, rfl, rfl⟩

theorem decodeFrom_lead {n : ℕ} {pending : Pending} (h : lead n = some pending)
    (hn : 0x80 ≤ n ∧ n < 256) (rest : List UInt8) :
    decodeFrom none (UInt8.ofNat n :: rest) =
      decodeFrom (some pending) rest := by
  rw [decodeFrom, toNat_ofNat_byte hn.2, feed, start, if_neg (not_lt.mpr hn.1),
    h]
  rfl

theorem decodeFrom_more {pending : Pending} {bits lo hi more n : ℕ}
    (h : pending.Is bits lo hi (more + 1)) (hn : n < 64)
    (hlo : lo ≤ n + 0x80) (hhi : n + 0x80 ≤ hi) (rest : List UInt8) :
    ∃ next : Pending, next.Is (bits * 64 + n) 0x80 0xbf more ∧
      decodeFrom (some pending) (UInt8.ofNat (n + 0x80) :: rest) =
        decodeFrom (some next) rest := by
  obtain ⟨rfl, rfl, rfl, hmore⟩ := h
  have haccept : ∃ next : Pending,
      next.Is (pending.bits * 64 + n) 0x80 0xbf more ∧
        accept pending (n + 0x80) hlo = ([], some next) := by
    rw [accept]
    split
    next hzero => omega
    next more' hsucc =>
      obtain rfl : more' = more := by omega
      refine ⟨_, ?_, rfl⟩
      exact ⟨by dsimp only; omega, rfl, rfl, rfl⟩
  obtain ⟨next, hnext, heq⟩ := haccept
  refine ⟨next, hnext, ?_⟩
  rw [decodeFrom, toNat_ofNat_byte (by omega), feed, dif_pos ⟨hlo, hhi⟩, heq]
  rfl

theorem decodeFrom_last {pending : Pending} {bits lo hi n : ℕ}
    (h : pending.Is bits lo hi 0) (hn : n < 64) (hlo : lo ≤ n + 0x80)
    (hhi : n + 0x80 ≤ hi) (rest : List UInt8) :
    decodeFrom (some pending) (UInt8.ofNat (n + 0x80) :: rest) =
      some (Char.ofNat (bits * 64 + n)) :: decodeFrom none rest := by
  obtain ⟨rfl, rfl, rfl, hmore⟩ := h
  have haccept : accept pending (n + 0x80) hlo =
      ([some (Char.ofNat (pending.bits * 64 + n))], none) := by
    rw [accept]
    split
    next => rw [Nat.add_sub_cancel]
    next hsucc => omega
  rw [decodeFrom, toNat_ofNat_byte (by omega), feed, dif_pos ⟨hlo, hhi⟩,
    haccept]
  rfl

theorem decodeFrom_utf8EncodeChar (c : Char) (rest : List UInt8) :
    decodeFrom none (String.utf8EncodeChar c ++ rest) =
      some c :: decodeFrom none rest := by
  have hvalid : c.toNat < 0xd800 ∨ 0xdfff < c.toNat ∧ c.toNat < 0x110000 :=
    c.valid
  have hc : Char.ofNat c.toNat = c := Char.ofNat_toNat c
  have hval : c.val.toNat = c.toNat := rfl
  rw [String.utf8EncodeChar]
  simp only [hval]
  generalize c.toNat = v at hvalid hc ⊢
  subst hc
  clear hval
  -- one case for each length; the bits put together again are the character
  split_ifs with h1 h2 h3
  · have hb : (UInt8.ofNat v).toNat = v := toNat_ofNat_byte (by omega)
    simp [decodeFrom, hb, feed, start_ascii (show v < 0x80 by omega)]
  · have hchar : (v / 64 % 32 + 0xc0 - 0xc0) * 64 + v % 64 = v := by omega
    obtain ⟨first, hfirst, hlead⟩ := lead_two
      (n := v / 64 % 32 + 0xc0) (by omega)
    simp only [List.cons_append, List.nil_append]
    rw [decodeFrom_lead hlead (by omega),
      decodeFrom_last hfirst (by omega) (by omega) (by omega), hchar]
  · have hchar : ((v / 4096 % 16 + 0xe0 - 0xe0) * 64 + v / 64 % 64) * 64 +
        v % 64 = v := by omega
    obtain ⟨first, hfirst, hlead⟩ := lead_three
      (n := v / 4096 % 16 + 0xe0) (by omega)
    simp only [List.cons_append, List.nil_append]
    obtain ⟨second, hsecond, heq⟩ := decodeFrom_more (n := v / 64 % 64) hfirst
      (by omega) (by split_ifs <;> omega) (by split_ifs <;> omega)
      (UInt8.ofNat (v % 64 + 0x80) :: rest)
    rw [decodeFrom_lead hlead (by omega), heq,
      decodeFrom_last hsecond (by omega) (by omega) (by omega), hchar]
  · have hchar : (((v / 262144 % 8 + 0xf0 - 0xf0) * 64 + v / 4096 % 64) * 64 +
        v / 64 % 64) * 64 + v % 64 = v := by omega
    obtain ⟨first, hfirst, hlead⟩ := lead_four
      (n := v / 262144 % 8 + 0xf0) (by omega)
    simp only [List.cons_append, List.nil_append]
    obtain ⟨second, hsecond, heq⟩ := decodeFrom_more (n := v / 4096 % 64) hfirst
      (by omega) (by split_ifs <;> omega) (by split_ifs <;> omega)
      (UInt8.ofNat (v / 64 % 64 + 0x80) :: UInt8.ofNat (v % 64 + 0x80) :: rest)
    obtain ⟨third, hthird, heq'⟩ := decodeFrom_more (n := v / 64 % 64) hsecond
      (by omega) (by omega) (by omega) (UInt8.ofNat (v % 64 + 0x80) :: rest)
    rw [decodeFrom_lead hlead (by omega), heq, heq',
      decodeFrom_last hthird (by omega) (by omega) (by omega), hchar]

theorem decodeFrom_utf8_append (s : Str) (rest : List UInt8) :
    decodeFrom none (utf8 s ++ rest) = s.map some ++ decodeFrom none rest := by
  induction s with
  | nil => rfl
  | cons c s ih =>
      rw [utf8, List.flatMap_cons, List.append_assoc,
        decodeFrom_utf8EncodeChar, ← utf8, ih]
      rfl

theorem decodeFrom_utf8 (s : Str) : decodeFrom none (utf8 s) = s.map some := by
  have hdecode := decodeFrom_utf8_append s []
  rwa [List.append_nil, decodeFrom, flush, List.append_nil] at hdecode

end Utf8

theorem fromUtf8Lossy_append_ascii (bytes : List UInt8) {b : UInt8}
    (hb : b.toNat < 0x80) (rest : List UInt8) :
    fromUtf8Lossy (bytes ++ b :: rest) =
      fromUtf8Lossy bytes ++ Char.ofNat b.toNat :: fromUtf8Lossy rest := by
  simp [fromUtf8Lossy, decodeFrom_append_ascii none bytes hb]

theorem notMem_fromUtf8Lossy {bytes : List UInt8} {b : UInt8}
    (hb : b.toNat < 0x80) (hzero : b.toNat ≠ 0) (h : b ∉ bytes) :
    Char.ofNat b.toNat ∉ fromUtf8Lossy bytes := by
  have htoNat := toNat_ofNat_of_isValidChar (n := b.toNat) (.inl (by omega))
  intro hmem
  obtain ⟨c, hc, heq⟩ := List.mem_map.mp hmem
  cases c with
  | none =>
      have hreplaced : (Char.ofNat 0xfffd).toNat = b.toNat :=
        (congrArg Char.toNat heq).trans htoNat
      have hvalue : (Char.ofNat 0xfffd).toNat = 0xfffd := rfl
      omega
  | some c =>
      obtain rfl : c = Char.ofNat b.toNat := heq
      obtain ⟨b', hb', hvalue⟩ := mem_of_mem_decodeFrom (by omega) (by omega) hc
      rw [htoNat, UInt8.toNat_inj] at hvalue
      exact h (hvalue ▸ hb')

/-- An encoded text is decoded to itself. -/
theorem fromUtf8_utf8 (s : Str) : fromUtf8 (utf8 s) = some s := by
  rw [fromUtf8, decodeFrom_utf8]
  induction s with
  | nil => rfl
  | cons c s ih => simp [ih]

theorem length_utf8 (s : Str) : (utf8 s).length = byteLen s := by
  rw [utf8, List.length_flatMap, byteLen]
  exact congrArg List.sum
    (List.map_congr_left fun c _ => String.length_utf8EncodeChar c)

theorem utf8_append (s t : Str) : utf8 (s ++ t) = utf8 s ++ utf8 t :=
  List.flatMap_append

/-- No encoding of a character begins another one. -/
theorem utf8_prefix_iff {s t : Str} : utf8 s <+: utf8 t ↔ s <+: t := by
  constructor
  · rintro ⟨rest, hrest⟩
    have hdecode := congrArg (decodeFrom none) hrest
    rw [decodeFrom_utf8_append, decodeFrom_utf8] at hdecode
    have hinjective : Function.Injective (some : Char → Option Char) :=
      fun _ _ => Option.some.inj
    rw [← List.prefix_map_iff_of_injective hinjective]
    exact ⟨_, hdecode⟩
  · rintro ⟨rest, rfl⟩
    rw [utf8_append]
    exact List.prefix_append _ _

theorem utf8_injective : Function.Injective utf8 := by
  intro s t h
  have hdecode := congrArg fromUtf8 h
  rw [fromUtf8_utf8, fromUtf8_utf8] at hdecode
  exact Option.some.inj hdecode

end Harmost.Support
