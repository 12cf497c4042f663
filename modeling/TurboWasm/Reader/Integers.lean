/-
# The integer decoders against the binary grammar

The five decoders of `reader.c` and `validate_type.c` are loops over a shifted accumulator, each
with its own rule for the last byte it may read.  Seen from the bits still to come they are one
loop: `Loop` says what a single pass does with the next byte, `Loop.decodes` follows the grammar of
`Lib/Leb128.lean` through the passes by induction on the bytes left, and the five instances check
one pass each.

`lebDecoders_exact` states the result for all of them: what is accepted is an encoding of the
grammar, with its value and its length, and everything that is not one is refused.
-/
import TurboWasm.Reader
import TurboWasm.Lib.Leb128

namespace TurboWasm
namespace Reader

open Lib Option

/-- `r'` is `r` after `bytes`. -/
def Consumes (r : Reader) (bytes : List UInt8) (r' : Reader) : Prop :=
  r.rest = bytes ++ r'.rest ∧ r'.cursor = r.cursor + bytes.length

/-- `decode` is the decoder of the `N`-bit integers from `lo` up to `hi` in the format of `last`:
it answers exactly on the encodings of the grammar, each integer has one, and an encoding with any
bytes behind it is decoded. -/
structure IsDecoder {α : Type} (val : α → Int) (last : Nat → Nat → Option Int) (N : Nat)
    (lo hi : Int) (decode : Reader → Option (α × Reader)) : Prop where
  exact : ∀ r v r', decode r = some (v, r') ↔
    ∃ bytes, Encodes last N bytes (val v) ∧ r.Consumes bytes r'
  length : ∀ bytes v, Encodes last N bytes v → bytes.length ≤ (N + 6) / 7
  range : ∀ bytes v, Encodes last N bytes v → lo ≤ v ∧ v < hi
  encoding : ∀ v, lo ≤ v → v < hi → ∃ bytes, Encodes last N bytes v
  decoding : ∀ bytes v, Encodes last N bytes v → ∃ n, val n = v ∧
    ∀ c rest, decode ⟨c, bytes ++ rest⟩ = some (n, ⟨c + bytes.length, rest⟩)

/-! ## 1. One pass of a loop -/

/-- A decoder's loop.  `value` holds the `shift` bits read so far and `left` more bytes may follow
the next one, `k` being the shift of the last byte.  A pass refuses the byte, goes on with the
value `acc`, or answers `out`.  Only the last byte may be refused. -/
structure Loop {α : Type} (val : α → Int) (last : Nat → Nat → Option Int) (N k : Nat)
    (loop : Nat → Nat → Nat → Reader → Option (α × Reader)) (refused : Nat → Nat → UInt8 → Bool)
    (acc : Nat → Nat → UInt8 → Nat) (out : Nat → Nat → Nat → UInt8 → α) : Prop where
  width : k < N ∧ N ≤ k + 7
  injective : Function.Injective val
  ended : ∀ value shift r, loop value shift 0 r = none
  truncated : ∀ value shift left c, loop value shift (left + 1) ⟨c, []⟩ = none
  pass : ∀ value shift left c b rest, loop value shift (left + 1) ⟨c, b :: rest⟩ =
    if refused shift left b then none
    else if b &&& 0x80 ≠ 0 then loop (acc value shift b) (shift + 7) left ⟨c + 1, rest⟩
    else some (out value shift left b, ⟨c + 1, rest⟩)
  early : ∀ {shift left b}, shift + 7 * (left + 1) = k → refused shift (left + 1) b = false
  acc_eq : ∀ {value shift b}, shift + 7 ≤ k → value < 2 ^ shift →
    acc value shift b = value + 2 ^ shift * (b.toNat % 2 ^ 7)
  wide : ∀ {value shift left b}, shift + 7 * (left + 1) = k → value < 2 ^ shift →
    b.toNat < 2 ^ 7 → ∃ m, last (N - shift) b.toNat = some m ∧
      val (out value shift (left + 1) b) = value + 2 ^ shift * m
  narrow : ∀ b, b.toNat < 2 ^ 7 → (refused k 0 b ↔ last (N - k) b.toNat = none)
  closing : ∀ {value b m}, value < 2 ^ k → b.toNat < 2 ^ 7 → last (N - k) b.toNat = some m →
    val (out value k 0 b) = value + 2 ^ k * m

section
variable {α : Type} {N : Nat}

variable {value shift : Nat} {b : UInt8} {rest : List UInt8}

/-- An encoding of a value at the front of a reader, by its first byte. -/
theorem encodes_reads_cons :
    (∃ bytes, Encodes last M bytes m ∧ Consumes ⟨c, b :: rest⟩ bytes r') ↔
      (b.toNat < 2 ^ 7 ∧ last M b.toNat = some m ∧ r' = ⟨c + 1, rest⟩) ∨
        (2 ^ 7 ≤ b.toNat ∧ 7 < M ∧ ∃ m', m = 2 ^ 7 * m' + (b.toNat - 2 ^ 7) ∧
          ∃ bytes, Encodes last (M - 7) bytes m' ∧ Consumes ⟨c + 1, rest⟩ bytes r') := by
  constructor
  · rintro ⟨bytes, henc, hrest, hcur⟩
    cases henc with
    | last hb h =>
      obtain ⟨rfl, rfl⟩ := List.cons.inj hrest
      exact .inl ⟨hb, h, congrArg (Reader.mk · r'.rest) hcur⟩
    | @more _ _ bs m' hb hM henc =>
      obtain ⟨rfl, htail⟩ := List.cons.inj hrest
      refine .inr ⟨hb, hM, m', rfl, bs, henc, htail, ?_⟩
      rw [hcur, List.length_cons]
      exact c.add_right_comm bs.length 1
  · rintro (⟨hb, h, rfl⟩ | ⟨hb, hM, m', rfl, bs, henc, hrest, hcur⟩)
    · exact ⟨[b], .last hb h, rfl, rfl⟩
    · refine ⟨b :: bs, .more hb hM henc, congrArg (b :: ·) hrest, ?_⟩
      rw [hcur, List.length_cons]
      exact c.add_right_comm 1 bs.length

theorem forall_byte {p : UInt8 → Prop} (h : ∀ n < 256, p (UInt8.ofNat n)) (b : UInt8) : p b := by
  have := h b.toNat b.toNat_lt
  rwa [UInt8.ofNat_toNat] at this

/-- The tests of the decoders on a byte, in arithmetic: it goes on, its sign, and the last bytes of
unsigned numbers that are refused with 4 bits and with 1 bit left. -/
theorem byte_tests (b : UInt8) : (b &&& 0x80 ≠ 0 ↔ 2 ^ 7 ≤ b.toNat) ∧ (b.toNat < 2 ^ 7 →
    (b &&& 0x40 ≠ 0 ↔ 2 ^ 6 ≤ b.toNat) ∧ (b &&& 0xf0 ≠ 0 ↔ unsignedLast 4 b.toNat = none) ∧
    (b &&& 0xfe ≠ 0 ↔ unsignedLast 1 b.toNat = none)) := by
  revert b
  refine forall_byte ?_
  decide +kernel

theorem continues_iff (b : UInt8) : b &&& 0x80 ≠ 0 ↔ 2 ^ 7 ≤ b.toNat := (byte_tests b).1

/-- A byte without the top bit ends the loop as the grammar's last byte does. -/
theorem Loop.final (hl : Loop val last N k loop refused acc out) {v : α} {r' : Reader}
    (hs : shift + 7 * left = k) (hv : value < 2 ^ shift) (hb : b.toNat < 2 ^ 7) :
    loop value shift (left + 1) ⟨c, b :: rest⟩ = some (v, r') ↔
      ∃ m, last (N - shift) b.toNat = some m ∧ val v = value + 2 ^ shift * m ∧
        r' = ⟨c + 1, rest⟩ := by
  obtain ⟨hbad, hout⟩ : (refused shift left b ↔ last (N - shift) b.toNat = none) ∧
      ∀ m, last (N - shift) b.toNat = some m →
        val (out value shift left b) = value + 2 ^ shift * m := by
    rcases left with _ | left
    · obtain rfl : shift = k := hs
      exact ⟨hl.narrow b hb, fun m => hl.closing hv hb⟩
    · obtain ⟨m, hm, hout⟩ := hl.wide hs hv hb
      refine ⟨by simp [hl.early hs, hm], fun m' hm' => ?_⟩
      rw [hm] at hm'
      exact some.inj hm' ▸ hout
  have hlast : ¬ b &&& 0x80 ≠ 0 := by
    rw [continues_iff]
    omega
  rw [hl.pass, if_neg hlast, ite_none_left_eq_some, hbad, some.injEq, Prod.mk.injEq]
  constructor
  · rintro ⟨hsome, rfl, rfl⟩
    obtain ⟨m, hm⟩ := ne_none_iff_exists'.mp hsome
    exact ⟨m, hm, hout m hm, rfl⟩
  · rintro ⟨m, hm, hval, rfl⟩
    exact ⟨by simp [hm], hl.injective ((hout m hm).trans hval.symm), rfl⟩

/-- A byte with the top bit is followed by the rest of the number, or by nothing. -/
theorem Loop.more (hl : Loop val last N k loop refused acc out) (hs : shift + 7 * left = k)
    (hv : value < 2 ^ shift)
    (hb : 2 ^ 7 ≤ b.toNat) : loop value shift (left + 1) ⟨c, b :: rest⟩ =
      if left = 0 then none
      else loop (value + 2 ^ shift * (b.toNat - 2 ^ 7)) (shift + 7) left ⟨c + 1, rest⟩ := by
  rw [hl.pass, if_pos ((continues_iff b).mpr hb)]
  rcases left with _ | left
  · rw [hl.ended, ite_self, if_pos rfl]
  · have hlt := b.toNat_lt
    rw [hl.early hs, hl.acc_eq (by omega) hv, show b.toNat % 2 ^ 7 = b.toNat - 2 ^ 7 by omega]
    rfl

theorem or_shift_lt (hv : v < 2 ^ s) (hp : p < 2 ^ k) :
    v ||| (p <<< s) < 2 ^ (s + k) := by
  refine Nat.or_lt_two_pow (hv.trans_le (Nat.pow_le_pow_right (by omega) (by omega))) ?_
  rw [Nat.shiftLeft_eq, pow_add, mul_comm]
  exact Nat.mul_lt_mul_of_pos_left hp s.two_pow_pos

/-- The next seven bits above those read. -/
theorem or_shift_eq (n : Nat) (h : value < 2 ^ shift) :
    value ||| (n <<< shift) = value + 2 ^ shift * n := by
  rw [Nat.or_comm, ← Nat.shiftLeft_add_eq_or_of_lt h, Nat.shiftLeft_eq, mul_comm, add_comm]

theorem acc_lt (h : value < 2 ^ shift) (hn : n < 2 ^ 7) :
    value + 2 ^ shift * n < 2 ^ (shift + 7) := by
  rw [← or_shift_eq n h]
  exact or_shift_lt h hn

/-- A loop reads the grammar's value for the bits left, above the bits it has. -/
theorem Loop.run (hl : Loop val last N k loop refused acc out) (left : Nat) :
    ∀ {value shift r v r'}, shift + 7 * left = k → value < 2 ^ shift →
      (loop value shift (left + 1) r = some (v, r') ↔ ∃ m, val v = value + 2 ^ shift * m ∧
          ∃ bytes, Encodes last (N - shift) bytes m ∧ r.Consumes bytes r') := by
  have hwidth := hl.width
  -- on the bytes left: a byte is the last one, or the grammar and the loop both go on behind it
  induction left using Nat.strongRecOn with
  | ind left ih =>
    intro value shift r v r' hs hv
    obtain ⟨c, _ | ⟨b, rest⟩⟩ := r
    · rw [hl.truncated]
      simp only [reduceCtorEq, false_iff]
      rintro ⟨m, -, bytes, henc, hrest, -⟩
      cases henc <;> cases hrest
    simp only [encodes_reads_cons]
    by_cases hb : b.toNat < 2 ^ 7
    · rw [hl.final hs hv hb]
      constructor
      · rintro ⟨m, hm, hval, rfl⟩
        exact ⟨m, hval, .inl ⟨hb, hm, rfl⟩⟩
      · rintro ⟨m, hval, ⟨-, hm, rfl⟩ | ⟨hge, -⟩⟩
        · exact ⟨m, hm, hval, rfl⟩
        · omega
    have hb' : 2 ^ 7 ≤ b.toNat := by omega
    rw [hl.more hs hv hb']
    rcases left with _ | left
    · -- no byte may follow, and fewer than eight bits are left
      simp only [if_true, reduceCtorEq, false_iff]
      rintro ⟨m, -, ⟨hlt, -⟩ | ⟨-, hM, -⟩⟩ <;> omega
    have hbyte := b.toNat_lt
    have hacc : value + 2 ^ shift * (b.toNat - 2 ^ 7) < 2 ^ (shift + 7) :=
      acc_lt hv (by omega)
    have hcast : ((value + 2 ^ shift * (b.toNat - 2 ^ 7) : Nat) : Int)
        = value + 2 ^ shift * (b.toNat - 2 ^ 7) := by
      rw [Nat.cast_add, Nat.cast_mul, Nat.cast_sub hb', Nat.cast_pow, Nat.cast_pow]
      rfl
    rw [if_neg (by omega), ih left (by omega) (by omega) hacc, hcast, Nat.sub_add_eq, pow_add]
    constructor
    · rintro ⟨m, hval, henc⟩
      refine ⟨2 ^ 7 * m + (b.toNat - 2 ^ 7), ?_, .inr ⟨hb', by omega, m, rfl, henc⟩⟩
      rw [hval]
      ring
    · rintro ⟨m, hval, ⟨hlt, -⟩ | ⟨-, -, m', rfl, henc⟩⟩
      · omega
      · refine ⟨m', ?_, henc⟩
        rw [hval]
        ring

/-- A loop entered with nothing read is a decoder. -/
theorem Loop.exact (hl : Loop val last N k loop refused acc out) (hk : 7 * left = k) (r : Reader)
    (v : α) (r' : Reader) : loop 0 0 (left + 1) r = some (v, r') ↔
      ∃ bytes, Encodes last N bytes (val v) ∧ r.Consumes bytes r' := by
  rw [hl.run left (by omega) (by decide)]
  simp

end

/-! ## 2. The unsigned decoders -/

variable {value shift : Nat} {b : UInt8}

theorem payload_eq (b : UInt8) : (b &&& 0x7f).toNat = b.toNat % 2 ^ 7 := by
  exact b.toNat.and_two_pow_sub_one_eq_mod 7

theorem payload_lt (b : UInt8) : (b &&& 0x7f).toNat < 2 ^ 7 := by
  exact Nat.and_lt_two_pow _ (by decide)

/-- The value with the payload of the next byte. -/
def orPayload (value shift : Nat) (b : UInt8) : Nat := value ||| ((b &&& 0x7f).toNat <<< shift)

theorem or_payload (b : UInt8) (h : value < 2 ^ shift) :
    orPayload value shift b = value + 2 ^ shift * (b.toNat % 2 ^ 7) := by
  rw [orPayload, payload_eq, or_shift_eq _ h]

/-- The answer of an unsigned decoder at an accepted last byte. -/
theorem unsigned_out (hv : value < 2 ^ shift)
    (hb : b.toNat < 2 ^ 7) (h : unsignedLast M b.toNat = some m) :
    (orPayload value shift b : Int) = value + 2 ^ shift * m := by
  obtain ⟨-, rfl⟩ := unsignedLast_eq_some.mp h
  rw [or_payload b hv, Nat.mod_eq_of_lt hb]
  rfl

/-- A byte that more may follow leaves room for its seven bits. -/
theorem unsignedLast_wide (hn : n < 2 ^ 7) (hM : 7 ≤ M) :
    unsignedLast M n = some (n : Int) :=
  unsignedLast_eq_some.mpr ⟨hn.trans_le (Nat.pow_le_pow_right (by decide) hM), rfl⟩

theorem uleb32_loop : Loop Nat.cast unsignedLast 32 28 uleb32From
    (fun shift _ b => shift = 28 ∧ b &&& 0xf0 ≠ 0) orPayload
    (fun value shift _ b => orPayload value shift b) where
  width := by decide
  injective := Nat.cast_injective
  ended := fun _ _ _ => rfl
  truncated := fun _ _ _ _ => rfl
  pass := fun _ _ _ _ _ _ => by simp only [uleb32From, u8, orPayload, decide_eq_true_eq]
  early := fun hs => by simp; omega
  acc_eq := fun _ hv => or_payload _ hv
  wide := fun _ hv hb => ⟨_, unsignedLast_wide hb (by omega),
    unsigned_out hv hb (unsignedLast_wide hb le_rfl)⟩
  narrow := fun b hb => by simpa using ((byte_tests b).2 hb).2.1
  closing := unsigned_out

theorem uleb64_loop : Loop Nat.cast unsignedLast 64 63 uleb64From
    (fun _ left b => left = 0 ∧ b &&& 0xfe ≠ 0) orPayload
    (fun value shift _ b => orPayload value shift b) where
  width := by decide
  injective := Nat.cast_injective
  ended := fun _ _ _ => rfl
  truncated := fun _ _ _ _ => rfl
  pass := fun _ _ _ _ _ _ => by simp only [uleb64From, u8, orPayload, decide_eq_true_eq]
  early := fun _ => by simp
  acc_eq := fun _ hv => or_payload _ hv
  wide := fun _ hv hb => ⟨_, unsignedLast_wide hb (by omega),
    unsigned_out hv hb (unsignedLast_wide hb le_rfl)⟩
  narrow := fun b hb => by simpa using ((byte_tests b).2 hb).2.2
  closing := unsigned_out

theorem uleb32_le {r r' : Reader} {n : Nat} (h : r.uleb32 = some (n, r')) : n ≤ uint32Max := by
  obtain ⟨bytes, henc, -⟩ := (uleb32_loop.exact rfl r n r').mp h
  have := henc.unsigned_range.2
  unfold uint32Max
  omega

theorem uleb64_le {r : Reader} (h : r.uleb64 = some (n, r')) : n ≤ uint64Max := by
  obtain ⟨bytes, henc, -⟩ := (uleb64_loop.exact rfl r n r').mp h
  have := henc.unsigned_range.2
  unfold uint64Max
  omega

/-! ## 3. The signed decoders -/

/-- The test of a signed decoder on the last byte: the bits of `rest` repeat the bit of `sign`. -/
def signedRefused (sign rest b : UInt8) : Bool :=
  (¬ (b &&& 0x7f) &&& sign ≠ 0 ∧ (b &&& 0x7f) &&& rest ≠ 0) ∨
    ((b &&& 0x7f) &&& sign ≠ 0 ∧ (b &&& 0x7f) &&& rest ≠ rest)

/-- The last bytes of signed numbers that are refused with 4, 1 and 5 bits left.  Bit 4 is the sign
of those that are accepted with 5. -/
theorem signed_tests (b : UInt8) : b.toNat < 2 ^ 7 →
    (signedRefused 0x08 0x70 b ↔ signedLast 4 b.toNat = none) ∧
    (signedRefused 0x01 0x7e b ↔ signedLast 1 b.toNat = none) ∧
    (signedRefused 0x10 0x60 b ↔ signedLast 5 b.toNat = none) ∧
    (signedLast 5 b.toNat ≠ none → (b &&& 0x10 ≠ 0 ↔ 2 ^ 6 ≤ b.toNat)) := by
  revert b
  refine forall_byte ?_
  decide +kernel

theorem sign_iff (hb : b.toNat < 2 ^ 7) : b &&& 0x40 ≠ 0 ↔ 2 ^ 6 ≤ b.toNat :=
  ((byte_tests b).2 hb).1

/-- Two's complement of `t` bits in a wider word. -/
theorem signExtend_eq (ht : t < w) (hv : v < 2 ^ t) :
    signExtend w v t negative = if negative then (v : Int) - 2 ^ t else v := by
  have hle : 2 ^ t ≤ 2 ^ (w - 1) := Nat.pow_le_pow_right (by decide) (by omega)
  have hw : 2 ^ w = 2 * 2 ^ (w - 1) := by
    rw [← pow_succ']
    congr 1
    omega
  have hcast : ((2 ^ w : Nat) : Int) = 2 ^ w ∧ ((2 ^ t : Nat) : Int) = 2 ^ t := by
    constructor <;> norm_cast
  cases negative with
  | false => simp [signExtend, show v < 2 ^ (w - 1) by omega]
  | true =>
    simp only [signExtend, ht, and_self, if_true]
    omega

/-- A last byte that is not the longest encoding's: no bit of it is unused. -/
theorem signedLast_wide (hn : n < 2 ^ 7) (hM : 7 < M) :
    signedLast M n = some (if 2 ^ 6 ≤ n then (n - 2 ^ 7 : Int) else (n : Int)) := by
  have := Nat.pow_le_pow_right (n := 2) (by decide) (by omega : 7 ≤ M - 1)
  rw [signedLast_eq_some]
  split <;> omega

/-- The answer of a signed decoder, in a word of `w` bits, at a byte that more may follow. -/
theorem signed_out (hM : 7 < M) (hw : shift + 7 < w)
    (hv : value < 2 ^ shift) (hb : b.toNat < 2 ^ 7) : ∃ m, signedLast M b.toNat = some m ∧
      signExtend w (orPayload value shift b) (shift + 7) (b &&& 0x40 ≠ 0) =
        value + 2 ^ shift * m := by
  refine ⟨_, signedLast_wide hb hM, ?_⟩
  rw [or_payload b hv, Nat.mod_eq_of_lt hb, signExtend_eq hw (acc_lt hv hb)]
  simp only [decide_eq_true_eq, sign_iff hb]
  push_cast
  split <;> ring

/-- The bits read so far fit in the word of `w` bits. -/
theorem word_eq (b : UInt8) (hw : shift + 7 ≤ w) (hv : value < 2 ^ shift) :
    orPayload value shift b % 2 ^ w = orPayload value shift b :=
  Nat.mod_eq_of_lt ((or_shift_lt hv (payload_lt b)).trans_le (Nat.pow_le_pow_right (by decide) hw))

theorem sleb32_loop : Loop id signedLast 32 28 sleb32From
    (fun _ left b => left = 0 ∧ signedRefused 0x08 0x70 b)
    (fun value shift b => orPayload value shift b % 2 ^ 32)
    (fun value shift _ b => signExtend 32 (orPayload value shift b % 2 ^ 32) (shift + 7)
      (b &&& 0x40 ≠ 0)) where
  width := by decide
  injective := Function.injective_id
  ended := fun _ _ _ => rfl
  truncated := fun _ _ _ _ => rfl
  pass := fun _ _ _ _ _ _ => by
    simp only [sleb32From, u8, orPayload, signedRefused, decide_eq_true_eq]
  early := fun _ => by simp
  acc_eq := fun hs hv => by rw [word_eq _ (by omega) hv, or_payload _ hv]
  wide := fun hs hv hb => by
    rw [word_eq _ (by omega) hv]
    exact signed_out (by omega) (by omega) hv hb
  narrow := fun b hb => by simpa using (signed_tests b hb).1
  closing := fun hv hb h => by
    have := signedLast_eq_some.mp h
    rw [or_payload _ hv, Nat.mod_eq_of_lt hb]
    simp [signExtend]
    split <;> omega

theorem sleb64_loop : Loop id signedLast 64 63 sleb64From
    (fun _ left b => left = 0 ∧ signedRefused 0x01 0x7e b)
    (fun value shift b => orPayload value shift b % 2 ^ 64)
    (fun value shift _ b => signExtend 64 (orPayload value shift b % 2 ^ 64) (shift + 7)
      (b &&& 0x40 ≠ 0)) where
  width := by decide
  injective := Function.injective_id
  ended := fun _ _ _ => rfl
  truncated := fun _ _ _ _ => rfl
  pass := fun _ _ _ _ _ _ => by
    simp [sleb64From, u8, orPayload, signedRefused]
  early := fun _ => by simp
  acc_eq := fun hs hv => by rw [word_eq _ (by omega) hv, or_payload _ hv]
  wide := fun hs hv hb => by
    rw [word_eq _ (by omega) hv]
    exact signed_out (by omega) (by omega) hv hb
  narrow := fun b hb => by simpa using (signed_tests b hb).2.1
  closing := fun hv hb h => by
    have := signedLast_eq_some.mp h
    rw [or_payload _ hv, Nat.mod_eq_of_lt hb]
    simp [signExtend]
    split <;> omega

theorem s33_loop : Loop id signedLast 33 28 s33From
    (fun _ left b => left = 0 ∧ signedRefused 0x10 0x60 b) orPayload
    (fun value shift left b =>
      if left = 0 then
        if b &&& 0x10 ≠ 0 then signExtend 64 (orPayload value shift b % 2 ^ 33) 33 true
        else signExtend 64 (orPayload value shift b) 64 false
      else signExtend 64 (orPayload value shift b) (shift + 7) (b &&& 0x40 ≠ 0)) where
  width := by decide
  injective := Function.injective_id
  ended := fun _ _ _ => rfl
  truncated := fun _ _ _ _ => rfl
  pass := fun _ _ left _ _ _ => by
    cases left <;> simp only [s33From, u8, orPayload, signedRefused, decide_eq_true_eq, if_true,
      Nat.succ_ne_zero, if_false]
  early := fun _ => by simp
  acc_eq := fun _ hv => or_payload _ hv
  wide := fun hs hv hb => signed_out (by omega) (by omega) hv hb
  narrow := fun b hb => by simpa using (signed_tests b hb).2.2.1
  closing := fun {value b m} hv hb h => by
    -- bit 4 is the sign of the accepted bytes
    have hsign : b &&& 0x10 ≠ 0 ↔ 2 ^ 6 ≤ b.toNat :=
      (signed_tests b hb).2.2.2 (by simp [h])
    have := signedLast_eq_some.mp h
    simp only [or_payload _ hv, signExtend]
    grind

/-! ## 4. All decoders -/

section
theorem length_le {last : Nat → Nat → Option Int} {bytes : List UInt8} (hN : 0 < N)
    (h : Encodes last N bytes v) : bytes.length ≤ (N + 6) / 7 := by
  have := h.length_lt hN
  omega

theorem isDecoder_unsigned {decode : Reader → Option (Nat × Reader)} (hN : 0 < N)
    (hexact : ∀ r v r', decode r = some (v, r') ↔
      ∃ bytes, Encodes unsignedLast N bytes v ∧ r.Consumes bytes r') :
    IsDecoder Nat.cast unsignedLast N 0 (2 ^ N) decode where
  exact := hexact
  length := fun _ _ => length_le hN
  range := fun _ _ => Encodes.unsigned_range
  encoding := exists_unsigned N
  decoding := by
    intro bytes v h
    obtain ⟨n, rfl⟩ := Int.eq_ofNat_of_zero_le h.unsigned_range.1
    exact ⟨n, rfl, fun _ _ => (hexact _ _ _).mpr ⟨bytes, h, rfl, rfl⟩⟩

theorem isDecoder_signed {decode : Reader → Option (Int × Reader)} (hN : 0 < N)
    (hexact : ∀ r v r', decode r = some (v, r') ↔
      ∃ bytes, Encodes signedLast N bytes v ∧ r.Consumes bytes r') :
    IsDecoder id signedLast N (-2 ^ (N - 1)) (2 ^ (N - 1)) decode where
  exact := hexact
  length := fun _ _ => length_le hN
  range := fun _ _ => Encodes.signed_range
  encoding := fun v => exists_signed N v hN
  decoding := fun bytes v h => ⟨v, rfl, fun _ _ => (hexact _ _ _).mpr ⟨bytes, h, rfl, rfl⟩⟩

end

/-- **Every integer decoder is the decoder of its width**: it accepts exactly the encodings of the
grammar, with their value and length, and decodes an encoding of each integer of its range. -/
theorem lebDecoders_exact : IsDecoder Nat.cast unsignedLast 32 0 (2 ^ 32) uleb32 ∧
      IsDecoder Nat.cast unsignedLast 64 0 (2 ^ 64) uleb64 ∧
      IsDecoder id signedLast 32 (-2 ^ 31) (2 ^ 31) sleb32 ∧
      IsDecoder id signedLast 64 (-2 ^ 63) (2 ^ 63) sleb64 ∧
      IsDecoder id signedLast 33 (-2 ^ 32) (2 ^ 32) s33 :=
  ⟨isDecoder_unsigned (by decide) (uleb32_loop.exact rfl),
    isDecoder_unsigned (by decide) (uleb64_loop.exact rfl),
    isDecoder_signed (by decide) (sleb32_loop.exact rfl),
    isDecoder_signed (by decide) (sleb64_loop.exact rfl),
    isDecoder_signed (by decide) (s33_loop.exact rfl)⟩

end Reader
end TurboWasm
