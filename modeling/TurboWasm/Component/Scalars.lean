/-
# Names and the strict string decoder

`validate_linkage.c` checks the names of a module with windows for the second byte of each lead
byte; `component_string.c` decodes a string one code point at a time, and tests the value against
the least one of its length and against the surrogates.  Both accept the strings of encoded
Unicode scalar values and no others: `nextScalar_utf8` reads one encoded character off the front of
the bytes, `utf8Valid_cons` says that the name checker moves over the same bytes, and
`utf8Valid_iff_scalars` follows both through a string.

The scalar values are Lean's `Char`, and their encoding is `String.utf8EncodeChar`.
-/
import TurboWasm.Reader.Integers
import TurboWasm.Validate.Sections

namespace TurboWasm

open List Option

/-! ## 1. The decoder -/

variable {n scalar v : Nat} {bs rest : List UInt8}

/-- `turbowasm_component_string_origin`. -/
inductive StringOrigin where
  | utf8
  | utf16
  | latin1
  | compactUtf16
  deriving DecidableEq, Repr

/-- `scalar_valid`. -/
def scalarValid (scalar : Nat) : Bool :=
  scalar < 0x110000 && (scalar < 0xd800 || 0xe000 ≤ scalar)

/-- `read_utf16`. -/
def readUtf16 (a b : UInt8) : Nat := a.toNat ||| (b.toNat <<< 8)

/-- The loop of `next_scalar` over the continuation bytes. -/
def utf8Trailing : Nat → Nat → List UInt8 → Option (Nat × List UInt8)
  | 0, scalar, rest => some (scalar, rest)
  | _ + 1, _, [] => none
  | n + 1, scalar, b :: rest =>
    if b &&& 0xc0 ≠ 0x80 then none
    else utf8Trailing n ((scalar <<< 6) ||| (b &&& 0x3f).toNat) rest

/-- The end of the UTF-8 branch of `next_scalar`, after the lead byte. -/
def utf8Tail (trailing minimum scalar : Nat) (rest : List UInt8) : Option (Nat × List UInt8) :=
  if rest.length < trailing then none
  else (utf8Trailing trailing scalar rest).filter (minimum ≤ ·.1)

/-- The UTF-8 branch of `next_scalar`. -/
def utf8Scalar (a : UInt8) (rest : List UInt8) : Option (Nat × List UInt8) :=
  if a < 0x80 then some (a.toNat, rest)
  else if 0xc0 ≤ a ∧ a < 0xe0 then utf8Tail 1 0x80 (a &&& 0x1f).toNat rest
  else if 0xe0 ≤ a ∧ a < 0xf0 then utf8Tail 2 0x800 (a &&& 0x0f).toNat rest
  else if 0xf0 ≤ a ∧ a < 0xf8 then utf8Tail 3 0x10000 (a &&& 0x07).toNat rest
  else none

/-- The UTF-16 branch of `next_scalar`. -/
def utf16Scalar (a : UInt8) : List UInt8 → Option (Nat × List UInt8)
  | [] => none
  | b :: rest =>
    let scalar := readUtf16 a b
    if 0xd800 ≤ scalar ∧ scalar < 0xdc00 then
      match rest with
      | c :: d :: rest =>
        let low := readUtf16 c d
        if low < 0xdc00 ∨ 0xe000 ≤ low then none
        else some (0x10000 + ((scalar - 0xd800) <<< 10) + (low - 0xdc00), rest)
      | _ => none
    else some (scalar, rest)

/-- `next_scalar` on the bytes from `*offset` on, with the bytes behind the code point. -/
def nextScalar (origin : StringOrigin) : List UInt8 → Option (Nat × List UInt8)
  | [] => none
  | a :: rest =>
    match origin with
    | .latin1 => some (a.toNat, rest)
    | .utf8 => (utf8Scalar a rest).filter (scalarValid ·.1)
    | .utf16 | .compactUtf16 => (utf16Scalar a rest).filter (scalarValid ·.1)

/-- `next_scalar` from offset to offset while there are bytes, at most `fuel` times. -/
def scalarsFrom (origin : StringOrigin) : Nat → List UInt8 → Option (List Nat)
  | _, [] => some []
  | 0, _ :: _ => none
  | fuel + 1, b :: rest => do
    let (scalar, rest) ← nextScalar origin (b :: rest)
    (scalar :: ·) <$> scalarsFrom origin fuel rest

/-- The code points of a string.  Each takes a byte, so a pass for each byte is enough. -/
def scalars (origin : StringOrigin) (bytes : List UInt8) : Option (List Nat) :=
  scalarsFrom origin bytes.length bytes

/-! ## 2. One character -/

open Reader (forall_byte)

theorem cont_iff (b : UInt8) : b &&& 0xc0 ≠ 0x80 ↔ ¬ (0x80 ≤ b.toNat ∧ b.toNat < 0xc0) := by
  revert b
  refine forall_byte ?_
  decide +kernel

theorem mask_eq (b : UInt8) : (b &&& 0x3f).toNat = b.toNat % 64 ∧
    (b &&& 0x1f).toNat = b.toNat % 32 ∧ (b &&& 0x0f).toNat = b.toNat % 16 ∧
    (b &&& 0x07).toNat = b.toNat % 8 := by
  exact ⟨Nat.and_two_pow_sub_one_eq_mod _ 6, Nat.and_two_pow_sub_one_eq_mod _ 5,
    Nat.and_two_pow_sub_one_eq_mod _ 4, Nat.and_two_pow_sub_one_eq_mod _ 3⟩

theorem utf8Trailing_succ : utf8Trailing (n + 1) scalar bs = some (v, rest) ↔
      ∃ b tail, bs = b :: tail ∧ 0x80 ≤ b.toNat ∧ b.toNat < 0xc0 ∧
        utf8Trailing n (scalar * 64 + (b.toNat - 0x80)) tail = some (v, rest) := by
  rcases bs with _ | ⟨b, tail⟩
  · simp [utf8Trailing]
  have hor (h : 0x80 ≤ b.toNat ∧ b.toNat < 0xc0) :
      (scalar <<< 6) ||| (b &&& 0x3f).toNat = scalar * 64 + (b.toNat - 0x80) := by
    rw [(mask_eq b).1, ← Nat.shiftLeft_add_eq_or_of_lt (by omega), Nat.shiftLeft_eq]
    omega
  rw [utf8Trailing, ite_none_left_eq_some, cont_iff]
  grind

/-- The bytes that code a value, by their number, with the value at least that of its length. -/
inductive Utf8Form : List UInt8 → Nat → Prop
  | one {a : UInt8} : a.toNat < 0x80 → Utf8Form [a] a.toNat
  | two {a b : UInt8} {v : Nat} : 0xc0 ≤ a.toNat → a.toNat < 0xe0 → 0x80 ≤ b.toNat →
      b.toNat < 0xc0 → v = (a.toNat - 0xc0) * 64 + (b.toNat - 0x80) → 0x80 ≤ v →
      Utf8Form [a, b] v
  | three {a b c : UInt8} {v : Nat} : 0xe0 ≤ a.toNat → a.toNat < 0xf0 → 0x80 ≤ b.toNat →
      b.toNat < 0xc0 → 0x80 ≤ c.toNat → c.toNat < 0xc0 →
      v = ((a.toNat - 0xe0) * 64 + (b.toNat - 0x80)) * 64 + (c.toNat - 0x80) → 0x800 ≤ v →
      Utf8Form [a, b, c] v
  | four {a b c d : UInt8} {v : Nat} : 0xf0 ≤ a.toNat → a.toNat < 0xf8 → 0x80 ≤ b.toNat →
      b.toNat < 0xc0 → 0x80 ≤ c.toNat → c.toNat < 0xc0 → 0x80 ≤ d.toNat → d.toNat < 0xc0 →
      v = (((a.toNat - 0xf0) * 64 + (b.toNat - 0x80)) * 64 + (c.toNat - 0x80)) * 64 +
        (d.toNat - 0x80) → 0x10000 ≤ v → Utf8Form [a, b, c, d] v

theorem scalarValid_iff : scalarValid v = true ↔ v < 0x110000 ∧ (v < 0xd800 ∨ 0xe000 ≤ v) := by
  simp [scalarValid]

theorem utf8Tail_eq_some {minimum : Nat} : utf8Tail n minimum scalar bs = some (v, rest) ↔
      n ≤ bs.length ∧ utf8Trailing n scalar bs = some (v, rest) ∧ minimum ≤ v := by
  rw [utf8Tail, ite_none_left_eq_some, filter_eq_some_iff, decide_eq_true_eq, not_lt]

/-- The UTF-8 branch takes a form off the front. -/
theorem utf8Scalar_eq_some :
    utf8Scalar a bs = some (v, rest) ↔ ∃ form, Utf8Form form v ∧ a :: bs = form ++ rest := by
  obtain ⟨-, h5, h4, h3⟩ := mask_eq a
  constructor
  · intro h
    simp only [utf8Scalar, UInt8.le_iff_toNat_le, UInt8.lt_iff_toNat_lt, UInt8.reduceToNat] at h
    split at h
    · cases h
      exact ⟨[a], .one (by omega), rfl⟩
    split at h
    · simp only [utf8Tail_eq_some, utf8Trailing_succ, utf8Trailing, some.injEq, Prod.mk.injEq] at h
      obtain ⟨-, ⟨b, tail, rfl, hb, hb', rfl, rfl⟩, hmin⟩ := h
      exact ⟨[a, b], .two (by omega) (by omega) hb hb' (by omega) hmin, rfl⟩
    split at h
    · simp only [utf8Tail_eq_some, utf8Trailing_succ, utf8Trailing, some.injEq, Prod.mk.injEq] at h
      obtain ⟨-, ⟨b, _, rfl, hb, hb', c, tail, rfl, hc, hc', rfl, rfl⟩, hmin⟩ := h
      exact ⟨[a, b, c], .three (by omega) (by omega) hb hb' hc hc' (by omega) hmin, rfl⟩
    split at h
    · simp only [utf8Tail_eq_some, utf8Trailing_succ, utf8Trailing, some.injEq, Prod.mk.injEq] at h
      obtain ⟨-, ⟨b, _, rfl, hb, hb', c, _, rfl, hc, hc', d, tail, rfl, hd, hd', rfl, rfl⟩, hmin⟩ := h
      exact ⟨[a, b, c, d], .four (by omega) (by omega) hb hb' hc hc' hd hd' (by omega) hmin,
        rfl⟩
    · cases h
  rintro ⟨form, hform, heq⟩
  simp only [utf8Scalar, UInt8.lt_iff_toNat_lt, UInt8.reduceToNat]
  cases hform with
  | one ha =>
    obtain ⟨rfl, rfl⟩ := List.cons.inj heq
    rw [if_pos ha]
  | two ha ha' hb hb' hv hmin =>
    obtain ⟨rfl, rfl⟩ := List.cons.inj heq
    rw [if_neg (by omega), if_pos ⟨ha, ha'⟩]
    simp only [utf8Tail_eq_some, utf8Trailing_succ, utf8Trailing, h5, some.injEq, Prod.mk.injEq]
    exact ⟨by simp, ⟨_, _, rfl, hb, hb', by omega, rfl⟩, hmin⟩
  | three ha ha' hb hb' hc hc' hv hmin =>
    obtain ⟨rfl, rfl⟩ := List.cons.inj heq
    rw [if_neg (by omega), if_neg (by omega), if_pos ⟨ha, ha'⟩]
    simp only [utf8Tail_eq_some, utf8Trailing_succ, utf8Trailing, some.injEq, Prod.mk.injEq]
    exact ⟨by simp, ⟨_, _, rfl, hb, hb', _, _, rfl, hc, hc', by omega, rfl⟩, hmin⟩
  | four ha ha' hb hb' hc hc' hd hd' hv hmin =>
    obtain ⟨rfl, rfl⟩ := List.cons.inj heq
    rw [if_neg (by omega), if_neg (by omega), if_neg (by omega), if_pos ⟨ha, ha'⟩]
    simp only [utf8Tail_eq_some, utf8Trailing_succ, utf8Trailing, some.injEq, Prod.mk.injEq]
    exact ⟨by simp, ⟨_, _, rfl, hb, hb', _, _, rfl, hc, hc', _, _, rfl, hd, hd', by omega, rfl⟩,
      hmin⟩

section

variable {tail : List UInt8}

/-- The name checker behind a lead byte below those of three. -/
theorem utf8Valid_two (ha : 0x80 ≤ a.toNat) (ha' : a.toNat < 0xe0) :
    utf8Valid (a :: tail) = true ↔ ∃ b rest, tail = b :: rest ∧
      (0xc2 ≤ a.toNat ∧ 0x80 ≤ b.toNat ∧ b.toNat < 0xc0) ∧ utf8Valid rest = true := by
  conv_lhs => unfold utf8Valid
  simp only [UInt8.le_iff_toNat_le, ← UInt8.toNat_inj, utf8Cont, UInt8.reduceToNat]
  rw [if_neg (by omega)]
  by_cases h : 0xc2 ≤ a.toNat
  · rw [if_pos (by omega)]
    rcases tail with _ | ⟨b, rest⟩
    · simp
    · simp [h, Nat.lt_succ_iff]
  · rw [if_neg (by omega), if_neg (by omega), if_neg (by omega), if_neg (by omega),
      if_neg (by omega), if_neg (by omega), if_neg (by omega)]
    simp [h]

/-- The name checker behind a lead byte of three, by the window of the second byte. -/
theorem utf8Valid_three (ha : 0xe0 ≤ a.toNat) (ha' : a.toNat < 0xf0) :
    utf8Valid (a :: tail) = true ↔ ∃ b c rest, tail = b :: c :: rest ∧
      (0x80 ≤ b.toNat ∧ b.toNat < 0xc0 ∧ (a.toNat = 0xe0 → 0xa0 ≤ b.toNat) ∧
        (a.toNat = 0xed → b.toNat < 0xa0) ∧ 0x80 ≤ c.toNat ∧ c.toNat < 0xc0) ∧
      utf8Valid rest = true := by
  conv_lhs => unfold utf8Valid
  simp only [UInt8.le_iff_toNat_le, ← UInt8.toNat_inj, utf8Cont, UInt8.reduceToNat]
  rw [if_neg (by omega), if_neg (by omega)]
  rcases tail with _ | ⟨b, _ | ⟨c, rest⟩⟩
  · simp
  · simp
  · -- the branches are the windows of the second byte
    simp only [cons.injEq]
    grind

/-- The name checker behind a lead byte of four. -/
theorem utf8Valid_four (ha : 0xf0 ≤ a.toNat) :
    utf8Valid (a :: tail) = true ↔ ∃ b c d rest, tail = b :: c :: d :: rest ∧
      (a.toNat ≤ 0xf4 ∧ 0x80 ≤ b.toNat ∧ b.toNat < 0xc0 ∧ (a.toNat = 0xf0 → 0x90 ≤ b.toNat) ∧
        (a.toNat = 0xf4 → b.toNat < 0x90) ∧ 0x80 ≤ c.toNat ∧ c.toNat < 0xc0 ∧
        0x80 ≤ d.toNat ∧ d.toNat < 0xc0) ∧ utf8Valid rest = true := by
  conv_lhs => unfold utf8Valid
  simp only [UInt8.le_iff_toNat_le, ← UInt8.toNat_inj, utf8Cont, UInt8.reduceToNat]
  rw [if_neg (by omega), if_neg (by omega), if_neg (by omega), if_neg (by omega),
    if_neg (by omega)]
  rcases tail with _ | ⟨b, _ | ⟨c, _ | ⟨d, rest⟩⟩⟩
  · simp
  · simp
  · simp
  · simp only [cons.injEq]
    grind

/-- The name checker moves over the form of a scalar value. -/
theorem utf8Valid_cons : utf8Valid (a :: tail) = true ↔ ∃ form v rest,
    Utf8Form form v ∧ scalarValid v = true ∧ a :: tail = form ++ rest ∧ utf8Valid rest = true := by
  simp only [scalarValid_iff]
  constructor
  · intro h
    by_cases h1 : a.toNat < 0x80
    · refine ⟨[a], _, tail, .one h1, by omega, rfl, ?_⟩
      rw [utf8Valid.eq_def] at h
      exact (if_pos (UInt8.le_iff_toNat_le.mpr (Nat.le_of_lt_succ h1))).symm.trans h
    by_cases h2 : a.toNat < 0xe0
    · obtain ⟨b, rest, rfl, hw, hrest⟩ := (utf8Valid_two (by omega) h2).mp h
      exact ⟨[a, b], _, rest, .two (by omega) (by omega) (by omega) (by omega) rfl (by omega),
        by omega, rfl, hrest⟩
    by_cases h3 : a.toNat < 0xf0
    · obtain ⟨b, c, rest, rfl, hw, hrest⟩ := (utf8Valid_three (by omega) h3).mp h
      exact ⟨[a, b, c], _, rest, .three (by omega) (by omega) (by omega) (by omega) (by omega)
        (by omega) rfl (by omega), by omega, rfl, hrest⟩
    · obtain ⟨b, c, d, rest, rfl, hw, hrest⟩ := (utf8Valid_four (by omega)).mp h
      exact ⟨[a, b, c, d], _, rest, .four (by omega) (by omega) (by omega) (by omega) (by omega)
        (by omega) (by omega) (by omega) rfl (by omega), by omega, rfl, hrest⟩
  · rintro ⟨form, v, rest, hform, hv, heq, hrest⟩
    cases hform with
    | one ha =>
      obtain ⟨rfl, rfl⟩ := List.cons.inj heq
      rw [utf8Valid.eq_def]
      exact (if_pos (UInt8.le_iff_toNat_le.mpr (Nat.le_of_lt_succ ha))).trans hrest
    | two =>
      obtain ⟨rfl, rfl⟩ := List.cons.inj heq
      exact (utf8Valid_two (by omega) (by omega)).mpr ⟨_, _, rfl, by omega, hrest⟩
    | three =>
      obtain ⟨rfl, rfl⟩ := List.cons.inj heq
      exact (utf8Valid_three (by omega) (by omega)).mpr ⟨_, _, _, rfl, by omega, hrest⟩
    | four =>
      obtain ⟨rfl, rfl⟩ := List.cons.inj heq
      exact (utf8Valid_four (by omega)).mpr ⟨_, _, _, _, rfl, by omega, hrest⟩

end

/-! ## 3. Characters -/

variable {bs : List UInt8} {cs : List Char}

/-- The value of a character as the decoders see it. -/
theorem scalarValid_char (c : Char) : scalarValid c.toNat = true := by
  have hc : c.toNat < 0xd800 ∨ 0xdfff < c.toNat ∧ c.toNat < 0x110000 := c.valid
  rw [scalarValid_iff]
  omega

theorem exists_char (h : scalarValid v = true) : ∃ c : Char, c.toNat = v := by
  rw [scalarValid_iff] at h
  exact ⟨.ofNatAux v (show v < 0xd800 ∨ 0xdfff < v ∧ v < 0x110000 by omega), rfl⟩

/-- A form of a character's value is its encoding. -/
theorem Utf8Form.eq_encode {c : Char} (h : Utf8Form form c.toNat) :
    form = String.utf8EncodeChar c := by
  generalize hv : c.toNat = v at h
  rw [Char.toNat] at hv
  unfold String.utf8EncodeChar
  simp only [hv]
  cases h with
  | one ha =>
    rw [if_pos (by omega), UInt8.ofNat_toNat]
  | two ha ha' hb hb' hv hmin =>
    rw [if_neg (by omega), if_pos (by omega)]
    simp only [List.cons.injEq, ← UInt8.toNat_inj, UInt8.toNat_ofNat', and_true]
    omega
  | three ha ha' hb hb' hc hc' hv hmin =>
    rw [if_neg (by omega), if_neg (by omega), if_pos (by omega)]
    simp only [List.cons.injEq, ← UInt8.toNat_inj, UInt8.toNat_ofNat', and_true]
    omega
  | four ha ha' hb hb' hc hc' hd hd' hv hmin =>
    rw [if_neg (by omega), if_neg (by omega), if_neg (by omega)]
    simp only [List.cons.injEq, ← UInt8.toNat_inj, UInt8.toNat_ofNat', and_true]
    omega

theorem utf8Form_encode (c : Char) : Utf8Form (String.utf8EncodeChar c) c.toNat := by
  have hc := scalarValid_iff.mp (scalarValid_char c)
  simp only [String.utf8EncodeChar, Char.toNat] at *
  generalize c.val.toNat = v at *
  have hbyte : ∀ n < 256, (UInt8.ofNat n).toNat = n := fun n => Lib.toNat_ofNat_byte
  split
  · have hform := Utf8Form.one (a := .ofNat v) (by rw [hbyte v (by omega)]; omega)
    rwa [hbyte v (by omega)] at hform
  split
  · refine .two ?_ ?_ ?_ ?_ ?_ (by omega) <;> simp only [UInt8.toNat_ofNat'] <;> omega
  split
  · refine .three ?_ ?_ ?_ ?_ ?_ ?_ ?_ (by omega) <;> simp only [UInt8.toNat_ofNat'] <;> omega
  · refine .four ?_ ?_ ?_ ?_ ?_ ?_ ?_ ?_ ?_ (by omega) <;> simp only [UInt8.toNat_ofNat'] <;> omega

theorem encode_length_pos (c : Char) : 0 < (String.utf8EncodeChar c).length :=
  length_pos_iff.mpr String.utf8EncodeChar_ne_nil

/-- **The decoder takes the encoding of a character off the front.** -/
theorem nextScalar_utf8 : nextScalar .utf8 bs = some (v, rest) ↔
      ∃ c : Char, c.toNat = v ∧ bs = String.utf8EncodeChar c ++ rest := by
  rcases bs with _ | ⟨a, bs⟩
  · simp only [nextScalar, reduceCtorEq, false_iff]
    rintro ⟨c, -, heq⟩
    exact String.utf8EncodeChar_ne_nil (append_eq_nil_iff.mp heq.symm).1
  simp only [nextScalar, filter_eq_some_iff, utf8Scalar_eq_some]
  constructor
  · rintro ⟨⟨form, hform, heq⟩, hv⟩
    obtain ⟨c, rfl⟩ := exists_char hv
    exact ⟨c, rfl, hform.eq_encode ▸ heq⟩
  · rintro ⟨c, rfl, heq⟩
    exact ⟨⟨_, utf8Form_encode c, heq⟩, scalarValid_char c⟩

/-! ## 4. Strings -/

/-- The bytes of a string of characters. -/
def utf8Text (cs : List Char) : List UInt8 := cs.flatMap String.utf8EncodeChar

/-- The decoder reads back what was written one character after the other. -/
theorem scalarsFrom_flatMap {enc : Char → List UInt8}
    (hnext : ∀ c ∈ cs, ∀ rest, nextScalar origin (enc c ++ rest) = some (c.toNat, rest)) (h :
    (cs.flatMap enc).length ≤ fuel) :
    scalarsFrom origin fuel (cs.flatMap enc) = some (cs.map Char.toNat) := by
  induction cs generalizing fuel with
  | nil => cases fuel <;> rfl
  | cons c cs ih =>
    have hc := hnext c (.head _)
    rcases henc : enc c with _ | ⟨a, tail⟩
    · -- an encoding is not empty: nothing is read from no bytes
      have := hc []
      rw [henc] at this
      cases this
    rw [flatMap_cons, henc, length_append, length_cons] at h
    rcases fuel with _ | fuel
    · omega
    have hrest := ih (fun c hc => hnext c (.tail _ hc)) (by omega : (cs.flatMap enc).length ≤ fuel)
    have hstep := hc (cs.flatMap enc)
    rw [henc, cons_append] at hstep
    rw [flatMap_cons, henc, cons_append]
    simp [scalarsFrom, hstep, hrest]

theorem scalarsFrom_text (h : (utf8Text cs).length ≤ fuel) :
    scalarsFrom .utf8 fuel (utf8Text cs) = some (cs.map Char.toNat) :=
  scalarsFrom_flatMap (fun c _ _ => nextScalar_utf8.mpr ⟨c, rfl, rfl⟩) h

theorem text_of_scalarsFrom (h : scalarsFrom .utf8 fuel bs = some vs) :
    ∃ cs : List Char, vs = cs.map Char.toNat ∧ bs = utf8Text cs := by
  induction fuel generalizing bs vs with
  | zero =>
    rcases bs with _ | ⟨a, bs⟩
    · cases h
      exact ⟨[], rfl, rfl⟩
    · cases h
  | succ fuel ih =>
    rcases bs with _ | ⟨a, bs⟩
    · cases h
      exact ⟨[], rfl, rfl⟩
    simp only [scalarsFrom, bind_eq_bind, bind_eq_some_iff, Prod.exists,
      nextScalar_utf8, Option.map_eq_map, map_eq_some_iff] at h
    obtain ⟨_, rest, ⟨c, rfl, heq⟩, vs, hvs, rfl⟩ := h
    obtain ⟨cs, rfl, rfl⟩ := ih hvs
    exact ⟨c :: cs, rfl, heq⟩

theorem utf8Valid_text (cs : List Char) : utf8Valid (utf8Text cs) = true := by
  induction cs with
  | nil => rfl
  | cons c cs ih =>
    rcases hbs : utf8Text (c :: cs) with _ | ⟨a, bs⟩
    · rfl
    · exact utf8Valid_cons.mpr
        ⟨_, _, _, utf8Form_encode c, scalarValid_char c, hbs.symm, ih⟩

theorem text_of_utf8Valid (n : Nat) (hn : bs.length ≤ n)
    (h : utf8Valid bs = true) : ∃ cs, bs = utf8Text cs := by
  induction n generalizing bs with
  | zero => exact ⟨[], eq_nil_of_length_eq_zero (Nat.le_zero.mp hn)⟩
  | succ n ih =>
    rcases bs with _ | ⟨a, bs⟩
    · exact ⟨[], rfl⟩
    obtain ⟨form, v, rest, hform, hv, heq, hrest⟩ := utf8Valid_cons.mp h
    obtain ⟨c, rfl⟩ := exists_char hv
    obtain rfl := hform.eq_encode
    have hlen := congrArg List.length heq
    have hpos := encode_length_pos c
    rw [length_append] at hlen
    obtain ⟨cs, rfl⟩ := ih (by omega) hrest
    exact ⟨c :: cs, heq⟩

/-- **A name is accepted exactly when it is a string of encoded characters**, that is, exactly
when the strict decoder, from offset zero, consumes all of it; the code points it reads are those
characters. -/
theorem utf8Valid_iff_scalars (bs : List UInt8) : (utf8Valid bs = true ↔ ∃ cs, bs = utf8Text cs) ∧
      (utf8Valid bs = true ↔ ∃ vs, scalars .utf8 bs = some vs) ∧
      ∀ cs, scalars .utf8 (utf8Text cs) = some (cs.map Char.toNat) := by
  refine ⟨⟨text_of_utf8Valid _ le_rfl, ?_⟩, ⟨?_, ?_⟩, fun cs => scalarsFrom_text le_rfl⟩
  · rintro ⟨cs, rfl⟩
    exact utf8Valid_text cs
  · intro h
    obtain ⟨cs, rfl⟩ := text_of_utf8Valid _ le_rfl h
    exact ⟨_, scalarsFrom_text le_rfl⟩
  · rintro ⟨vs, h⟩
    obtain ⟨cs, -, rfl⟩ := text_of_scalarsFrom h
    exact utf8Valid_text cs

end TurboWasm
