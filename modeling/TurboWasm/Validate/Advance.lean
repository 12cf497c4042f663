/-
# Readers only move forward

Whatever a function of the validator reads, the reader it leaves is the one it was given after some
bytes (`Reader.Advances`).  So a span between two cursors lies in the bytes that were ahead of the
first, and a loop that reads an opcode in every round ends.

`Adv r x` says it of a computation `x` that answers a reader; the rules follow the `do` blocks of
the model, a step that moves the reader (`Adv.read`) and one that does not (`Adv.skip`).
-/
import TurboWasm.Validate.Sections

namespace TurboWasm

/-! ## 1. The rules -/

/-- `s` is `r` after some bytes. -/
def Reader.Advances (r s : Reader) : Prop :=
  ∃ k ≤ r.rest.length, s = ⟨r.cursor + k, r.rest.drop k⟩

namespace Reader.Advances

variable {r s : Reader}

theorem refl (r : Reader) : r.Advances r := ⟨0, Nat.zero_le _, by simp⟩

theorem trans (h : r.Advances s) (h' : s.Advances t) : r.Advances t := by
  obtain ⟨k, hk, rfl⟩ := h
  obtain ⟨l, hl, rfl⟩ := h'
  simp only [List.length_drop] at hl
  refine ⟨k + l, by omega, ?_⟩
  simp [add_assoc]

theorem remaining (h : r.Advances s) : s.remaining ≤ r.remaining := by
  obtain ⟨k, hk, rfl⟩ := h
  simp [Reader.remaining]

/-- The end of the bytes stays where it is. -/
theorem cursor (h : r.Advances s) : s.cursor + s.remaining = r.cursor + r.remaining := by
  obtain ⟨k, hk, rfl⟩ := h
  simp only [Reader.remaining, List.length_drop]
  omega

end Reader.Advances

/-- Whatever the computation answers, its reader is `r` after some bytes. -/
def Adv {α : Type} (r : Reader) (x : Result (α × Reader)) : Prop :=
  ∀ a s, x = .ok (a, s) → r.Advances s

/-- The same of the reader's own primitives. -/
def AdvOpt {α : Type} (r : Reader) (x : Option (α × Reader)) : Prop :=
  ∀ a s, x = some (a, s) → r.Advances s

namespace Adv

variable {r : Reader}

theorem pure (h : r.Advances s) (a : α) : Adv r (Pure.pure (a, s)) := by
  rintro b t h'
  cases h'
  exact h

theorem ok (h : r.Advances s) (a : α) : Adv r (.ok (a, s)) := pure h a

theorem error (e : Status) : Adv r (.error e : Result (α × Reader)) := by
  rintro a t h
  cases h

theorem orFail (h : AdvOpt s x) (hs : r.Advances s) (st : Status) :
    Adv r (orFail st x) := by
  intro a t ht
  exact hs.trans (h a t (orFail_eq_ok.mp ht))

/-- A step that moves the reader. -/
theorem read {x : Result (α × Reader)} {f : α × Reader → Result (β × Reader)}
    (hx : Adv r x) (hf : ∀ a s, r.Advances s → Adv r (f (a, s))) : Adv r (x >>= f) := by
  intro b t h
  obtain ⟨⟨a, s⟩, ha, hb⟩ := bind_eq_ok.mp h
  exact hf a s (hx a s ha) b t hb

/-- A step that does not touch the reader. -/
theorem skip {x : Result γ} {f : γ → Result (β × Reader)}
    (hf : ∀ c, Adv r (f c)) : Adv r (x >>= f) := by
  intro b t h
  obtain ⟨c, -, hb⟩ := bind_eq_ok.mp h
  exact hf c b t hb

theorem ite {c : Prop} [Decidable c] {x y : Result (α × Reader)} (hx : Adv r x)
    (hy : Adv r y) : Adv r (if c then x else y) := by
  split
  · exact hx
  · exact hy

end Adv

/-! ## 2. The reader's primitives -/

namespace Reader

theorem u8_adv (r : Reader) : AdvOpt r r.u8 := by
  intro b s h
  unfold u8 at h
  split at h
  · cases h
  · rename_i hr
    cases h
    exact ⟨1, by simp [hr], by simp [hr]⟩

theorem slice_adv (r : Reader) (n : Nat) : AdvOpt r (r.slice n) := by
  intro b s h
  unfold slice at h
  split at h
  · cases h
  · rename_i hn
    cases h
    exact ⟨n, by unfold remaining at hn; omega, rfl⟩

end Reader

/-- One round of a loop that reads a number: the next byte, and what is done with it. -/
theorem AdvOpt.round {α : Type} {r : Reader} {f : UInt8 → Reader → Option (α × Reader)}
    (hf : ∀ b s, AdvOpt s (f b s)) :
    AdvOpt r (match r.u8 with | none => none | some (b, s) => f b s) := by
  intro a t h
  cases hu : r.u8 with
  | none =>
    rw [hu] at h
    cases h
  | some p =>
    rw [hu] at h
    exact (r.u8_adv p.1 p.2 hu).trans (hf p.1 p.2 a t h)

theorem AdvOpt.none {α : Type} (r : Reader) : AdvOpt r (none : Option (α × Reader)) := by
  intro a s h
  cases h

theorem AdvOpt.here {α : Type} (r : Reader) (a : α) : AdvOpt r (some (a, r)) := by
  intro b s h
  cases h
  exact .refl r

theorem AdvOpt.ite {α : Type} {r : Reader} {c : Prop} [Decidable c] {x y : Option (α × Reader)}
    (hx : AdvOpt r x) (hy : AdvOpt r y) : AdvOpt r (if c then x else y) := by
  split
  · exact hx
  · exact hy

namespace Reader

theorem uleb32From_adv : ∀ (left value shift : Nat) (r : Reader),
    AdvOpt r (uleb32From value shift left r)
  | 0, _, _, r => .none r
  | left + 1, _, _, _ =>
    .round fun _ s => .ite (.none s) (.ite (uleb32From_adv left _ _ s) (.here s _))

theorem uleb64From_adv : ∀ (left value shift : Nat) (r : Reader),
    AdvOpt r (uleb64From value shift left r)
  | 0, _, _, r => .none r
  | left + 1, _, _, _ =>
    .round fun _ s => .ite (.none s) (.ite (uleb64From_adv left _ _ s) (.here s _))

theorem sleb32From_adv : ∀ (left value shift : Nat) (r : Reader),
    AdvOpt r (sleb32From value shift left r)
  | 0, _, _, r => .none r
  | left + 1, _, _, _ =>
    .round fun _ s => .ite (.none s) (.ite (sleb32From_adv left _ _ s) (.here s _))

theorem sleb64From_adv : ∀ (left value shift : Nat) (r : Reader),
    AdvOpt r (sleb64From value shift left r)
  | 0, _, _, r => .none r
  | left + 1, _, _, _ =>
    .round fun _ s => .ite (.none s) (.ite (sleb64From_adv left _ _ s) (.here s _))

theorem s33From_adv : ∀ (left value shift : Nat) (r : Reader),
    AdvOpt r (s33From value shift left r)
  | 0, _, _, r => .none r
  | left + 1, _, _, _ =>
    .round fun _ s =>
      .ite (.none s) (.ite (s33From_adv left _ _ s) (.ite (.here s _) (.here s _)))

theorem uleb32_adv (r : Reader) : AdvOpt r r.uleb32 := uleb32From_adv 5 0 0 r

theorem uleb64_adv (r : Reader) : AdvOpt r r.uleb64 := uleb64From_adv 10 0 0 r

theorem sleb32_adv (r : Reader) : AdvOpt r r.sleb32 := sleb32From_adv 5 0 0 r

theorem sleb64_adv (r : Reader) : AdvOpt r r.sleb64 := sleb64From_adv 10 0 0 r

theorem s33_adv (r : Reader) : AdvOpt r r.s33 := s33From_adv 5 0 0 r

end Reader

open Reader

/-! ## 3. Types and limits -/

section Types

variable {r₀ r : Reader} (h : r₀.Advances r)

include h

theorem readHeaptype_adv (ctx : Option TypeCtx) : Adv r₀ (readHeaptype r ctx) := by
  refine .read (.orFail (s33_adv r) h _) fun heap s hs => .ite ?_ ?_
  · exact .skip fun _ => .skip fun t => .pure hs t
  · exact .skip fun t => .pure hs t

theorem readReftype_adv (ctx : Option TypeCtx) : Adv r₀ (readReftype r ctx) := by
  refine .read (.orFail (u8_adv r) h _) fun first s hs => .ite (.pure hs _) (.ite ?_ (.ite ?_ ?_))
  · exact .read (readHeaptype_adv h ctx) fun t s' hs' => .pure hs' _
  · exact .error _
  · exact .read (readHeaptype_adv hs ctx) fun t s' hs' => .pure hs' _

theorem readValtype_adv (ctx : Option TypeCtx) : Adv r₀ (readValtype r ctx) := by
  refine .skip fun first => .ite ?_ (readReftype_adv h ctx)
  exact .read (.orFail (u8_adv r) h _) fun first s hs => .pure hs _

theorem readBound_adv (wide : Bool) : Adv r₀ (readBound wide r) := by
  unfold readBound
  split
  · exact .orFail (uleb64_adv r) h _
  · exact .orFail (uleb32_adv r) h _

theorem readMaximum_adv (present wide : Bool) (minimum : Nat) :
    Adv r₀ (readMaximum present wide minimum r) := by
  refine .ite ?_ (.pure h _)
  exact .read (readBound_adv h wide) fun maximum s hs => .skip fun _ => .pure hs _

theorem readPageExponent_adv (present : Bool) : Adv r₀ (readPageExponent present r) := by
  refine .ite ?_ (.pure h _)
  exact .read (.orFail (uleb32_adv r) h _) fun exponent s hs => .skip fun _ => .pure hs _

theorem readMemoryType_adv : Adv r₀ (readMemoryType r) := by
  refine .read (.orFail (u8_adv r) h _) fun flags s hs => .skip fun _ => .skip fun _ => ?_
  refine .read (readBound_adv hs _) fun minimum s hs => ?_
  refine .read (readMaximum_adv hs _ _ _) fun maximum s hs => ?_
  exact .read (readPageExponent_adv hs _) fun exponent s hs => .skip fun _ => .pure hs _

theorem readLimits_adv : Adv r₀ (readLimits r) := by
  refine .read (.orFail (u8_adv r) h _) fun flags s hs => .skip fun _ => ?_
  refine .read (readBound_adv hs _) fun minimum s hs => ?_
  exact .read (readMaximum_adv hs _ _ _) fun maximum s hs => .pure hs _

end Types

/-! ## 4. Constant expressions -/

section Const

variable {r₀ : Reader}
  (h : r₀.Advances r)

include h

theorem readGcType_adv (op : Nat) : Adv r₀ (readGcType ctx op r) :=
  .read (.orFail (uleb32_adv r) h _) fun _ _ hs => .skip fun _ => .skip fun _ => .pure hs _

theorem readGcField_adv (type : FuncType) (op : Nat) : Adv r₀ (readGcField type op r) := by
  refine .ite ?_ (.skip fun _ => .pure h _)
  exact .read (.orFail (uleb32_adv r) h _) fun _ _ hs => .skip fun _ => .pure hs _

theorem validateStructNew_adv (op : Nat) : Adv r₀ (validateStructNew H ctx op st r) :=
  .read (readGcType_adv h op) fun _ _ hs =>
    .skip fun _ => .skip fun _ => .skip fun _ => .pure hs _

theorem validateArrayNew_adv (op : Nat) : Adv r₀ (validateArrayNew H ctx op st r) := by
  refine .read (readGcType_adv h op) fun _ _ hs => .read (readGcField_adv hs _ _) fun _ _ hs => ?_
  exact .skip fun _ => .skip fun _ => .skip fun _ => .skip fun _ => .pure hs _

theorem validateArrayNewFixed_adv : Adv r₀ (validateArrayNewFixed H ctx st r) := by
  refine .read (readGcType_adv h 8) fun _ _ hs => .read (readGcField_adv hs _ _) fun _ _ hs => ?_
  refine .read (.orFail (uleb32_adv _) hs _) fun _ _ hs => ?_
  exact .skip fun _ => .skip fun _ => .skip fun _ => .pure hs _

/-- The operators of a constant expression read forward. -/
theorem validateGcConstant_adv : Adv r₀ (validateGcConstant H ctx st r) := by
  intro s t ht
  simp only [validateGcConstant, validateGc, bind_eq_ok, orFail_eq_ok, failIf_eq_ok] at ht
  obtain ⟨⟨op, _⟩, hop, _, hallowed, ⟨op', r'⟩, hop', _, -, ht⟩ := ht
  rw [hop] at hop'
  cases hop'
  have hr : r₀.Advances _ := h.trans (uleb32_adv r op _ hop)
  simp only [Bool.not_eq_eq_eq_not, Bool.not_false, Bool.or_eq_true, decide_eq_true_eq,
    Bool.and_eq_true] at hallowed
  have hcases : op ≤ 1 ∨ (op = 6 ∨ op = 7) ∨ op = 8 ∨ (op = 26 ∨ op = 27) ∨ op = 28 := by omega
  rcases hcases with hop | hop | rfl | hop | rfl
  · rw [validateGcOp, if_pos hop] at ht
    exact validateStructNew_adv hr op s t ht
  · rcases hop with rfl | rfl <;> exact validateArrayNew_adv hr _ s t ht
  · exact validateArrayNewFixed_adv hr s t ht
  · rcases hop with rfl | rfl <;>
      exact (.skip fun _ => .pure hr _ : Adv r₀ (validateConvert H ctx _ st >>= _)) s t ht
  · exact (.skip fun _ => .skip fun _ => .pure hr _ :
      Adv r₀ (st.popCarrier (ctx.typeMatches H) 0x7f >>= _)) s t ht

end Const

end TurboWasm
