/-
# Listing a directory

`turbowasm_wasi_fd_readdir` of `src/wasi_preview1.c` and `turbowasm_wasi_fs_fd_readdir` of
`src/wasi_fs.c`.  The records of a directory are packed into the buffer of the guest one behind the
other, and the last one is cut where the buffer ends.  The guest goes on with the cookie of the last
complete record.

What the calls write is one stream, the records of the directory from the guest's cookie on, cut at
the size of the buffer (`readdirLoop_directory`); what the guest takes from it are the records that
are whole (`parse_stream`).  So a guest that repeats the call gets the directory (`readdir_lists`).

The pin of the descriptor and its rights are part of what the provider answers.
-/
import TurboWasm.Wasi.VectorIo

namespace TurboWasm.Preview1

open Lib List

/-! ## 1. The records -/

/-- `turbowasm_wasi_fs_dirent`; `name` is as long as `name_length` says. -/
structure Dirent where
  nextCookie : UInt64
  inode : UInt64
  fileType : UInt8
  name : Bytes
  deriving DecidableEq, Repr

/-- `TURBOWASM_WASI_FS_DIRENT_NAME_MAX`. -/
def direntNameMax : Nat := 255

/-- `TURBOWASM_WASI_FILETYPE_SYMBOLIC_LINK`. -/
def filetypeSymbolicLink : UInt8 := 7

/-- What the provider of a directory answers to a cookie, from its own state. -/
abbrev Directory (σ : Type) := σ → UInt64 → Except Errno (Option Dirent) × σ

/-- `turbowasm_wasi_fs_fd_readdir`, with what the provider answered. -/
def fsFdReaddir (cookie : UInt64) (answer : Except Errno (Option Dirent)) :
    Except Errno (Option Dirent) :=
  match answer with
  | .ok (some e) =>
    if direntNameMax < e.name.length then .error .nametoolong
    else if filetypeSymbolicLink < e.fileType ∨ e.nextCookie = cookie then .error .inval
    else .ok (some e)
  | answer => answer

/-- The 24 bytes before the name, and the name. -/
def record (e : Dirent) : Bytes :=
  store 8 e.nextCookie.toNat ++ store 8 e.inode.toNat ++ store 4 e.name.length ++
    [e.fileType, 0, 0, 0] ++ e.name

/-! ## 2. The call -/

/-- Why the loop ended: the directory or the buffer did, or there was an error. -/
inductive Stop where
  | ended
  | full
  | failed (error : Errno)
  deriving DecidableEq

/-- What a call leaves. -/
structure Listing (σ : Type) where
  stop : Stop
  mem : Bytes
  used : Nat
  state : σ

/-- The loop of `turbowasm_wasi_fd_readdir`. -/
def readdirLoop {σ : Type} (provider : Directory σ) (address size : Nat) (s : σ) (mem : Bytes)
    (cookie : UInt64) (used : Nat) : Listing σ :=
  if used < size then
    match fsFdReaddir cookie (provider s cookie).1 with
    | .error error => ⟨.failed error, mem, used, (provider s cookie).2⟩
    | .ok none => ⟨.ended, mem, used, (provider s cookie).2⟩
    | .ok (some e) =>
      let copySize := min (record e).length (size - used)
      match memoryWrite mem (address + used) ((record e).take copySize) with
      | .error error => ⟨.failed error, mem, used, (provider s cookie).2⟩
      | .ok mem =>
        if copySize ≠ (record e).length then ⟨.full, mem, used + copySize, (provider s cookie).2⟩
        else
          readdirLoop provider address size (provider s cookie).2 mem e.nextCookie (used + copySize)
  else ⟨.full, mem, used, s⟩
termination_by size - used
decreasing_by
  have hpos : 0 < (record e).length := by simp [record]
  omega

/-- The buffer of the guest and the place of its used size. -/
structure Buffer where
  address : Nat
  size : Nat
  result : Nat

/-- `turbowasm_wasi_fd_readdir`, with why its loop ended. -/
def fdReaddir {σ : Type} (provider : Directory σ) (b : Buffer) (s : σ) (mem : Bytes)
    (cookie : UInt64) : Option Errno × Listing σ :=
  match do
    memoryCheck mem b.address b.size
    memoryCheck mem b.result 4 with
  | .error error => (some error, ⟨.failed error, mem, 0, s⟩)
  | .ok () =>
    let l := readdirLoop provider b.address b.size s mem cookie 0
    match l.stop with
    | .failed error => (some error, l)
    | _ =>
      match memoryWrite l.mem b.result (store 4 l.used) with
      | .error error => (some error, l)
      | .ok mem => (none, { l with mem })

/-! ## 3. The guest -/

/-- The record at the head of some bytes. -/
def decode (bytes : Bytes) : Dirent where
  nextCookie := .ofNat (load (slice bytes 0 8))
  inode := .ofNat (load (slice bytes 8 8))
  fileType := bytes.getD 20 0
  name := slice bytes 24 (load (slice bytes 16 4))

/-- The records that are whole. -/
def parse (bytes : Bytes) : List Dirent :=
  if 24 + load (slice bytes 16 4) ≤ bytes.length then
    decode bytes :: parse (bytes.drop (24 + load (slice bytes 16 4)))
  else []
termination_by bytes.length
decreasing_by
  rw [length_drop]
  omega

/-- The cookie of the last record. -/
def cookieAfter (cookie : UInt64) (es : List Dirent) : UInt64 :=
  es.foldl (fun _ e => e.nextCookie) cookie

/-- A guest that repeats the call with the cookie of the last whole record, and what it gets. -/
def enumerate {σ : Type} (provider : Directory σ) :
    List Buffer → σ → (mem : Bytes) → (cookie : UInt64) → List Dirent
  | [], _, _, _ => []
  | b :: bs, s, mem, cookie =>
    match fdReaddir provider b s mem cookie with
    | (some _, _) => []
    | (none, l) =>
      let es := parse (slice l.mem b.address (load (slice l.mem b.result 4)))
      es ++ enumerate provider bs l.state l.mem (cookieAfter cookie es)

/-! ## 4. Records in a stream -/

/-- The records of some entries, one behind the other. -/
def stream (es : List Dirent) : Bytes := es.flatMap record

/-- The entries whose records are whole within `n` bytes. -/
def whole : Nat → List Dirent → List Dirent
  | _, [] => []
  | n, e :: es =>
    if (record e).length ≤ n then e :: whole (n - (record e).length) es else []

theorem load_store (width value : Nat) : load (store width value) = value % 256 ^ width := by
  induction width generalizing value with
  | zero => exact (Nat.mod_one value).symm
  | succ width ih =>
    have hrest := ih (value / 256)
    rw [load] at hrest
    rw [store, load, foldr_cons, hrest, pow_succ', Nat.mod_mul]
    simp

/-- The parts of a record at the head of some bytes. -/
theorem record_parts (e : Dirent) (rest : Bytes) :
    slice (record e ++ rest) 0 8 = store 8 e.nextCookie.toNat ∧
    slice (record e ++ rest) 8 8 = store 8 e.inode.toNat ∧
    slice (record e ++ rest) 16 4 = store 4 e.name.length ∧
    (record e ++ rest).getD 20 0 = e.fileType ∧
    (∀ n, slice (record e ++ rest) 24 n = (e.name ++ rest).take n) := by
  simp [slice, record, store]

theorem length_record (e : Dirent) : (record e).length = 24 + e.name.length := by
  simp [record, length_store]
  omega

/-- An entry that `turbowasm_wasi_fs_fd_readdir` lets through. -/
structure Dirent.Valid (e : Dirent) : Prop where
  name : e.name.length ≤ direntNameMax
  fileType : e.fileType ≤ filetypeSymbolicLink

theorem load_cookie (x : UInt64) : UInt64.ofNat (load (store 8 x.toNat)) = x := by
  have hlt : x.toNat < 256 ^ 8 := x.toNat_lt
  rw [load_store, Nat.mod_eq_of_lt hlt, UInt64.ofNat_toNat]

theorem load_nameLength {e : Dirent} (h : e.Valid) :
    load (store 4 e.name.length) = e.name.length := by
  rw [load_store, Nat.mod_eq_of_lt (h.name.trans_lt (by decide))]

theorem parse_record {e : Dirent} (h : e.Valid) (rest : Bytes) :
    parse (record e ++ rest) = e :: parse rest := by
  obtain ⟨hc, hi, hn, ht, hname⟩ := record_parts e rest
  have hdecode : decode (record e ++ rest) = e := by
    rw [decode, hc, hi, hn, ht, hname, load_nameLength h, take_left, load_cookie, load_cookie]
  rw [parse, hn, load_nameLength h, ← length_record, if_pos (by simp), drop_left, hdecode]

/-- Of a record that is cut nothing is taken. -/
theorem parse_cut {e : Dirent} (h : e.Valid) {n : Nat} (hn : n < (record e).length) :
    parse ((record e).take n) = [] := by
  rw [parse, if_neg]
  intro hle
  rw [length_take, min_eq_left hn.le] at hle
  obtain ⟨-, -, hname, -⟩ := record_parts e []
  have hslice : slice ((record e).take n) 16 4 = store 4 e.name.length := by
    rw [← hname, append_nil, slice, slice, drop_take, take_take, min_eq_left (by omega)]
  rw [hslice, load_nameLength h] at hle
  rw [length_record] at hn
  omega

/-- **The whole records of a stream** that is cut. -/
theorem parse_stream {es : List Dirent} (n : Nat) (h : ∀ e ∈ es, e.Valid) :
    parse ((stream es).take n) = whole n es := by
  induction es generalizing n with
  | nil => rw [stream, flatMap_nil, take_nil, parse, whole, if_neg (by simp)]
  | cons e es ih =>
    obtain ⟨he, hes⟩ := forall_mem_cons.mp h
    rw [stream, flatMap_cons, whole, take_append]
    split
    · rw [take_of_length_le ‹_›, parse_record he, ← stream, ih _ hes]
    · rename_i hcut
      rw [Nat.sub_eq_zero_of_le (by omega), take_zero, append_nil, parse_cut he (by omega)]

/-! ## 5. A call -/

variable {σ : Type} {provider : Directory σ} {b : Buffer} {mem : Bytes} {size : Nat}

/-- A copied record lies in the buffer. -/
theorem write_record {source mem' : Bytes} {used : Nat} (hfit : address + size ≤ mem.length)
    (hs : used + source.length ≤ size) (hw : memoryWrite mem (address + used) source = .ok mem') :
    mem' = patch mem (address + used) source ∧ mem'.length = mem.length ∧
      ∀ i, i < address ∨ address + size ≤ i → mem'[i]? = mem[i]? := by
  have hin : address + used + source.length ≤ mem.length := by omega
  rw [memoryWrite_ok hin] at hw
  cases hw
  exact ⟨rfl, length_patch hin, fun i hi => getElem?_patch hin (by omega)⟩

/-- **The loop with any provider** stays in the buffer, and does not fill it exactly when the
directory ended. -/
theorem readdirLoop_spec (provider : Directory σ) (s : σ) (cookie : UInt64) (used : Nat)
    (hfit : address + size ≤ mem.length) (hu : used ≤ size) :
    let l := readdirLoop provider address size s mem cookie used
    l.used ≤ size ∧ l.mem.length = mem.length ∧ (l.stop = .ended → l.used < size) ∧
      (l.stop = .full → l.used = size) ∧
      ∀ i, i < address ∨ address + size ≤ i → l.mem[i]? = mem[i]? := by
  fun_induction readdirLoop provider address size s mem cookie used with
  | case1 | case3 => exact ⟨hu, rfl, nofun, nofun, fun _ _ => rfl⟩
  | case2 s mem cookie used hlt => exact ⟨hu, rfl, fun _ => hlt, nofun, fun _ _ => rfl⟩
  | case4 s mem cookie used hlt e heq copySize mem' hw hcut =>
    -- the record is cut, and fills the buffer
    obtain ⟨-, hlen, hsame⟩ := write_record hfit (by simp; omega) hw
    have hfull : used + copySize = size := by omega
    exact ⟨hfull.le, hlen, nofun, fun _ => hfull, hsame⟩
  | case5 s mem cookie used hlt e heq copySize mem' hw hcut ih =>
    obtain ⟨-, hlen, hsame⟩ := write_record hfit (by simp; omega) hw
    obtain ⟨hused, hlen', hended, hfull, hsame'⟩ := ih (hlen.symm ▸ hfit) (by omega)
    exact ⟨hused, hlen'.trans hlen, hended, hfull, fun i hi => (hsame' i hi).trans (hsame i hi)⟩
  | case6 s mem cookie used hlt =>
    exact ⟨hu, rfl, nofun, fun _ => le_antisymm hu (Nat.le_of_not_lt hlt), fun _ _ => rfl⟩

/-- From this cookie on the answers of the provider are these entries, each chained to the next by a
cookie of its own. -/
def Describes (provider : Directory σ) : UInt64 → List Dirent → Prop
  | cookie, [] => ∀ s, (provider s cookie).1 = .ok none
  | cookie, e :: es => (∀ s, (provider s cookie).1 = .ok (some e)) ∧ e.Valid ∧
    e.nextCookie ≠ cookie ∧ Describes provider e.nextCookie es

/-- **The loop over a directory** writes the stream of its records, cut at the buffer's size. -/
theorem readdirLoop_directory {es : List Dirent} {s : σ} {cookie : UInt64} {used : Nat}
    (h : Describes provider cookie es) (hfit : address + size ≤ mem.length) (hu : used ≤ size) :
    let l := readdirLoop provider address size s mem cookie used
    l.mem = patch mem (address + used) ((stream es).take (size - used)) ∧
      l.used = used + min (stream es).length (size - used) ∧ ∀ error, l.stop ≠ .failed error := by
  induction es generalizing s mem cookie used with
  | nil =>
    rw [readdirLoop, h s]
    simp only [stream, flatMap_nil, take_nil, patch_nil]
    split <;> simp [fsFdReaddir]
  | cons e es ih =>
    obtain ⟨he, hv, hne, hes⟩ := h
    have hpass : fsFdReaddir cookie (.ok (some e)) = .ok (some e) := by
      rw [fsFdReaddir, if_neg (Nat.not_lt.mpr hv.name), if_neg]
      rintro (htype | hsame)
      · exact absurd hv.fileType (UInt8.not_le.mpr htype)
      · exact hne hsame
    have hstream : stream (e :: es) = record e ++ stream es := rfl
    rw [readdirLoop, he s, hpass, hstream]
    split
    · rename_i hlt
      simp only [memoryWrite_ok (show address + used + ((record e).take
        (min (record e).length (size - used))).length ≤ mem.length by simp; omega)]
      split
      · -- the buffer ends in this record
        rename_i hcut
        have hle : size - used ≤ (record e).length := by omega
        rw [Nat.min_eq_right hle, take_append_of_le_length hle, length_append,
          min_eq_right (by omega)]
        exact ⟨rfl, rfl, nofun⟩
      · rename_i hall
        have hle : (record e).length ≤ size - used := by omega
        rw [min_eq_left hle, take_length]
        have hin : address + used + (record e).length ≤ mem.length := by omega
        obtain ⟨hmem, hused, hstop⟩ := ih (s := (provider s cookie).2) hes
          ((length_patch hin).symm ▸ hfit) (show used + (record e).length ≤ size by omega)
        refine ⟨?_, ?_, hstop⟩
        · rw [hmem, ← add_assoc, patch_append hin, take_append, take_of_length_le hle,
            Nat.sub_sub]
        · rw [hused, length_append]
          omega
    · rename_i hfull
      rw [Nat.sub_eq_zero_of_le (Nat.le_of_not_lt hfull)]
      simp [patch_nil]

/-- A call whose ranges are in the memory. -/
theorem fdReaddir_checked {s : σ} {cookie : UInt64} (hfit : b.address + b.size ≤ mem.length)
    (hr : b.result + 4 ≤ mem.length) :
    let l := readdirLoop provider b.address b.size s mem cookie 0
    fdReaddir provider b s mem cookie = match l.stop with
      | .failed error => (some error, l)
      | _ => (none, { l with mem := patch l.mem b.result (store 4 l.used) }) := by
  intro l
  have hlen : l.mem.length = mem.length :=
    (readdirLoop_spec provider s cookie 0 hfit (Nat.zero_le _)).2.1
  have hw : memoryWrite l.mem b.result (store 4 l.used) = .ok _ :=
    memoryWrite_ok (by rwa [length_store, hlen])
  simp only [fdReaddir, memoryCheck_eq_ok.mpr hfit, memoryCheck_eq_ok.mpr hr, ok_bind]
  show (match l.stop with | .failed error => _ | _ => _) = _
  rw [hw]

/-- What a call with any provider does to the memory, and what it reports. -/
structure Call (b : Buffer) (mem : Bytes) (error : Option Errno) (l : Listing σ) : Prop where
  used : l.used ≤ b.size
  inside : ∀ i, l.mem[i]? ≠ mem[i]? →
    b.address ≤ i ∧ i < b.address + b.size ∨ b.result ≤ i ∧ i < b.result + 4
  ended : error = none → b.size < 2 ^ 32 →
    (load (slice l.mem b.result 4) < b.size ↔ l.stop = .ended)

theorem load_used {used : Nat} (hused : used < 2 ^ 32) (hr : b.result + 4 ≤ mem.length) :
    load (slice (patch mem b.result (store 4 used)) b.result 4) = used := by
  have hslice : slice (patch mem b.result (store 4 used)) b.result (store 4 used).length = _ :=
    slice_patch (by rwa [length_store])
  rw [length_store] at hslice
  rw [hslice, load_store]
  exact Nat.mod_eq_of_lt hused

theorem fdReaddir_call (s : σ) (cookie : UInt64) :
    Call b mem (fdReaddir provider b s mem cookie).1 (fdReaddir provider b s mem cookie).2 := by
  by_cases hin : b.address + b.size ≤ mem.length ∧ b.result + 4 ≤ mem.length
  · obtain ⟨hfit, hr⟩ := hin
    obtain ⟨hused, hlen, hended, hfull, hsame⟩ :=
      readdirLoop_spec provider s cookie 0 hfit (Nat.zero_le _)
    rw [fdReaddir_checked hfit hr]
    generalize readdirLoop provider b.address b.size s mem cookie 0 = l at *
    rw [← hlen] at hr
    split
    · refine ⟨hused, fun i hi => .inl ?_, nofun⟩
      by_contra hno
      exact hi (hsame i (by omega))
    · rename_i hstop
      refine ⟨hused, fun i hi => ?_, fun _ hsize => ?_⟩
      · by_contra hno
        refine hi ((getElem?_patch (by rwa [length_store]) ?_).trans (hsame i (by omega)))
        rw [length_store]
        omega
      · rw [load_used (hused.trans_lt hsize) hr]
        cases hs : l.stop with
        | ended => exact iff_of_true (hended hs) rfl
        | full => exact iff_of_false (by rw [hfull hs]; exact lt_irrefl _) nofun
        | failed error => exact absurd hs (hstop error)
  · -- the ranges are checked before anything is written
    have herr : ∃ error, fdReaddir provider b s mem cookie =
        (some error, ⟨.failed error, mem, 0, s⟩) := by
      unfold fdReaddir
      split
      · exact ⟨_, rfl⟩
      · rename_i heq
        obtain ⟨_, hfit, hr⟩ := bind_eq_ok.mp heq
        exact absurd ⟨memoryCheck_eq_ok.mp hfit, memoryCheck_eq_ok.mp hr⟩ hin
    obtain ⟨error, heq⟩ := herr
    rw [heq]
    exact ⟨Nat.zero_le _, fun i hi => absurd rfl hi, nofun⟩

/-! ## 6. The guest -/

/-- A buffer and the place of its used size, apart from each other in a memory of `n` bytes. -/
structure Buffer.Sane (b : Buffer) (n : Nat) : Prop where
  size : b.size < 2 ^ 32
  buffer : b.address + b.size ≤ n
  result : b.result + 4 ≤ n
  apart : b.result + 4 ≤ b.address ∨ b.address + b.size ≤ b.result

/-- **A call on a directory** hands the guest the stream of the records, cut at the size. -/
theorem fdReaddir_directory {es : List Dirent} {s : σ} {cookie : UInt64} (hb : b.Sane mem.length)
    (h : Describes provider cookie es) :
    ∃ l, fdReaddir provider b s mem cookie = (none, l) ∧ l.mem.length = mem.length ∧
      slice l.mem b.address (load (slice l.mem b.result 4)) = (stream es).take b.size := by
  obtain ⟨hused, hlen, -⟩ :=
    readdirLoop_spec provider s cookie 0 hb.buffer (Nat.zero_le _)
  obtain ⟨hmem, hcount, hstop⟩ := readdirLoop_directory (s := s) h hb.buffer (Nat.zero_le _)
  rw [fdReaddir_checked hb.buffer hb.result]
  generalize readdirLoop provider b.address b.size s mem cookie 0 = l at *
  have hr : b.result + (store 4 l.used).length ≤ l.mem.length := by
    rw [length_store, hlen]
    exact hb.result
  split
  · rename_i error hs
    exact absurd hs (hstop error)
  · refine ⟨_, rfl, (length_patch hr).trans hlen, ?_⟩
    simp only
    rw [load_used (hused.trans_lt hb.size) (hlen.symm ▸ hb.result), slice_patch_apart hr, hmem]
    · have htake : ((stream es).take (b.size - 0)).length = l.used := by
        rw [hcount, length_take]
        omega
      rw [← htake]
      exact slice_patch (by rw [htake]; have := hb.buffer; omega)
    · rw [length_store]
      have := hb.apart
      omega

theorem Describes.whole {es : List Dirent} {cookie : UInt64} (n : Nat)
    (h : Describes provider cookie es) : ∃ rest, es = whole n es ++ rest ∧
      Describes provider (cookieAfter cookie (whole n es)) rest := by
  induction es generalizing n cookie with
  | nil => exact ⟨[], rfl, h⟩
  | cons e es ih =>
    unfold Preview1.whole
    split
    · obtain ⟨rest, heq, hrest⟩ := ih (n - (record e).length) h.2.2.2
      exact ⟨rest, congrArg (e :: ·) heq, hrest⟩
    · exact ⟨e :: es, rfl, h⟩

theorem Describes.valid {es : List Dirent} {cookie : UInt64} (h : Describes provider cookie es) :
    ∀ e ∈ es, e.Valid := by
  induction es generalizing cookie with
  | nil => simp
  | cons e es ih => exact forall_mem_cons.mpr ⟨h.2.1, ih h.2.2.2⟩

/-- Each buffer is large enough for the next record. -/
def Enough : List Buffer → List Dirent → Prop
  | [], _ => True
  | b :: bs, es => (∀ e ∈ es.head?, (record e).length ≤ b.size) ∧
    Enough bs (es.drop (whole b.size es).length)

/-- **The guest gets the directory**: what it has is a prefix, and after as many calls as there are
entries it has them all. -/
theorem enumerate_spec {bs : List Buffer} {es : List Dirent} {s : σ} {cookie : UInt64}
    (h : Describes provider cookie es) (hb : ∀ b ∈ bs, b.Sane mem.length) (hn : Enough bs es) :
    enumerate provider bs s mem cookie <+: es ∧
      (es.length ≤ bs.length → enumerate provider bs s mem cookie = es) := by
  induction bs generalizing es s mem cookie with
  | nil =>
    refine ⟨⟨es, rfl⟩, fun hle => ?_⟩
    exact (eq_nil_of_length_eq_zero (Nat.le_zero.mp hle)).symm
  | cons b bs ih =>
    obtain ⟨hsane, hbs⟩ := forall_mem_cons.mp hb
    obtain ⟨l, hcall, hlen, hbytes⟩ := fdReaddir_directory (s := s) hsane h
    obtain ⟨rest, heq, hrest⟩ := h.whole b.size
    obtain ⟨hhead, hn⟩ := hn
    have hpos : es ≠ [] → 0 < (whole b.size es).length := by
      cases es with
      | nil => exact absurd rfl
      | cons e es => simp [whole, hhead e rfl]
    rw [enumerate, hcall]
    simp only [hbytes, parse_stream _ h.valid]
    generalize whole b.size es = w at *
    subst heq
    rw [drop_left] at hn
    obtain ⟨hpre, hall⟩ := ih (s := l.state) hrest (hlen.symm ▸ hbs) hn
    refine ⟨(prefix_append_right_inj _).mpr hpre, fun hle => ?_⟩
    rw [hall]
    by_cases hnil : w ++ rest = []
    · simp [(append_eq_nil_iff.mp hnil).2]
    · have := hpos hnil
      rw [length_append, length_cons] at hle
      omega

/-- **Directory listing is complete and exact.**  With any provider a call stays in its buffer, and
reports less than the buffer's size exactly when the directory ended; and a guest that goes on with
the cookie of the last whole record gets every entry of the directory once and in order. -/
theorem readdir_lists {σ : Type} (provider : Directory σ) :
    (∀ b s mem cookie, Call b mem (fdReaddir provider b s mem cookie).1
      (fdReaddir provider b s mem cookie).2) ∧
    ∀ es, Describes provider 0 es → ∀ bs s mem, (∀ b ∈ bs, b.Sane mem.length) → Enough bs es →
      enumerate provider bs s mem 0 <+: es ∧
        (es.length ≤ bs.length → enumerate provider bs s mem 0 = es) :=
  ⟨fun _ s _ cookie => fdReaddir_call s cookie, fun _ h _ _ _ hb hn => enumerate_spec h hb hn⟩

/-- A directory `a` and a file `bc`. -/
def twoEntries : List Dirent := [⟨1, 7, 3, [97]⟩, ⟨2, 8, 4, [98, 99]⟩]

/-- The second record is cut in its header by the first call, and comes with the second. -/
theorem readdir_lists_cut :
    enumerate (fun (_ : Unit) cookie => (.ok twoEntries[cookie.toNat]?, ()))
      [⟨0, 40, 64⟩, ⟨0, 40, 64⟩] () (replicate 68 0) 0 = twoEntries := by
  refine ((readdir_lists _).2 _ ?_ _ _ _ ?_ ?_).2 (by decide)
  · exact ⟨fun _ => rfl, ⟨by decide, by decide⟩, by decide, fun _ => rfl, ⟨by decide, by decide⟩,
      by decide, fun _ => rfl⟩
  · simp only [mem_cons, not_mem_nil, or_false, or_self, forall_eq]
    exact ⟨by decide, by decide, by decide, by decide⟩
  · exact ⟨by decide, by decide, trivial⟩

end TurboWasm.Preview1
