import ConstructionRobot.Lib.Block
import ConstructionRobot.Lib.Sys

/-!
# The growing vector (`cvector.c`, `cvector.h`)

A vector has a block of `cv_tot_len` elements of `cv_size` bytes, of which the first `cv_len` are
in use. A push on a full vector doubles the block; a removal that leaves a quarter halves it.
`size_t` has 32 bits. An iterator is its distance from `cv_pdata`.

`cvector_rm` copies the elements behind the removed one and one more. On a full vector that one is
behind the block, so the copy is a fault.

* `Cvector.Holds`: the vector holds a list of elements; its invariant.
* `cvectorPushback_spec` and so on: one function, on the list.
* `cvector_refines_iff`: a run agrees with the list operations exactly if it removes no element of
  a full vector.
-/

namespace Robot

/-- `MIN_LEN`. -/
def minLen : UInt32 := 256

/-- The return codes `CVEFAILED` (-1), `CVESUCCESS`, `CVEPUSHBACK`, `CVEPOPBACK`, `CVEINSERT` and
`CVERM`. -/
inductive Cve where
  | failed
  | success
  | pushback
  | popback
  | insert
  | rm
  deriving DecidableEq, Repr

/-- `struct _cvector`. -/
structure Cvector where
  pdata : List UInt8
  len : UInt32
  totLen : UInt32
  size : UInt32
  deriving DecidableEq, Repr

/-- `cvector_create`: `cv` is the allocation of the struct, `mem` that of the block. -/
def cvectorCreate (cv mem : Alloc UInt8) (size : UInt32) : Option Cvector :=
  if cv.ok then
    match mem.realloc [] (minLen * size).toNat with
    | some pdata => some { pdata := pdata, len := 0, totLen := minLen, size := size }
    | none => none
  else none

/-- `cvector_length`. -/
def cvectorLength (cv : Cvector) : UInt32 := cv.len

/-- The vector with a block of `tot` elements. -/
def Cvector.resize (mem : Alloc UInt8) (cv : Cvector) (tot : UInt32) : Option Cvector :=
  (mem.realloc cv.pdata (tot * cv.size).toNat).map fun pdata =>
    { cv with pdata := pdata, totLen := tot }

/-- The end of `cvector_pushback`, with room for the element. -/
def cvectorPut (cv : Cvector) (memb : List UInt8) : Call (Cvector × Cve) := do
  let pdata ← memcpy cv.pdata (cv.len * cv.size).toNat memb 0 cv.size.toNat
  pure ({ cv with pdata := pdata, len := cv.len + 1 }, .success)

/-- `cvector_pushback`. -/
def cvectorPushback (mem : Alloc UInt8) (cv : Cvector) (memb : List UInt8) :
    Call (Cvector × Cve) :=
  if cv.len ≥ cv.totLen then
    match cv.resize mem (cv.totLen <<< 1) with
    | some cv => cvectorPut cv memb
    | none => pure ({ cv with totLen := cv.totLen <<< 1 >>> 1 }, .pushback)
  else cvectorPut cv memb

/-- The end of `cvector_popback` and of `cvector_rm`: a block of 1024 elements or more of which at
most a quarter is in use is halved. `err` is the code for a failed allocation. -/
def cvectorReduce (mem : Alloc UInt8) (cv : Cvector) (err : Cve) : Cvector × Cve :=
  if cv.totLen ≥ minLen <<< 2 ∧ cv.len ≤ cv.totLen >>> 2 then
    match cv.resize mem (cv.totLen >>> 1) with
    | some cv => (cv, .success)
    | none => ({ cv with totLen := cv.totLen >>> 1 <<< 1 }, err)
  else (cv, .success)

/-- `cvector_popback`: the vector, the code and the object `memb` after the call. -/
def cvectorPopback (mem : Alloc UInt8) (cv : Cvector) (memb : List UInt8) :
    Call (Cvector × Cve × List UInt8) := do
  if cv.len ≤ 0 then pure (cv, .popback, memb)
  else
    let cv := { cv with len := cv.len - 1 }
    let memb ← memcpy memb 0 cv.pdata (cv.len * cv.size).toNat cv.size.toNat
    let (cv, code) := cvectorReduce mem cv .popback
    pure (cv, code, memb)

/-- `cvector_begin` and `cvector_end`. -/
def cvectorBegin (_cv : Cvector) : UInt32 := 0
def cvectorEnd (cv : Cvector) : UInt32 := cv.size * cv.len

/-- The macro `CWARNING_ITER` returns from the function. -/
def cwarningIter (cv : Cvector) (iter : UInt32) : Bool :=
  cvectorBegin cv > iter || cvectorEnd cv ≤ iter

/-- `cvector_val_at`. -/
def cvectorValAt (cv : Cvector) (index : UInt32) (memb : List UInt8) :
    Call (Cve × List UInt8) := do
  let memb ← memcpy memb 0 cv.pdata (index * cv.size).toNat cv.size.toNat
  pure (.success, memb)

/-- `cvector_at`: `none` is `NULL`. -/
def cvectorAt (cv : Cvector) (index : UInt32) : Option UInt32 :=
  if index ≥ cv.len then none else some (index * cv.size)

/-- `cvector_rm`. The number of bytes is that from the iterator to the end, so the copy reads one
element behind the end. -/
def cvectorRm (mem : Alloc UInt8) (cv : Cvector) (iter : UInt32) : Call (Cvector × Cve) := do
  if cwarningIter cv iter then pure (cv, .failed)
  else
    let pdata ← moveForward cv.pdata iter.toNat (iter.toNat + cv.size.toNat)
      (cvectorEnd cv - iter).toNat
    pure (cvectorReduce mem { cv with pdata := pdata, len := cv.len - 1 } .rm)

/-- `cvector_rm_at`. -/
def cvectorRmAt (mem : Alloc UInt8) (cv : Cvector) (index : UInt32) : Call (Cvector × Cve) := do
  let iter := cv.size * index
  if cwarningIter cv iter then pure (cv, .failed)
  else cvectorRm mem cv iter

/-! ## Calls -/

/-- A call on a vector of elements of `size` bytes, with the object of the caller. The allocator
succeeds, and `junk` is what it finds. -/
inductive CvOp (size : ℕ) where
  | pushback (junk : ℕ → UInt8) (memb : List UInt8) (h : memb.length = size)
  | popback (junk : ℕ → UInt8) (memb : List UInt8) (h : memb.length = size)
  | rmAt (junk : ℕ → UInt8) (index : UInt32)
  | at (index : UInt32)
  | valAt (index : UInt32) (memb : List UInt8) (h : memb.length = size)
  | length

/-- What a call gives back: its code, and the object of the caller; the element behind the pointer
of `cvector_at`; the length. -/
inductive CvRet where
  | code (c : Cve)
  | copied (c : Cve) (memb : List UInt8)
  | elem (p : Option (List UInt8))
  | count (n : ℕ)
  deriving DecidableEq, Repr

namespace CvOp

variable {size : ℕ}

/-- The call on the vector. -/
def exec (cv : Cvector) : CvOp size → Call (Cvector × CvRet)
  | pushback junk memb _ => do
    let (cv, c) ← cvectorPushback ⟨true, junk⟩ cv memb
    pure (cv, .code c)
  | popback junk memb _ => do
    let (cv, c, memb) ← cvectorPopback ⟨true, junk⟩ cv memb
    pure (cv, .copied c memb)
  | rmAt junk index => do
    let (cv, c) ← cvectorRmAt ⟨true, junk⟩ cv index
    pure (cv, .code c)
  | .at index =>
    pure (cv, .elem ((cvectorAt cv index).map fun p =>
      (cv.pdata.drop p.toNat).take cv.size.toNat))
  | valAt index memb _ => do
    let (c, memb) ← cvectorValAt cv index memb
    pure (cv, .copied c memb)
  | length => pure (cv, .count (cvectorLength cv).toNat)

/-- The call on a list of elements. -/
def spec (l : List (List UInt8)) : CvOp size → List (List UInt8) × CvRet
  | pushback _ memb _ => (l ++ [memb], .code .success)
  | popback _ memb _ =>
    match l.getLast? with
    | some x => (l.dropLast, .copied .success x)
    | none => (l, .copied .popback memb)
  | rmAt _ index =>
    if index.toNat < l.length then (l.eraseIdx index.toNat, .code .success)
    else (l, .code .failed)
  | .at index => (l, .elem l[index.toNat]?)
  | valAt index memb _ => (l, .copied .success (l.getD index.toNat memb))
  | length => (l, .count l.length)

/-- What the callers promise: sizes stay below `2 ^ 32`, and `cvector_val_at` gets an index of the
vector. -/
def Fits (cv : Cvector) : CvOp size → Prop
  | pushback _ _ _ => cv.len = cv.totLen → 2 * cv.totLen.toNat * cv.size.toNat < 2 ^ 32
  | rmAt _ index => cv.size.toNat * index.toNat < 2 ^ 32
  | valAt index _ _ => index < cv.len
  | _ => True

/-- The call does not remove an element of a full vector. -/
def NotFull (cv : Cvector) : CvOp size → Prop
  | rmAt _ index => index < cv.len → cv.len < cv.totLen
  | _ => True

instance decidableFits (cv : Cvector) : (op : CvOp size) → Decidable (op.Fits cv)
  | pushback _ _ _ => inferInstanceAs
      (Decidable (cv.len = cv.totLen → 2 * cv.totLen.toNat * cv.size.toNat < 2 ^ 32))
  | rmAt _ index => inferInstanceAs (Decidable (cv.size.toNat * index.toNat < 2 ^ 32))
  | valAt index _ _ => inferInstanceAs (Decidable (index < cv.len))
  | popback _ _ _ => isTrue trivial
  | .at _ => isTrue trivial
  | length => isTrue trivial

instance decidableNotFull (cv : Cvector) : (op : CvOp size) → Decidable (op.NotFull cv)
  | rmAt _ index => inferInstanceAs (Decidable (index < cv.len → cv.len < cv.totLen))
  | pushback _ _ _ => isTrue trivial
  | valAt _ _ _ => isTrue trivial
  | popback _ _ _ => isTrue trivial
  | .at _ => isTrue trivial
  | length => isTrue trivial

/-- One call as a step of a run; a call that does not return ends it. -/
def step (cv : Cvector) (op : CvOp size) : Option (Cvector × List CvRet) :=
  (op.exec cv).ret?.map fun r => (r.1, [r.2])

end CvOp

/-! ## One function, on the list -/

/-- The vector holds the elements `l`, of `size` bytes each. -/
structure Cvector.Holds (size : ℕ) (cv : Cvector) (l : List (List UInt8)) : Prop where
  elemSize : cv.size.toNat = size
  pos : 0 < size
  block : cv.pdata.length = cv.totLen.toNat * size
  bytes : cv.totLen.toNat * size < 2 ^ 32
  len : cv.len.toNat ≤ cv.totLen.toNat
  pow : ∃ k, cv.totLen.toNat = 256 * 2 ^ k
  elems : slots size cv.len.toNat cv.pdata = l

section Spec

variable {size : ℕ} {cv : Cvector} {l : List (List UInt8)}

/-- A product that stays below `2 ^ 32` does not wrap. -/
theorem toNat_mul_of_lt {a b : UInt32} (h : a.toNat * b.toNat < 2 ^ 32) :
    (a * b).toNat = a.toNat * b.toNat := by
  rw [UInt32.toNat_mul, Nat.mod_eq_of_lt h]

/-- The shifts of `cv_tot_len` by `EXPANED_VAL` and `REDUSED_VAL`. -/
theorem shift_left {tot : UInt32} (h : tot.toNat < 2 ^ 31) : (tot <<< 1).toNat = 2 * tot.toNat := by
  rw [UInt32.toNat_shiftLeft]
  show tot.toNat <<< 1 % 2 ^ 32 = 2 * tot.toNat
  rw [Nat.shiftLeft_eq, Nat.mod_eq_of_lt (by omega)]
  omega

theorem shift_half (tot : UInt32) : (tot >>> 1).toNat = tot.toNat / 2 := by
  rw [UInt32.toNat_shiftRight]
  exact Nat.shiftRight_eq_div_pow _ 1

theorem shift_quarter (tot : UInt32) : (tot >>> 2).toNat = tot.toNat / 4 := by
  rw [UInt32.toNat_shiftRight]
  exact Nat.shiftRight_eq_div_pow _ 2

/-- `cv_len + 1` does not wrap. -/
theorem len_succ (hlt : cv.len.toNat < cv.totLen.toNat) :
    (cv.len + 1).toNat = cv.len.toNat + 1 := by
  have := cv.totLen.toNat_lt
  rw [UInt32.toNat_add]
  exact Nat.mod_eq_of_lt (show cv.len.toNat + 1 < 2 ^ 32 by omega)

namespace Cvector.Holds

theorem length (h : cv.Holds size l) : l.length = cv.len.toNat := by
  rw [← h.elems, slots_length]

theorem full_iff (h : cv.Holds size l) : cv.len ≥ cv.totLen ↔ cv.len = cv.totLen := by
  have hlen := h.len
  rw [ge_iff_le, UInt32.le_iff_toNat_le, ← UInt32.toNat_inj]
  omega

theorem room (h : cv.Holds size l) (hfull : cv.len ≠ cv.totLen) :
    cv.len.toNat < cv.totLen.toNat :=
  Nat.lt_of_le_of_ne h.len fun heq => hfull (UInt32.toNat_inj.mp heq)

/-- The distance of an element from the beginning of the block. -/
theorem place (h : cv.Holds size l) {i : UInt32} (hi : i.toNat ≤ cv.totLen.toNat) :
    (i * cv.size).toNat = i.toNat * size := by
  have hle : i.toNat * size ≤ cv.totLen.toNat * size := Nat.mul_le_mul_right size hi
  have hb := h.bytes
  rw [toNat_mul_of_lt (by rw [h.elemSize]; omega), h.elemSize]

/-- An element of the vector is inside the block. -/
theorem inside (h : cv.Holds size l) {i : ℕ} (hi : i < cv.totLen.toNat) :
    (i + 1) * size ≤ cv.pdata.length := by
  rw [h.block]
  exact Nat.mul_le_mul_right size hi

theorem resize (h : cv.Holds size l) (junk : ℕ → UInt8) {tot : UInt32}
    (hlen : cv.len.toNat ≤ tot.toNat)
    (hbytes : tot.toNat * size < 2 ^ 32) (hpow : ∃ k, tot.toNat = 256 * 2 ^ k) :
    ∃ cv', cv.resize ⟨true, junk⟩ tot = some cv' ∧ cv'.Holds size l ∧ cv'.len = cv.len ∧
      cv'.totLen = tot := by
  have hmul : (tot * cv.size).toNat = tot.toNat * size := by
    rw [toNat_mul_of_lt (by rw [h.elemSize]; exact hbytes), h.elemSize]
  obtain ⟨new, hnew⟩ : ∃ new, Alloc.realloc ⟨true, junk⟩ cv.pdata (tot.toNat * size) = some new :=
    ⟨_, rfl⟩
  refine ⟨{ cv with pdata := new, totLen := tot }, ?_, ?_, rfl, rfl⟩
  · rw [Cvector.resize, hmul, hnew, Option.map_some]
  · refine ⟨h.elemSize, h.pos, Alloc.realloc_length hnew, hbytes, hlen, hpow, ?_⟩
    rw [← h.elems]
    refine slots_realloc hnew ?_ (Nat.mul_le_mul_right size hlen)
    rw [h.block]
    exact Nat.mul_le_mul_right size h.len

theorem totLen_pos (h : cv.Holds size l) : 256 ≤ cv.totLen.toNat := by
  obtain ⟨k, hk⟩ := h.pow
  rw [hk]
  exact Nat.le_mul_of_pos_right 256 (Nat.two_pow_pos k)

/-- A block of twice the size. -/
theorem grow (h : cv.Holds size l) (junk : ℕ → UInt8)
    (hbytes : 2 * cv.totLen.toNat * cv.size.toNat < 2 ^ 32) :
    ∃ cv', cv.resize ⟨true, junk⟩ (cv.totLen <<< 1) = some cv' ∧ cv'.Holds size l ∧
      cv'.len = cv.len ∧ cv'.totLen.toNat = 2 * cv.totLen.toNat := by
  have hlen := h.len
  rw [h.elemSize] at hbytes
  have hle : 2 * cv.totLen.toNat * 1 ≤ 2 * cv.totLen.toNat * size :=
    Nat.mul_le_mul_left _ h.pos
  have hdouble := shift_left (show cv.totLen.toNat < 2 ^ 31 by omega)
  obtain ⟨k, hk⟩ := h.pow
  obtain ⟨cv', hcv', hh, hlen', htot'⟩ := h.resize junk
    (show cv.len.toNat ≤ (cv.totLen <<< 1).toNat by omega) (by rw [hdouble]; exact hbytes)
    ⟨k + 1, by rw [hdouble, hk, Nat.pow_succ]; omega⟩
  exact ⟨cv', hcv', hh, hlen', by rw [htot', hdouble]⟩

theorem put (h : cv.Holds size l) (hroom : cv.len.toNat < cv.totLen.toNat) {memb : List UInt8}
    (hm : memb.length = size) :
    ∃ cv', cvectorPut cv memb = .ret (cv', .success) ∧ cv'.Holds size (l ++ [memb]) ∧
      cv'.len.toNat = cv.len.toNat + 1 ∧ cv'.totLen = cv.totLen := by
  have hsucc := len_succ hroom
  obtain ⟨b, hb, hblen, hslots⟩ := slots_write hm (h.inside hroom)
  refine ⟨{ cv with pdata := b, len := cv.len + 1 }, ?_, ?_, hsucc, rfl⟩
  · rw [cvectorPut, h.place (by omega), h.elemSize, hb]
    rfl
  · refine ⟨h.elemSize, h.pos, hblen.trans h.block, h.bytes, ?_, h.pow, ?_⟩
    · show (cv.len + 1).toNat ≤ cv.totLen.toNat
      omega
    · show slots size (cv.len + 1).toNat b = l ++ [memb]
      rw [hsucc, hslots, h.elems]

theorem reduce (h : cv.Holds size l) (junk : ℕ → UInt8) (err : Cve) :
    ∃ cv', cvectorReduce ⟨true, junk⟩ cv err = (cv', .success) ∧ cv'.Holds size l := by
  unfold cvectorReduce
  split
  · case isTrue hc =>
    obtain ⟨htot, hlen⟩ := hc
    have htot : 1024 ≤ cv.totLen.toNat := UInt32.le_iff_toNat_le.mp htot
    have hquarter := shift_quarter cv.totLen
    have hlen := UInt32.le_iff_toNat_le.mp hlen
    have hhalf := shift_half cv.totLen
    obtain ⟨cv', hcv', hh, -, -⟩ :=
      h.resize junk (show cv.len.toNat ≤ (cv.totLen >>> 1).toNat by omega)
      (by
        have hle : cv.totLen.toNat / 2 * size ≤ cv.totLen.toNat * size :=
          Nat.mul_le_mul_right size (by omega)
        have := h.bytes
        rw [hhalf]
        omega)
      (by
        obtain ⟨k, hk⟩ := h.pow
        obtain _ | k := k
        · omega
        · exact ⟨k, by rw [hhalf, hk, Nat.pow_succ]; omega⟩)
    exact ⟨cv', by rw [hcv'], hh⟩
  · exact ⟨cv, rfl, h⟩

/-- The vector without its last element. -/
theorem shorten (h : cv.Holds size l) (hlen : cv.len ≠ 0) :
    (cv.len - 1).toNat + 1 = cv.len.toNat ∧
      ({ cv with len := cv.len - 1 } : Cvector).Holds size l.dropLast ∧
      l.getLast? = some (slot size cv.pdata (cv.len - 1).toNat) := by
  have hpos : 0 < cv.len.toNat := by
    have : cv.len.toNat ≠ 0 := fun h0 => hlen (UInt32.toNat_inj.mp h0)
    omega
  have hpred : (cv.len - 1).toNat + 1 = cv.len.toNat := by
    have h1 : (1 : UInt32).toNat = 1 := rfl
    rw [UInt32.toNat_sub_of_le _ _ (UInt32.le_iff_toNat_le.mpr (by omega)), h1]
    omega
  have hl : l = slots size (cv.len - 1).toNat cv.pdata ++
      [slot size cv.pdata (cv.len - 1).toNat] := by
    rw [← slots_succ, hpred, h.elems]
  have hlen' := h.len
  refine ⟨hpred, ⟨h.elemSize, h.pos, h.block, h.bytes, ?_, h.pow, ?_⟩, ?_⟩
  · show (cv.len - 1).toNat ≤ cv.totLen.toNat
    omega
  · rw [hl, List.dropLast_concat]
  · rw [hl, List.getLast?_concat]

/-- The end of the elements. -/
theorem end_toNat (h : cv.Holds size l) : (cvectorEnd cv).toNat = cv.len.toNat * size := by
  rw [cvectorEnd, UInt32.mul_comm, h.place h.len]

/-- `CWARNING_ITER` catches the iterators of elements that the vector does not have. -/
theorem warning (h : cv.Holds size l) {index : UInt32}
    (hfits : cv.size.toNat * index.toNat < 2 ^ 32) :
    cwarningIter cv (cv.size * index) = decide (cv.len.toNat ≤ index.toNat) := by
  have hmul : (cv.size * index).toNat = index.toNat * size := by
    rw [toNat_mul_of_lt hfits, h.elemSize, Nat.mul_comm]
  have hiff : cvectorEnd cv ≤ cv.size * index ↔ cv.len.toNat ≤ index.toNat := by
    rw [UInt32.le_iff_toNat_le, h.end_toNat, hmul]
    exact ⟨fun hle => Nat.le_of_mul_le_mul_right hle h.pos, fun hle => Nat.mul_le_mul_right size hle⟩
  have hbegin : ¬cvectorBegin cv > cv.size * index := by
    rw [gt_iff_lt, UInt32.lt_iff_toNat_lt]
    exact Nat.not_lt_zero _
  simp [cwarningIter, hbegin, hiff]

end Cvector.Holds

/-- `cvector_create` gives the empty vector. -/
theorem cvectorCreate_spec {cv₀ mem : Alloc UInt8} {size : UInt32} (hcv : cv₀.ok = true)
    (hmem : mem.ok = true) (hpos : 1 ≤ size.toNat) (hsize : 256 * size.toNat < 2 ^ 32) :
    ∃ cv, cvectorCreate cv₀ mem size = some cv ∧ cv.Holds size.toNat [] := by
  have hmul : (minLen * size).toNat = 256 * size.toNat := toNat_mul_of_lt hsize
  obtain ⟨new, hnew⟩ : ∃ new, mem.realloc [] (256 * size.toNat) = some new :=
    ⟨_, by rw [Alloc.realloc, if_pos hmem]⟩
  refine ⟨{ pdata := new, len := 0, totLen := minLen, size := size }, ?_, ?_⟩
  · rw [cvectorCreate, if_pos hcv, hmul, hnew]
  · exact ⟨rfl, hpos, Alloc.realloc_length hnew, hsize, Nat.zero_le _, ⟨0, rfl⟩, rfl⟩

/-- `cvector_pushback` appends. -/
theorem cvectorPushback_spec (h : cv.Holds size l) (junk : ℕ → UInt8) {memb : List UInt8}
    (hm : memb.length = size)
    (hfits : cv.len = cv.totLen → 2 * cv.totLen.toNat * cv.size.toNat < 2 ^ 32) :
    ∃ cv', cvectorPushback ⟨true, junk⟩ cv memb = .ret (cv', .success) ∧
      cv'.Holds size (l ++ [memb]) := by
  unfold cvectorPushback
  split
  · case isTrue hfull =>
    have hfull := h.full_iff.mp hfull
    obtain ⟨cv₁, hcv₁, hh, hlen₁, htot₁⟩ := h.grow junk (hfits hfull)
    have hpos := h.totLen_pos
    obtain ⟨cv', hput, hh', -⟩ := hh.put (by rw [hlen₁, htot₁, hfull]; omega) hm
    exact ⟨cv', by rw [hcv₁]; exact hput, hh'⟩
  · case isFalse hroom =>
    obtain ⟨cv', hput, hh, -⟩ :=
      h.put (h.room fun heq => hroom (h.full_iff.mpr heq)) hm
    exact ⟨cv', hput, hh⟩

/-- `cvector_popback` gives the last element and drops it; an empty vector stays. -/
theorem cvectorPopback_spec (h : cv.Holds size l) (junk : ℕ → UInt8) {memb : List UInt8}
    (hm : memb.length = size) :
    (l = [] ∧ cvectorPopback ⟨true, junk⟩ cv memb = .ret (cv, .popback, memb)) ∨
      ∃ cv' x, l.getLast? = some x ∧
        cvectorPopback ⟨true, junk⟩ cv memb = .ret (cv', .success, x) ∧
        cv'.Holds size l.dropLast := by
  unfold cvectorPopback
  split
  · case isTrue h0 =>
    have h0 : cv.len.toNat ≤ 0 := UInt32.le_iff_toNat_le.mp h0
    refine .inl ⟨List.eq_nil_of_length_eq_zero ?_, rfl⟩
    rw [h.length]
    omega
  · case isFalse h0 =>
    have hne : cv.len ≠ 0 := fun hz => h0 (by rw [hz]; exact UInt32.le_refl 0)
    obtain ⟨hpred, hh, hlast⟩ := h.shorten hne
    obtain ⟨cv', hcv', hh'⟩ := hh.reduce junk .popback
    have hlen := h.len
    refine .inr ⟨cv', _, hlast, ?_, hh'⟩
    simp only [h.place (show (cv.len - 1).toNat ≤ cv.totLen.toNat by omega), h.elemSize,
      memcpy_slot hm (h.inside (show (cv.len - 1).toNat < cv.totLen.toNat by omega)),
      Call.ret_bind, hcv', Call.pure_eq]

/-- `cvector_rm_at` with an index that the vector does not have. -/
theorem cvectorRmAt_outside (h : cv.Holds size l) (mem : Alloc UInt8) {index : UInt32}
    (hfits : cv.size.toNat * index.toNat < 2 ^ 32) (hi : cv.len.toNat ≤ index.toNat) :
    cvectorRmAt mem cv index = .ret (cv, .failed) := by
  simp only [cvectorRmAt, h.warning hfits, hi, decide_true, ↓reduceIte, Call.pure_eq]

/-- The copy of `cvector_rm_at` with an index of the vector. -/
theorem cvectorRmAt_eq (h : cv.Holds size l) (mem : Alloc UInt8) {index : UInt32}
    (hi : index.toNat < cv.len.toNat) :
    cvectorRmAt mem cv index = (moveForward cv.pdata (index.toNat * size)
      (index.toNat * size + size) ((cv.len.toNat - index.toNat) * size) >>= fun pdata =>
        pure (cvectorReduce mem { cv with pdata := pdata, len := cv.len - 1 } .rm)) := by
  have hlen := h.len
  have hmul : (cv.size * index).toNat = index.toNat * size := by
    rw [UInt32.mul_comm, h.place (by omega)]
  have hfits : cv.size.toNat * index.toNat < 2 ^ 32 := by
    rw [h.elemSize, Nat.mul_comm, ← hmul]
    exact UInt32.toNat_lt _
  have hle : index.toNat * size ≤ cv.len.toNat * size := Nat.mul_le_mul_right size (by omega)
  have hsub : (cvectorEnd cv - cv.size * index).toNat = (cv.len.toNat - index.toNat) * size := by
    rw [UInt32.toNat_sub_of_le _ _ (UInt32.le_iff_toNat_le.mpr (by rw [h.end_toNat, hmul]; exact hle)),
      h.end_toNat, hmul, Nat.sub_mul]
  have hwarn : cwarningIter cv (cv.size * index) = false := by
    rw [h.warning hfits, decide_eq_false_iff_not]
    omega
  simp only [cvectorRmAt, cvectorRm, hwarn, Bool.false_eq_true, ↓reduceIte, hmul, h.elemSize, hsub]

/-- `cvector_rm_at` of a vector that is not full removes the element. -/
theorem cvectorRmAt_spec (h : cv.Holds size l) (junk : ℕ → UInt8) {index : UInt32}
    (hi : index.toNat < cv.len.toNat) (hroom : cv.len.toNat < cv.totLen.toNat) :
    ∃ cv', cvectorRmAt ⟨true, junk⟩ cv index = .ret (cv', .success) ∧
      cv'.Holds size (l.eraseIdx index.toNat) := by
  obtain ⟨b, hb, hblen, hslots⟩ := slots_move hi (h.inside hroom)
  have hne : cv.len ≠ 0 := by
    rintro h0
    rw [h0] at hi
    exact Nat.not_lt_zero _ hi
  obtain ⟨hpred, -, -⟩ := h.shorten hne
  have hh : ({ cv with pdata := b, len := cv.len - 1 } : Cvector).Holds size
      (l.eraseIdx index.toNat) := by
    refine ⟨h.elemSize, h.pos, hblen.trans h.block, h.bytes, ?_, h.pow, ?_⟩
    · show (cv.len - 1).toNat ≤ cv.totLen.toNat
      omega
    · show slots size (cv.len - 1).toNat b = l.eraseIdx index.toNat
      rw [show (cv.len - 1).toNat = cv.len.toNat - 1 by omega, hslots, h.elems]
  obtain ⟨cv', hcv', hh'⟩ := hh.reduce junk .rm
  exact ⟨cv', by rw [cvectorRmAt_eq h _ hi, hb, Call.ret_bind, hcv', Call.pure_eq], hh'⟩

/-- `cvector_rm_at` of a full vector reads behind the block. -/
theorem cvectorRmAt_full (h : cv.Holds size l) (mem : Alloc UInt8) {index : UInt32}
    (hi : index.toNat < cv.len.toNat) (hfull : cv.len.toNat = cv.totLen.toNat) :
    cvectorRmAt mem cv index = .fault := by
  have hpos := h.pos
  have hsub : index.toNat * size + (cv.len.toNat - index.toNat) * size = cv.len.toNat * size := by
    rw [← Nat.add_mul]
    congr 1
    omega
  rw [cvectorRmAt_eq h _ hi, moveForward_fault _ _ (Nat.mul_pos (by omega) hpos), Call.fault_bind]
  rw [h.block, ← hfull]
  omega

/-- `cvector_at` points to the element, or is `NULL` behind the end. -/
theorem cvectorAt_spec (h : cv.Holds size l) (index : UInt32) :
    ((cvectorAt cv index).map fun p => (cv.pdata.drop p.toNat).take cv.size.toNat) =
      l[index.toNat]? := by
  have hlen := h.len
  unfold cvectorAt
  split
  · case isTrue hi =>
    have hi : cv.len.toNat ≤ index.toNat := UInt32.le_iff_toNat_le.mp hi
    rw [Option.map_none, List.getElem?_eq_none (by rw [h.length]; exact hi)]
  · case isFalse hi =>
    have hi : index.toNat < cv.len.toNat :=
      Nat.lt_of_not_le fun hle => hi (UInt32.le_iff_toNat_le.mpr hle)
    rw [Option.map_some, h.place (by omega), h.elemSize, ← h.elems, slots_getElem? size cv.pdata hi]
    rfl

/-- `cvector_val_at` copies the element. -/
theorem cvectorValAt_spec (h : cv.Holds size l) {memb : List UInt8} (hm : memb.length = size)
    {index : UInt32} (hi : index.toNat < cv.len.toNat) :
    cvectorValAt cv index memb = .ret (.success, l.getD index.toNat memb) := by
  have hlen := h.len
  have hget : l.getD index.toNat memb = slot size cv.pdata index.toNat := by
    rw [List.getD_eq_getElem?_getD, ← h.elems, slots_getElem? size cv.pdata hi, Option.getD_some]
  rw [cvectorValAt, h.place (by omega), h.elemSize, memcpy_slot hm (h.inside (by omega)), hget]
  rfl

end Spec

/-! ## Runs -/

namespace CvOp

variable {size : ℕ} {cv : Cvector} {l : List (List UInt8)}

theorem step_of_exec {op : CvOp size} {cv' : Cvector} {r : CvRet}
    (h : op.exec cv = .ret (cv', r)) : op.step cv = some (cv', [r]) := by
  rw [step, h]
  rfl

/-- A call that does not remove an element of a full vector agrees with the list. -/
theorem step_refines (op : CvOp size) (h : cv.Holds size l) (hfits : op.Fits cv)
    (hfull : op.NotFull cv) :
    ∃ cv', op.step cv = some (cv', [(op.spec l).2]) ∧ cv'.Holds size (op.spec l).1 := by
  cases op with
  | pushback junk memb hm =>
    obtain ⟨cv', hr, hh⟩ := cvectorPushback_spec h junk hm hfits
    exact ⟨cv', step_of_exec (by simp only [exec, hr, Call.ret_bind, Call.pure_eq]; rfl), hh⟩
  | popback junk memb hm =>
    obtain ⟨rfl, hr⟩ | ⟨cv', x, hx, hr, hh⟩ := cvectorPopback_spec h junk hm
    · exact ⟨cv, step_of_exec (by simp only [exec, hr, Call.ret_bind, Call.pure_eq]; rfl), h⟩
    · refine ⟨cv', step_of_exec ?_, ?_⟩
      · simp only [exec, hr, Call.ret_bind, Call.pure_eq, spec, hx]
      · simpa only [spec, hx] using hh
  | rmAt junk index =>
    by_cases hi : index.toNat < cv.len.toNat
    · have hroom := UInt32.lt_iff_toNat_lt.mp (hfull (UInt32.lt_iff_toNat_lt.mpr hi))
      obtain ⟨cv', hr, hh⟩ := cvectorRmAt_spec h junk hi hroom
      refine ⟨cv', step_of_exec ?_, ?_⟩
      · simp only [exec, hr, Call.ret_bind, Call.pure_eq, spec, h.length, hi, ↓reduceIte]
      · simpa only [spec, h.length, hi, ↓reduceIte] using hh
    · have hr := cvectorRmAt_outside h ⟨true, junk⟩ hfits (by omega)
      refine ⟨cv, step_of_exec ?_, ?_⟩
      · simp only [exec, hr, Call.ret_bind, Call.pure_eq, spec, h.length, hi, ↓reduceIte]
      · simpa only [spec, h.length, hi, ↓reduceIte] using h
  | «at» index =>
    exact ⟨cv, step_of_exec (by simp only [exec, cvectorAt_spec h, Call.pure_eq, spec]), h⟩
  | valAt index memb hm =>
    have hr := cvectorValAt_spec h hm (UInt32.lt_iff_toNat_lt.mp hfits)
    exact ⟨cv, step_of_exec (by simp only [exec, hr, Call.ret_bind, Call.pure_eq, spec]), h⟩
  | length =>
    refine ⟨cv, step_of_exec ?_, h⟩
    simp only [exec, cvectorLength, Call.pure_eq, spec, h.length]

/-- A call that removes an element of a full vector does not return. -/
theorem step_full (op : CvOp size) (h : cv.Holds size l) (hfull : ¬op.NotFull cv) :
    op.step cv = none := by
  cases op with
  | rmAt junk index =>
    obtain ⟨hi, hroom⟩ := Classical.not_imp.mp hfull
    have hi := UInt32.lt_iff_toNat_lt.mp hi
    have hlen := h.len
    have hroom : ¬cv.len.toNat < cv.totLen.toNat := fun hlt => hroom (UInt32.lt_iff_toNat_lt.mpr hlt)
    simp only [step, exec, cvectorRmAt_full h ⟨true, junk⟩ hi (by omega),
      Call.fault_bind, Call.ret?_fault, Option.map_none]
  | _ => exact absurd trivial hfull

end CvOp

/-- For every element size and every run of the interface from `cvector_create` in which the
allocator succeeds and sizes stay below `2 ^ 32`: the calls return what the list operations return
and the vector holds the list, with `cv_len` at most `cv_tot_len`, which is `256 * 2 ^ k`, exactly
if no call removes an element of a full vector. -/
theorem cvector_refines_iff {cv₀ mem : Alloc UInt8} {size : UInt32} (hcv : cv₀.ok = true)
    (hmem : mem.ok = true) (hpos : 1 ≤ size.toNat) (hsize : 256 * size.toNat < 2 ^ 32) :
    ∃ cv, cvectorCreate cv₀ mem size = some cv ∧
      ∀ ops : List (CvOp size.toNat), AllSteps CvOp.step CvOp.Fits cv ops →
        ((∃ cv', runLog CvOp.step cv ops = some (cv', (specRun CvOp.spec [] ops).2) ∧
            slots size.toNat cv'.len.toNat cv'.pdata = (specRun CvOp.spec [] ops).1 ∧
            cv'.len ≤ cv'.totLen ∧ ∃ k, cv'.totLen.toNat = 256 * 2 ^ k) ↔
          AllSteps CvOp.step CvOp.NotFull cv ops) := by
  obtain ⟨cv, hcreate, hh⟩ := cvectorCreate_spec hcv hmem hpos hsize
  refine ⟨cv, hcreate, fun ops hfits => ⟨?_, fun hfull => ?_⟩⟩
  · rintro ⟨cv', hrun, -⟩
    exact allSteps_of_runLog (R := Cvector.Holds size.toNat) (f := CvOp.spec)
      (fun _ _ op => op.step_refines) (fun _ _ op h _ hfull => op.step_full h hfull) hh hfits hrun
  · obtain ⟨cv', hrun, hh'⟩ := runLog_refines (R := Cvector.Holds size.toNat) (f := CvOp.spec)
      (fun _ _ op => op.step_refines) hh hfits hfull
    exact ⟨cv', hrun, hh'.elems, UInt32.le_iff_toNat_le.mpr hh'.len, hh'.pow⟩

/-- Memory of zeros. -/
def zeros : Alloc UInt8 := ⟨true, fun _ => 0⟩

/-- Two bytes are pushed, the first one is removed, and the other one is read. -/
def shortRun : List (CvOp (1 : UInt32).toNat) :=
  [.pushback (fun _ => 0) [7] rfl, .pushback (fun _ => 0) [8] rfl, .rmAt (fun _ => 0) 0, .at 0]

theorem cvector_refines_iff_short : ∃ cv, cvectorCreate zeros zeros 1 = some cv ∧
    AllSteps CvOp.step CvOp.NotFull cv shortRun ∧
    ∃ cv', runLog CvOp.step cv shortRun = some (cv', [.code .success, .code .success,
      .code .success, .elem (some [8])]) ∧ slots 1 cv'.len.toNat cv'.pdata = [[8]] := by
  obtain ⟨cv, hcv, h⟩ := cvector_refines_iff (show zeros.ok = true from rfl)
    (show zeros.ok = true from rfl) (show 1 ≤ (1 : UInt32).toNat by decide) (by decide)
  refine ⟨cv, hcv, ?_⟩
  obtain rfl := Option.some.inj (hcv.symm.trans rfl)
  have hfull : AllSteps CvOp.step CvOp.NotFull
      ⟨(List.range 256).map fun _ => 0, 0, 256, 1⟩ shortRun := by decide +kernel
  obtain ⟨cv', hrun, helems, -⟩ := (h shortRun (by decide +kernel)).mpr hfull
  exact ⟨hfull, cv', hrun, helems⟩

/-! ## A full vector -/

/-- A vector with room for `n` elements is full after `n` pushes; a removal then does not
return. -/
theorem fill_remove {size n : ℕ} {cv : Cvector} {l : List (List UInt8)} (h : cv.Holds size l)
    (hroom : cv.len.toNat + n = cv.totLen.toNat) (junk : ℕ → UInt8) {memb : List UInt8}
    (hm : memb.length = size) :
    AllSteps CvOp.step CvOp.Fits cv
        (List.replicate n (.pushback junk memb hm) ++ [.rmAt junk 0]) ∧
      runLog CvOp.step cv (List.replicate n (.pushback junk memb hm) ++ [.rmAt junk 0]) = none := by
  induction n generalizing cv l with
  | zero =>
    have hpos := h.totLen_pos
    have hfull : ¬(CvOp.rmAt junk 0 : CvOp size).NotFull cv := by
      intro hlt
      have := UInt32.lt_iff_toNat_lt.mp (hlt (UInt32.lt_iff_toNat_lt.mpr (by
        show 0 < cv.len.toNat
        omega)))
      omega
    refine ⟨⟨by show cv.size.toNat * 0 < 2 ^ 32; omega, fun _ _ _ => trivial⟩, ?_⟩
    rw [List.replicate_zero, List.nil_append, runLog, CvOp.step_full _ h hfull]
    rfl
  | succ n ih =>
    have hlt : cv.len.toNat < cv.totLen.toNat := by omega
    obtain ⟨cv₁, hput, hh, hlen₁, htot₁⟩ := h.put hlt hm
    have hstep : (CvOp.pushback junk memb hm).step cv = some (cv₁, [.code .success]) := by
      refine CvOp.step_of_exec ?_
      rw [CvOp.exec, cvectorPushback, if_neg (fun hge => ?_), hput]
      · rfl
      · have := UInt32.le_iff_toNat_le.mp hge
        omega
    obtain ⟨hfits, hrun⟩ := ih hh (by rw [hlen₁, htot₁]; omega)
    rw [List.replicate_succ, List.cons_append]
    refine ⟨(allSteps_cons hstep).mpr ⟨fun heq => ?_, hfits⟩, ?_⟩
    · rw [heq] at hlt
      omega
    · rw [runLog, hstep]
      simp [hrun]

/-- 256 bytes fill the block of a vector of bytes. The removal of the first one then reads behind
the block. -/
theorem cvector_full_removal : ∃ cv, cvectorCreate zeros zeros 1 = some cv ∧
    ∃ ops : List (CvOp (1 : UInt32).toNat), AllSteps CvOp.step CvOp.Fits cv ops ∧
      ¬∃ cv', runLog CvOp.step cv ops = some (cv', (specRun CvOp.spec [] ops).2) ∧
        slots 1 cv'.len.toNat cv'.pdata = (specRun CvOp.spec [] ops).1 ∧
        cv'.len ≤ cv'.totLen ∧ ∃ k, cv'.totLen.toNat = 256 * 2 ^ k := by
  obtain ⟨cv, hcv, hh⟩ := cvectorCreate_spec (show zeros.ok = true from rfl)
    (show zeros.ok = true from rfl) (show 1 ≤ (1 : UInt32).toNat by decide) (by decide)
  obtain rfl := Option.some.inj (hcv.symm.trans rfl)
  obtain ⟨hfits, hrun⟩ := fill_remove (n := 256) hh rfl (fun _ => 0) (show [7].length = _ from rfl)
  refine ⟨_, hcv, _, hfits, ?_⟩
  rintro ⟨cv', hrun', -⟩
  rw [hrun] at hrun'
  cases hrun'

end Robot
