import ConstructionRobot.Lib.Traced
import ConstructionRobot.Statemachine.Cvector

/-!
# Accesses to the block of a vector (`cvector.c`)

The functions of the vector that change it, with a log of the bytes that they read and write in
`cv_pdata`, each as the slot that it belongs to. `cvector_insert` and `cvector_insert_at` are here;
`loggedPushback` and so on are the functions of `Cvector.lean` with the log
(`loggedPushback_res` and so on).

`cvmemove_foreward` starts with the slot behind the last element and copies it to the next one.
With one free slot left that next slot is behind the block. If the vector is full,
`cvector_insert` grows the block, but the iterator still points into the old one.

* `CvCall.Inside`: every slot that a call accesses is one of the `cv_tot_len` slots.
* `CvCall.inside_iff`: for one call, this is a condition on the vector and the arguments.
* `cvector_inside_iff`: the same for runs.
-/

namespace Robot

open Traced

/-- A byte that is read or written: its slot, `cv_tot_len` and the slots of the block at that
moment. -/
structure CvAccess where
  slot : ℤ
  totLen : ℕ
  allocated : ℕ
  deriving DecidableEq, Repr

/-- The slot is one of the `cv_tot_len` slots, which are the slots of the block. -/
def CvAccess.Inside (a : CvAccess) : Prop :=
  0 ≤ a.slot ∧ a.slot < a.totLen ∧ a.totLen = a.allocated

instance (a : CvAccess) : Decidable a.Inside :=
  inferInstanceAs (Decidable (0 ≤ a.slot ∧ a.slot < a.totLen ∧ a.totLen = a.allocated))

/-- The `n` bytes from `off` on are read or written. `off` is the distance from `cv_pdata`. -/
def Cvector.touch (cv : Cvector) (off : ℤ) (n : ℕ) : Traced CvAccess Unit where
  log := (List.range n).map fun i : ℕ => {
    slot := (off + (i : ℤ)) / cv.size.toNat
    totLen := cv.totLen.toNat
    allocated := cv.pdata.length / cv.size.toNat }
  res := .ret ()

/-! ## The functions -/

/-- `cvectorPut` with its log. -/
def loggedPut (cv : Cvector) (memb : List UInt8) : Traced CvAccess (Cvector × Cve) := do
  cv.touch (cv.len * cv.size).toNat cv.size.toNat
  cvectorPut cv memb

/-- `cvector_pushback`. -/
def loggedPushback (mem : Alloc UInt8) (cv : Cvector) (memb : List UInt8) :
    Traced CvAccess (Cvector × Cve) :=
  if cv.len ≥ cv.totLen then
    match cv.resize mem (cv.totLen <<< 1) with
    | some cv => loggedPut cv memb
    | none => pure ({ cv with totLen := cv.totLen <<< 1 >>> 1 }, .pushback)
  else loggedPut cv memb

/-- `cvector_popback`. -/
def loggedPopback (mem : Alloc UInt8) (cv : Cvector) (memb : List UInt8) :
    Traced CvAccess (Cvector × Cve × List UInt8) := do
  if cv.len ≤ 0 then pure (cv, .popback, memb)
  else
    let cv := { cv with len := cv.len - 1 }
    cv.touch (cv.len * cv.size).toNat cv.size.toNat
    let memb ← memcpy memb 0 cv.pdata (cv.len * cv.size).toNat cv.size.toNat
    let (cv, code) := cvectorReduce mem cv .popback
    pure (cv, code, memb)

/-- `cvector_rm`. -/
def loggedRm (mem : Alloc UInt8) (cv : Cvector) (iter : UInt32) :
    Traced CvAccess (Cvector × Cve) := do
  if cwarningIter cv iter then pure (cv, .failed)
  else
    cv.touch (iter.toNat + cv.size.toNat) (cvectorEnd cv - iter).toNat
    cv.touch iter.toNat (cvectorEnd cv - iter).toNat
    let pdata ← moveForward cv.pdata iter.toNat (iter.toNat + cv.size.toNat)
      (cvectorEnd cv - iter).toNat
    pure (cvectorReduce mem { cv with pdata := pdata, len := cv.len - 1 } .rm)

/-- `cvector_rm_at`. -/
def loggedRmAt (mem : Alloc UInt8) (cv : Cvector) (index : UInt32) :
    Traced CvAccess (Cvector × Cve) := do
  let iter := cv.size * index
  if cwarningIter cv iter then pure (cv, .failed)
  else loggedRm mem cv iter

/-- `memcpy (cv_pdata + dst, cv_pdata + src, size)`. A place before the block is outside of it. -/
def Cvector.copySlot (cv : Cvector) (dst src : ℤ) : Traced CvAccess Cvector := do
  cv.touch src cv.size.toNat
  cv.touch dst cv.size.toNat
  if 0 ≤ src ∧ 0 ≤ dst then
    let pdata ← memcpy cv.pdata dst.toNat cv.pdata src.toNat cv.size.toNat
    pure { cv with pdata := pdata }
  else liftM (Call.fault : Call Cvector)

/-- `memcpy (cv_pdata + dst, memb, size)`. -/
def Cvector.writeSlot (cv : Cvector) (dst : ℤ) (memb : List UInt8) :
    Traced CvAccess Cvector := do
  cv.touch dst cv.size.toNat
  if 0 ≤ dst then
    let pdata ← memcpy cv.pdata dst.toNat memb 0 cv.size.toNat
    pure { cv with pdata := pdata }
  else liftM (Call.fault : Call Cvector)

/-- The loop of `cvmemove_foreward` from `p` down to `first`. A loop that makes no progress
hangs. -/
def cvmemoveForeward (first : ℤ) : Cvector → ℤ → ℕ → Traced CvAccess Cvector
  | _, _, 0 => diverge
  | cv, p, fuel + 1 => do
    if p ≥ first then
      let cv ← cv.copySlot (p + cv.size.toNat) p
      cvmemoveForeward first cv (p - cv.size.toNat) fuel
    else pure cv

/-- The end of `cvector_insert`, with room for the element. -/
def cvectorInsertPut (cv : Cvector) (iter : ℤ) (memb : List UInt8) :
    Traced CvAccess (Cvector × Cve) := do
  let behind : ℤ := (cv.len * cv.size).toNat
  let cv ← cvmemoveForeward iter cv behind ((behind - iter).toNat + 2)
  let cv ← cv.writeSlot iter memb
  pure ({ cv with len := cv.len + 1 }, .success)

/-- `cvector_insert`. `shift` is the way that `realloc` moves the block; the iterator does not
follow. -/
def cvectorInsert (mem : Alloc UInt8) (shift : ℤ) (cv : Cvector) (iter : UInt32)
    (memb : List UInt8) : Traced CvAccess (Cvector × Cve) :=
  if cwarningIter cv iter then pure (cv, .failed)
  else if cv.len ≥ cv.totLen then
    match cv.resize mem (cv.totLen <<< 1) with
    | some cv => cvectorInsertPut cv (iter.toNat - shift) memb
    | none => pure ({ cv with totLen := cv.totLen <<< 1 >>> 1 }, .insert)
  else cvectorInsertPut cv iter.toNat memb

/-- The loop `while (cv_len >= cv_tot_len) cv_tot_len <<= 1`. After 32 rounds `cv_tot_len` is 0,
and the loop does not end. -/
def growTotLen (len : UInt32) : UInt32 → ℕ → Call UInt32
  | _, 0 => .hang
  | tot, fuel + 1 => if len ≥ tot then growTotLen len (tot <<< 1) fuel else pure tot

/-- `cvector_insert_at`. The result of `realloc` is not checked. -/
def cvectorInsertAt (mem : Alloc UInt8) (shift : ℤ) (cv : Cvector) (index : UInt32)
    (memb : List UInt8) : Traced CvAccess (Cvector × Cve) := do
  if index ≥ cv.totLen then
    let tot ← growTotLen (index + 1) cv.totLen 33
    match ({ cv with len := index + 1 } : Cvector).resize mem tot with
    | some cv =>
      let cv ← cv.writeSlot (cv.size * index).toNat memb
      pure (cv, .success)
    | none => liftM (Call.fault : Call (Cvector × Cve))
  else
    let (cv, _) ← cvectorInsert mem shift cv (cv.size * index) memb
    pure (cv, .success)

/-! ## Calls -/

/-- A call that changes a vector of elements of `size` bytes. The allocator succeeds; `junk` is
what it finds, and `shift` is the way that it moves a block that grows. -/
inductive CvCall (size : ℕ) where
  | pushback (junk : ℕ → UInt8) (memb : List UInt8) (h : memb.length = size)
  | popback (junk : ℕ → UInt8) (memb : List UInt8) (h : memb.length = size)
  | insert (junk : ℕ → UInt8) (shift : ℤ) (iter : UInt32) (memb : List UInt8)
      (h : memb.length = size)
  | insertAt (junk : ℕ → UInt8) (shift : ℤ) (index : UInt32) (memb : List UInt8)
      (h : memb.length = size)
  | rm (junk : ℕ → UInt8) (iter : UInt32)
  | rmAt (junk : ℕ → UInt8) (index : UInt32)

/-- A block of `old` bytes becomes one of `new` bytes: it stays where it is, or the two blocks do
not overlap. -/
def Placed (old new : ℕ) (shift : ℤ) : Prop := shift = 0 ∨ old ≤ shift ∨ new ≤ -shift

instance (old new : ℕ) (shift : ℤ) : Decidable (Placed old new shift) :=
  inferInstanceAs (Decidable (shift = 0 ∨ old ≤ shift ∨ new ≤ -shift))

/-- What is known of a `realloc` that succeeds and doubles the block: its bytes can be counted,
and the blocks do not overlap. -/
def Cvector.GrowFits (cv : Cvector) (shift : ℤ) : Prop :=
  cv.len = cv.totLen → 2 * cv.totLen.toNat * cv.size.toNat < 2 ^ 32 ∧
    Placed (cv.totLen.toNat * cv.size.toNat) (2 * cv.totLen.toNat * cv.size.toNat) shift

/-- An insertion at an iterator that is not refused: there is not exactly one free slot, and a full
vector grows in place. -/
def Cvector.InsertClear (cv : Cvector) (shift : ℤ) (iter : UInt32) : Prop :=
  cwarningIter cv iter = false → cv.len + 1 ≠ cv.totLen ∧ (cv.len = cv.totLen → shift = 0)

/-- A removal at an iterator that is not refused: the vector is not full. -/
def Cvector.RmClear (cv : Cvector) (iter : UInt32) : Prop :=
  cwarningIter cv iter = false → cv.len ≠ cv.totLen

namespace CvCall

variable {size : ℕ}

/-- The call on the vector. -/
def exec (cv : Cvector) : CvCall size → Traced CvAccess (Cvector × Cve)
  | pushback junk memb _ => loggedPushback ⟨true, junk⟩ cv memb
  | popback junk memb _ => do
    let (cv, c, _) ← loggedPopback ⟨true, junk⟩ cv memb
    pure (cv, c)
  | insert junk shift iter memb _ => cvectorInsert ⟨true, junk⟩ shift cv iter memb
  | insertAt junk shift index memb _ => cvectorInsertAt ⟨true, junk⟩ shift cv index memb
  | rm junk iter => loggedRm ⟨true, junk⟩ cv iter
  | rmAt junk index => loggedRmAt ⟨true, junk⟩ cv index

/-- One call as a step of a run; a call that does not return ends it. -/
def step (cv : Cvector) (call : CvCall size) : Option (Cvector × List Cve) :=
  (call.exec cv).res.ret?.map fun r => (r.1, [r.2])

/-- Every slot that the call reads or writes is one of the `cv_tot_len` slots. -/
def Inside (cv : Cvector) (call : CvCall size) : Prop := ∀ a ∈ (call.exec cv).log, a.Inside

/-- `realloc` succeeds: the bytes of the new block can be counted, and it does not overlap the old
one. -/
def Fits (cv : Cvector) : CvCall size → Prop
  | pushback _ _ _ => cv.len = cv.totLen → 2 * cv.totLen.toNat * cv.size.toNat < 2 ^ 32
  | insert _ shift _ _ _ => cv.GrowFits shift
  | insertAt _ shift index _ _ =>
    if index ≥ cv.totLen then
      ∀ tot, growTotLen (index + 1) cv.totLen 33 = .ret tot → tot.toNat * cv.size.toNat < 2 ^ 32
    else cv.GrowFits shift
  | _ => True

/-- The calls that stay inside the block. The last index of the type is the one whose successor
wraps. -/
def Clear (cv : Cvector) : CvCall size → Prop
  | insert _ shift iter _ _ => cv.InsertClear shift iter
  | insertAt _ shift index _ _ =>
    if index ≥ cv.totLen then index + 1 ≠ 0 else cv.InsertClear shift (cv.size * index)
  | rm _ iter => cv.RmClear iter
  | rmAt _ index => cv.RmClear (cv.size * index)
  | _ => True

instance decidableInside (cv : Cvector) (call : CvCall size) : Decidable (call.Inside cv) :=
  inferInstanceAs (Decidable (∀ a ∈ (call.exec cv).log, a.Inside))

instance decidableGrowFits (cv : Cvector) (shift : ℤ) : Decidable (cv.GrowFits shift) :=
  inferInstanceAs (Decidable (cv.len = cv.totLen → _ ∧ Placed _ _ shift))

instance decidableFits (cv : Cvector) : (call : CvCall size) → Decidable (call.Fits cv)
  | pushback _ _ _ => inferInstanceAs
      (Decidable (cv.len = cv.totLen → 2 * cv.totLen.toNat * cv.size.toNat < 2 ^ 32))
  | insert _ shift _ _ _ => inferInstanceAs (Decidable (cv.GrowFits shift))
  | insertAt _ shift index _ _ =>
    have : Decidable (∀ tot, growTotLen (index + 1) cv.totLen 33 = .ret tot →
        tot.toNat * cv.size.toNat < 2 ^ 32) :=
      decidable_of_iff ((growTotLen (index + 1) cv.totLen 33).ret?.all fun tot =>
        tot.toNat * cv.size.toNat < 2 ^ 32)
        (by cases growTotLen (index + 1) cv.totLen 33 <;> simp)
    inferInstanceAs (Decidable (if index ≥ cv.totLen then _ else cv.GrowFits shift))
  | popback _ _ _ => isTrue trivial
  | rm _ _ => isTrue trivial
  | rmAt _ _ => isTrue trivial

instance decidableClear (cv : Cvector) : (call : CvCall size) → Decidable (call.Clear cv)
  | insert _ shift iter _ _ => inferInstanceAs (Decidable (cwarningIter cv iter = false →
      cv.len + 1 ≠ cv.totLen ∧ (cv.len = cv.totLen → shift = 0)))
  | insertAt _ shift index _ _ => inferInstanceAs (Decidable (if index ≥ cv.totLen then
      index + 1 ≠ 0 else cwarningIter cv (cv.size * index) = false →
        cv.len + 1 ≠ cv.totLen ∧ (cv.len = cv.totLen → shift = 0)))
  | rm _ iter => inferInstanceAs (Decidable (cwarningIter cv iter = false → cv.len ≠ cv.totLen))
  | rmAt _ index => inferInstanceAs
      (Decidable (cwarningIter cv (cv.size * index) = false → cv.len ≠ cv.totLen))
  | pushback _ _ _ => isTrue trivial
  | popback _ _ _ => isTrue trivial

end CvCall

/-! ## The functions without the log -/

section Log

variable (mem : Alloc UInt8) (cv : Cvector)

theorem loggedPushback_res (memb : List UInt8) :
    (loggedPushback mem cv memb).res = cvectorPushback mem cv memb := by
  unfold loggedPushback cvectorPushback
  split
  · cases cv.resize mem (cv.totLen <<< 1) <;> rfl
  · rfl

theorem loggedPopback_res (memb : List UInt8) :
    (loggedPopback mem cv memb).res = cvectorPopback mem cv memb := by
  unfold loggedPopback cvectorPopback
  split
  · rfl
  · simp only [bind_res]
    rfl

theorem loggedRm_res (iter : UInt32) : (loggedRm mem cv iter).res = cvectorRm mem cv iter := by
  unfold loggedRm cvectorRm
  split
  · rfl
  · simp only [bind_res]
    rfl

end Log

/-! ## Single accesses -/

section Access

variable {size : ℕ} {cv : Cvector} {l : List (List UInt8)}

/-- A range of bytes is inside the slots exactly if it is inside the block. -/
theorem touch_inside (h : cv.Holds size l) {off : ℤ} {n : ℕ} (hn : 0 < n) :
    (∀ a ∈ (cv.touch off n).log, a.Inside) ↔ 0 ≤ off ∧ off + n ≤ cv.totLen.toNat * size := by
  have hpos : (0 : ℤ) < cv.size.toNat := by
    rw [h.elemSize]
    exact_mod_cast h.pos
  have hblock : cv.totLen.toNat = cv.pdata.length / cv.size.toNat := by
    rw [h.block, h.elemSize, Nat.mul_div_cancel _ h.pos]
  have hbyte : ∀ x : ℤ, (⟨x / cv.size.toNat, cv.totLen.toNat,
      cv.pdata.length / cv.size.toNat⟩ : CvAccess).Inside ↔
        0 ≤ x ∧ x < cv.totLen.toNat * size := by
    intro x
    rw [CvAccess.Inside, Int.ediv_nonneg_iff_of_pos hpos, Int.ediv_lt_iff_lt_mul hpos, h.elemSize]
    rw [h.elemSize] at hblock
    simp only [← hblock, and_true]
  simp only [Cvector.touch, List.forall_mem_map, List.mem_range, hbyte]
  constructor
  · intro hall
    have hfirst := hall 0 hn
    have hlast := hall (n - 1) (by omega)
    push_cast [Nat.cast_sub hn] at hfirst hlast
    omega
  · intro hoff i hi
    omega

/-- Another block of the same length. -/
theorem Cvector.Holds.of_length (h : cv.Holds size l) {b : List UInt8}
    (hb : b.length = cv.pdata.length) :
    ({ cv with pdata := b } : Cvector).Holds size (slots size cv.len.toNat b) :=
  ⟨h.elemSize, h.pos, hb.trans h.block, h.bytes, h.len, h.pow, rfl⟩

theorem touch_res (off : ℤ) (n : ℕ) : (cv.touch off n).res = .ret () := rfl

/-- The two copies without their logs. -/
theorem writeSlot_res (dst : ℤ) (memb : List UInt8) : (cv.writeSlot dst memb).res =
    if 0 ≤ dst then memcpy cv.pdata dst.toNat memb 0 cv.size.toNat >>= fun b =>
      .ret { cv with pdata := b }
    else .fault := by
  rw [Cvector.writeSlot, bind_res, touch_res, Call.ret_bind]
  split
  · rw [bind_res]
    rfl
  · rfl

theorem copySlot_res (dst src : ℤ) : (cv.copySlot dst src).res =
    if 0 ≤ src ∧ 0 ≤ dst then
      memcpy cv.pdata dst.toNat cv.pdata src.toNat cv.size.toNat >>= fun b =>
        .ret { cv with pdata := b }
    else .fault := by
  rw [Cvector.copySlot, bind_res, touch_res, Call.ret_bind, bind_res, touch_res, Call.ret_bind]
  split
  · rw [bind_res]
    rfl
  · rfl

theorem writeSlot_inside (h : cv.Holds size l) (dst : ℤ) (memb : List UInt8) :
    (∀ a ∈ (cv.writeSlot dst memb).log, a.Inside) ↔
      0 ≤ dst ∧ dst + size ≤ cv.totLen.toNat * size := by
  have hn : 0 < cv.size.toNat := by
    rw [h.elemSize]
    exact h.pos
  rw [Cvector.writeSlot, forall_bind_log, touch_inside h hn, h.elemSize]
  refine and_iff_left fun _ _ a ha => ?_
  split at ha
  · simp at ha
  · cases ha

theorem writeSlot_ret (h : cv.Holds size l) {dst : ℤ} {memb : List UInt8}
    (hm : memb.length = size) (h0 : 0 ≤ dst) (hdst : dst + size ≤ cv.totLen.toNat * size) :
    ∃ b, (cv.writeSlot dst memb).res = .ret { cv with pdata := b } ∧
      b.length = cv.pdata.length := by
  obtain ⟨b, hb, hlen, -⟩ := memcpy_ret cv.pdata dst.toNat memb 0 size
    (by rw [h.block]; zify; omega) (by omega)
  refine ⟨b, ?_, hlen⟩
  rw [writeSlot_res, if_pos h0, h.elemSize, hb, Call.ret_bind]

theorem copySlot_inside (h : cv.Holds size l) (dst src : ℤ) :
    (∀ a ∈ (cv.copySlot dst src).log, a.Inside) ↔
      (0 ≤ src ∧ src + size ≤ cv.totLen.toNat * size) ∧
        0 ≤ dst ∧ dst + size ≤ cv.totLen.toNat * size := by
  have hn : 0 < cv.size.toNat := by
    rw [h.elemSize]
    exact h.pos
  rw [Cvector.copySlot, forall_bind_log, touch_inside h hn, h.elemSize]
  refine and_congr_right fun _ => ?_
  simp only [touch_res, forall_const, forall_bind_log]
  rw [touch_inside h h.pos]
  refine and_iff_left fun a ha => ?_
  split at ha
  · simp at ha
  · cases ha

theorem copySlot_ret (h : cv.Holds size l) {dst src : ℤ}
    (hsrc : 0 ≤ src ∧ src + size ≤ cv.totLen.toNat * size)
    (hdst : 0 ≤ dst ∧ dst + size ≤ cv.totLen.toNat * size) :
    ∃ b, (cv.copySlot dst src).res = .ret { cv with pdata := b } ∧
      b.length = cv.pdata.length := by
  obtain ⟨b, hb, hlen, -⟩ := memcpy_ret cv.pdata dst.toNat cv.pdata src.toNat size
    (by rw [h.block]; zify; omega) (by rw [h.block]; zify; omega)
  refine ⟨b, ?_, hlen⟩
  rw [copySlot_res, if_pos ⟨hsrc.1, hdst.1⟩, h.elemSize, hb, Call.ret_bind]

end Access

/-! ## The shift of `cvector_insert` -/

section Foreward

variable {size : ℕ} {cv : Cvector} {l : List (List UInt8)} {first p : ℤ} {fuel : ℕ}

/-- The first round of the loop reads the slot at `p` and writes the next one. -/
theorem foreward_head (h : cv.Holds size l) (hp : first ≤ p)
    (hall : ∀ a ∈ (cvmemoveForeward first cv p (fuel + 1)).log, a.Inside) :
    0 ≤ p ∧ p + size + size ≤ cv.totLen.toNat * size := by
  rw [cvmemoveForeward, if_pos hp, h.elemSize, forall_bind_log, copySlot_inside h] at hall
  exact ⟨hall.1.1.1, hall.1.2.2⟩

/-- After a round inside the block the loop goes on with the slot before. -/
theorem foreward_succ (fuel : ℕ) (h : cv.Holds size l) (hp : first ≤ p) (h0 : 0 ≤ p)
    (hend : p + size + size ≤ cv.totLen.toNat * size) :
    ∃ b, b.length = cv.pdata.length ∧
      (cvmemoveForeward first cv p (fuel + 1)).res =
        (cvmemoveForeward first { cv with pdata := b } (p - size) fuel).res ∧
      ((∀ a ∈ (cvmemoveForeward first cv p (fuel + 1)).log, a.Inside) ↔
        ∀ a ∈ (cvmemoveForeward first { cv with pdata := b } (p - size) fuel).log, a.Inside) := by
  have hsrc : 0 ≤ p ∧ p + size ≤ cv.totLen.toNat * size := ⟨h0, by omega⟩
  have hdst : 0 ≤ p + size ∧ p + size + size ≤ cv.totLen.toNat * size := ⟨by omega, hend⟩
  obtain ⟨b, hb, hlen⟩ := copySlot_ret h hsrc hdst
  refine ⟨b, hlen, ?_, ?_⟩
  · simp only [cvmemoveForeward, if_pos hp, bind_res, h.elemSize, hb, Call.ret_bind]
  · simp only [cvmemoveForeward, if_pos hp, forall_bind_log, h.elemSize, hb, Call.ret.injEq,
      forall_eq', copySlot_inside h]
    exact and_iff_right ⟨hsrc, hdst⟩

/-- A loop that starts and ends inside the block stays inside. -/
theorem foreward_inside (h : cv.Holds size l) (h0 : 0 ≤ first)
    (hend : p + size + size ≤ cv.totLen.toNat * size) :
    ∀ a ∈ (cvmemoveForeward first cv p fuel).log, a.Inside := by
  induction fuel generalizing cv l p with
  | zero => simp [cvmemoveForeward, diverge]
  | succ fuel ih =>
    by_cases hp : first ≤ p
    · obtain ⟨b, hlen, -, hiff⟩ := foreward_succ fuel h hp (by omega) hend
      refine hiff.mpr (ih (h.of_length hlen) ?_)
      show p - size + size + size ≤ cv.totLen.toNat * size
      omega
    · rw [cvmemoveForeward, if_neg hp]
      simp [pure_def]

/-- A loop that stays inside the block comes to its end. -/
theorem foreward_ret (h : cv.Holds size l) (hfuel : (p - first + 1).toNat < fuel)
    (hall : ∀ a ∈ (cvmemoveForeward first cv p fuel).log, a.Inside) :
    ∃ b, (cvmemoveForeward first cv p fuel).res = .ret { cv with pdata := b } ∧
      b.length = cv.pdata.length := by
  have hpos := h.pos
  induction fuel generalizing cv l p with
  | zero => omega
  | succ fuel ih =>
    by_cases hp : first ≤ p
    · obtain ⟨h0, hend⟩ := foreward_head h hp hall
      obtain ⟨b, hlen, hres, hiff⟩ := foreward_succ fuel h hp h0 hend
      obtain ⟨b', hb', hlen'⟩ := ih (h.of_length hlen) (by omega) (hiff.mp hall)
      exact ⟨b', by rw [hres, hb'], hlen'.trans hlen⟩
    · refine ⟨cv.pdata, ?_, rfl⟩
      rw [cvmemoveForeward, if_neg hp]
      rfl

/-- The end of `cvector_insert` stays inside the block exactly if the slot of the new element is
inside and, if there is something to shift, two slots behind the elements are. -/
theorem insertPut_inside (h : cv.Holds size l) (iter : ℤ) (memb : List UInt8) :
    (∀ a ∈ (cvectorInsertPut cv iter memb).log, a.Inside) ↔
      (0 ≤ iter ∧ iter + size ≤ cv.totLen.toNat * size) ∧
        (iter ≤ cv.len.toNat * size → cv.len.toNat + 2 ≤ cv.totLen.toNat) := by
  have hplace := h.place h.len
  have htwo : cv.len.toNat + 2 ≤ cv.totLen.toNat ↔
      (cv.len.toNat * size : ℤ) + size + size ≤ cv.totLen.toNat * size := by
    rw [← Nat.mul_le_mul_right_iff h.pos, Nat.add_mul]
    zify
    omega
  simp only [cvectorInsertPut, hplace, Nat.cast_mul, forall_bind_log]
  constructor
  · rintro ⟨hloop, hrest⟩
    obtain ⟨b, hb, hlen⟩ := foreward_ret h (by omega) hloop
    have hwrite := (writeSlot_inside (h.of_length hlen) iter memb).mp (hrest _ hb).1
    refine ⟨hwrite, fun hle => htwo.mpr (foreward_head h hle hloop).2⟩
  · rintro ⟨hwrite, hroom⟩
    have hloop : ∀ a ∈ (cvmemoveForeward iter cv (cv.len.toNat * size)
        ((cv.len.toNat * size - iter : ℤ).toNat + 2)).log, a.Inside := by
      by_cases hle : iter ≤ cv.len.toNat * size
      · exact foreward_inside h hwrite.1 (htwo.mp (hroom hle))
      · rw [cvmemoveForeward, if_neg hle]
        simp [pure_def]
    obtain ⟨b, hb, hlen⟩ := foreward_ret h (by omega) hloop
    refine ⟨hloop, fun cv' hcv' => ?_⟩
    obtain rfl := Call.ret.inj (hb.symm.trans hcv')
    exact ⟨(writeSlot_inside (h.of_length hlen) iter memb).mpr hwrite, fun _ _ => by simp [pure_def]⟩

/-- An insertion that stays inside the block returns. -/
theorem insertPut_ret (h : cv.Holds size l) {iter : ℤ} {memb : List UInt8}
    (hm : memb.length = size) (hlt : cv.len.toNat < cv.totLen.toNat)
    (hall : ∀ a ∈ (cvectorInsertPut cv iter memb).log, a.Inside) :
    ∃ cv' l', (cvectorInsertPut cv iter memb).res = .ret (cv', .success) ∧
      cv'.Holds size l' := by
  have hplace := h.place h.len
  have hwrite := ((insertPut_inside h iter memb).mp hall).1
  simp only [cvectorInsertPut, hplace, Nat.cast_mul, forall_bind_log] at hall
  obtain ⟨b, hb, hlen⟩ := foreward_ret h (by omega) hall.1
  obtain ⟨b', hb', hlen'⟩ := writeSlot_ret (h.of_length hlen) hm hwrite.1 hwrite.2
  have hsucc := len_succ hlt
  refine ⟨{ cv with pdata := b', len := cv.len + 1 }, _, ?_,
    h.elemSize, h.pos, (hlen'.trans hlen).trans h.block, h.bytes, ?_, h.pow, rfl⟩
  · simp only [cvectorInsertPut, bind_res, hplace, Nat.cast_mul, hb, hb', Call.ret_bind]
    rfl
  · show (cv.len + 1).toNat ≤ cv.totLen.toNat
    omega

end Foreward

/-! ## One call -/

section Calls

variable {size : ℕ} {cv : Cvector} {l : List (List UInt8)}

/-- `CWARNING_ITER` lets the iterators of the elements through. -/
theorem warning_eq_false (h : cv.Holds size l) (iter : UInt32) :
    cwarningIter cv iter = false ↔ iter.toNat < cv.len.toNat * size := by
  have hbegin : ¬cvectorBegin cv > iter := by
    rw [gt_iff_lt, UInt32.lt_iff_toNat_lt]
    exact Nat.not_lt_zero _
  simp only [cwarningIter, hbegin, decide_false, Bool.false_or, decide_eq_false_iff_not,
    UInt32.le_iff_toNat_le, h.end_toNat, Nat.not_le]

/-- An iterator that is not refused is that of an element. -/
theorem Cvector.Holds.len_ne_zero (h : cv.Holds size l) {iter : UInt32}
    (hwarn : cwarningIter cv iter = false) : cv.len ≠ 0 := by
  rintro h0
  have hiter := (warning_eq_false h iter).mp hwarn
  rw [h0, UInt32.toNat_zero, Nat.zero_mul] at hiter
  omega

section Insert

variable {iter : UInt32} {shift : ℤ} {memb : List UInt8}

/-- An insertion into a vector that is not full. -/
theorem insert_room (hwarn : cwarningIter cv iter = false) (hlt : cv.len.toNat < cv.totLen.toNat)
    (mem : Alloc UInt8) :
    cvectorInsert mem shift cv iter memb = cvectorInsertPut cv iter.toNat memb := by
  have hge : ¬cv.len ≥ cv.totLen := by
    rw [ge_iff_le, UInt32.le_iff_toNat_le]
    omega
  simp only [cvectorInsert, hwarn, Bool.false_eq_true, ↓reduceIte, if_neg hge]

theorem insert_room_inside (h : cv.Holds size l) (hwarn : cwarningIter cv iter = false)
    (hlt : cv.len.toNat < cv.totLen.toNat) (mem : Alloc UInt8) :
    (∀ a ∈ (cvectorInsert mem shift cv iter memb).log, a.Inside) ↔ cv.len + 1 ≠ cv.totLen := by
  have hiter := (warning_eq_false h iter).mp hwarn
  have hroom : (cv.len.toNat + 1) * size ≤ cv.totLen.toNat * size :=
    Nat.mul_le_mul_right size hlt
  rw [Nat.add_mul] at hroom
  zify at hiter hroom
  rw [insert_room hwarn hlt, insertPut_inside h, Ne, ← UInt32.toNat_inj, len_succ hlt]
  constructor
  · rintro ⟨-, htwo⟩
    have := htwo (by omega)
    omega
  · intro hne
    exact ⟨⟨by omega, by omega⟩, fun _ => by omega⟩

/-- An insertion into a full vector. -/
theorem insert_full (memb : List UInt8) (h : cv.Holds size l)
    (hwarn : cwarningIter cv iter = false) (hfull : cv.len = cv.totLen) (junk : ℕ → UInt8)
    (hfits : cv.GrowFits shift) :
    ∃ cv₁, cvectorInsert ⟨true, junk⟩ shift cv iter memb =
        cvectorInsertPut cv₁ (iter.toNat - shift) memb ∧ cv₁.Holds size l ∧
      cv₁.len = cv.len ∧ cv₁.totLen.toNat = 2 * cv.totLen.toNat := by
  have hge : cv.len ≥ cv.totLen := hfull ▸ UInt32.le_refl _
  obtain ⟨cv₁, hcv₁, hh, hlen, htot⟩ := h.grow junk (hfits hfull).1
  refine ⟨cv₁, ?_, hh, hlen, htot⟩
  simp only [cvectorInsert, hwarn, Bool.false_eq_true, ↓reduceIte, if_pos hge, hcv₁]

theorem insert_full_inside (h : cv.Holds size l) (hwarn : cwarningIter cv iter = false)
    (hfull : cv.len = cv.totLen) (junk : ℕ → UInt8) (hfits : cv.GrowFits shift) :
    (∀ a ∈ (cvectorInsert ⟨true, junk⟩ shift cv iter memb).log, a.Inside) ↔ shift = 0 := by
  have hiter := (warning_eq_false h iter).mp hwarn
  have hplaced := (hfits hfull).2
  have hpos := h.pos
  have htot := h.totLen_pos
  obtain ⟨cv₁, hcall, hh, hlen₁, htot₁⟩ := insert_full memb h hwarn hfull junk hfits
  have hsize : 1 * size ≤ cv.totLen.toNat * size := Nat.mul_le_mul_right size (by omega)
  rw [hfull] at hiter
  rw [h.elemSize, Nat.mul_assoc] at hplaced
  rw [hcall, insertPut_inside hh, hlen₁, htot₁, hfull]
  unfold Placed at hplaced
  push_cast at hplaced ⊢
  zify at hiter hsize
  rw [mul_assoc]
  constructor
  · rintro ⟨⟨h0, hend⟩, -⟩
    omega
  · rintro rfl
    exact ⟨⟨by omega, by omega⟩, fun _ => by omega⟩

/-- `cvector_insert` stays inside the block exactly if it is clear. -/
theorem insert_inside (h : cv.Holds size l) (junk : ℕ → UInt8) (hfits : cv.GrowFits shift) :
    (∀ a ∈ (cvectorInsert ⟨true, junk⟩ shift cv iter memb).log, a.Inside) ↔
      cv.InsertClear shift iter := by
  unfold Cvector.InsertClear
  cases hwarn : cwarningIter cv iter with
  | true => simp [cvectorInsert, hwarn, pure_def]
  | false =>
    simp only [forall_const]
    by_cases hfull : cv.len = cv.totLen
    · rw [insert_full_inside h hwarn hfull junk hfits]
      have hne : cv.len + 1 ≠ cv.totLen := by
        rw [← hfull]
        simp
      exact ⟨fun hzero => ⟨hne, fun _ => hzero⟩, fun hclear => hclear.2 hfull⟩
    · have hlt := h.room hfull
      rw [insert_room_inside h hwarn hlt]
      simp [hfull]

/-- If it does, it returns and leaves a vector. -/
theorem insert_ret (h : cv.Holds size l) (junk : ℕ → UInt8) (hm : memb.length = size)
    (hfits : cv.GrowFits shift)
    (hall : ∀ a ∈ (cvectorInsert ⟨true, junk⟩ shift cv iter memb).log, a.Inside) :
    ∃ cv' c l', (cvectorInsert ⟨true, junk⟩ shift cv iter memb).res = .ret (cv', c) ∧
      cv'.Holds size l' := by
  cases hwarn : cwarningIter cv iter with
  | true => exact ⟨cv, .failed, l, by simp [cvectorInsert, hwarn, pure_def], h⟩
  | false =>
    by_cases hfull : cv.len = cv.totLen
    · have htot := h.totLen_pos
      obtain ⟨cv₁, hcall, hh, hlen₁, htot₁⟩ := insert_full memb h hwarn hfull junk hfits
      rw [hcall] at hall ⊢
      obtain ⟨cv', l', hret, hh'⟩ := insertPut_ret hh hm (by rw [hlen₁, htot₁, hfull]; omega) hall
      exact ⟨cv', _, l', hret, hh'⟩
    · have hlt := h.room hfull
      rw [insert_room hwarn hlt] at hall ⊢
      obtain ⟨cv', l', hret, hh'⟩ := insertPut_ret h hm hlt hall
      exact ⟨cv', _, l', hret, hh'⟩

end Insert

section InsertAt

variable {index : UInt32} {shift : ℤ} {memb : List UInt8}

/-- The loop does not end once `cv_tot_len` is 0. -/
theorem growTotLen_zero (len : UInt32) (fuel : ℕ) : growTotLen len 0 fuel = .hang := by
  induction fuel with
  | zero => rfl
  | succ fuel ih =>
    rw [growTotLen, if_pos (UInt32.le_iff_toNat_le.mpr (Nat.zero_le _))]
    exact ih

/-- The loop stops at a power of two above the length. -/
theorem growTotLen_ret {len tot tot' : UInt32} {fuel : ℕ} (hpow : ∃ k, tot.toNat = 256 * 2 ^ k)
    (h : growTotLen len tot fuel = .ret tot') :
    len.toNat < tot'.toNat ∧ ∃ k, tot'.toNat = 256 * 2 ^ k := by
  induction fuel generalizing tot with
  | zero => cases h
  | succ fuel ih =>
    rw [growTotLen] at h
    split at h
    · obtain ⟨k, hk⟩ := hpow
      have hshift : (tot <<< 1).toNat = 256 * 2 ^ (k + 1) % 2 ^ 32 := by
        rw [UInt32.toNat_shiftLeft]
        show tot.toNat <<< 1 % 2 ^ 32 = 256 * 2 ^ (k + 1) % 2 ^ 32
        rw [Nat.shiftLeft_eq, hk, Nat.pow_succ]
        congr 1
        omega
      -- 256 times a power of two is below `2 ^ 32`, or a multiple of it
      by_cases hbig : k + 1 < 24
      · have hlt : 2 ^ (k + 1) < 2 ^ 24 := Nat.pow_lt_pow_right (by omega) hbig
        refine ih ⟨k + 1, ?_⟩ h
        rw [hshift, Nat.mod_eq_of_lt (by omega)]
      · obtain ⟨j, hj⟩ := Nat.exists_eq_add_of_le (Nat.le_of_not_lt hbig)
        have hzero : tot <<< 1 = 0 := by
          rw [← UInt32.toNat_inj, hshift, hj, Nat.pow_add, ← Nat.mul_assoc]
          exact Nat.mul_mod_right (2 ^ 32) (2 ^ j)
        rw [hzero, growTotLen_zero] at h
        cases h
    · case isFalse hge =>
      cases h
      exact ⟨Nat.lt_of_not_le fun hle => hge (UInt32.le_iff_toNat_le.mpr hle), hpow⟩

/-- A length that wrapped asks for no growth. -/
theorem growTotLen_wrapped (h : cv.Holds size l) : growTotLen 0 cv.totLen 33 = .ret cv.totLen := by
  have htot := h.totLen_pos
  rw [growTotLen, if_neg, Call.pure_eq]
  rw [ge_iff_le, UInt32.le_iff_toNat_le, UInt32.toNat_zero]
  omega

/-- The element that `cvector_insert_at` writes behind the old block is inside the new one, unless
the length wrapped. -/
theorem insertAt_place (h : cv.Holds size l) {tot : UInt32}
    (hgrow : growTotLen (index + 1) cv.totLen 33 = .ret tot)
    (hbytes : tot.toNat * size < 2 ^ 32) :
    (cv.size * index).toNat + size ≤ tot.toNat * size ↔ index + 1 ≠ 0 := by
  have hpos := h.pos
  have hsize := h.elemSize
  have hmul : (cv.size * index).toNat = size * index.toNat % 2 ^ 32 := by
    rw [UInt32.toNat_mul, hsize]
  have hsucc : (index + 1).toNat = (index.toNat + 1) % 2 ^ 32 := UInt32.toNat_add index 1
  have hindex := index.toNat_lt
  obtain ⟨hlt, -⟩ := growTotLen_ret h.pow hgrow
  constructor
  · -- the last index stands for the slot before the block
    intro hin hzero
    have hlast : index.toNat = 2 ^ 32 - 1 := by
      rw [hzero, UInt32.toNat_zero] at hsucc
      omega
    have hlt := cv.size.toNat_lt
    rw [hmul, hlast] at hin
    omega
  · intro hne
    have hnz : (index + 1).toNat ≠ 0 := fun h0 => hne (UInt32.toNat_inj.mp h0)
    have hle : (index.toNat + 1) * size ≤ tot.toNat * size :=
      Nat.mul_le_mul_right size (by omega)
    rw [Nat.add_mul] at hle
    rw [hmul, Nat.mul_comm size, Nat.mod_eq_of_lt (by omega)]
    omega

/-- `cvector_insert_at` behind the block. -/
theorem insertAt_behind (shift : ℤ) (memb : List UInt8) (h : cv.Holds size l) (junk : ℕ → UInt8)
    (hge : index ≥ cv.totLen) {tot : UInt32}
    (hgrow : growTotLen (index + 1) cv.totLen 33 = .ret tot)
    (hbytes : tot.toNat * size < 2 ^ 32) :
    ∃ cv₁ : Cvector, cvectorInsertAt ⟨true, junk⟩ shift cv index memb =
        (cv₁.writeSlot (cv.size * index).toNat memb >>= fun cv => pure (cv, .success)) ∧
      (∃ l₁, cv₁.Holds size l₁) ∧ cv₁.totLen = tot := by
  obtain ⟨hlt, hpow⟩ := growTotLen_ret h.pow hgrow
  have hmul : (tot * cv.size).toNat = tot.toNat * size := by
    rw [toNat_mul_of_lt (by rw [h.elemSize]; exact hbytes), h.elemSize]
  obtain ⟨new, hnew⟩ : ∃ new, Alloc.realloc ⟨true, junk⟩ cv.pdata (tot.toNat * size) = some new :=
    ⟨_, rfl⟩
  refine ⟨{ cv with pdata := new, len := index + 1, totLen := tot }, ?_, ⟨_,
    h.elemSize, h.pos, Alloc.realloc_length hnew, hbytes, by simpa using hlt.le, hpow, rfl⟩, rfl⟩
  simp only [cvectorInsertAt, if_pos hge, hgrow, liftM_ret_bind, Cvector.resize, hmul, hnew,
    Option.map_some]

/-- The loop returns or hangs. -/
theorem growTotLen_cases (len tot : UInt32) (fuel : ℕ) :
    (∃ tot', growTotLen len tot fuel = .ret tot') ∨ growTotLen len tot fuel = .hang := by
  induction fuel generalizing tot with
  | zero => exact .inr rfl
  | succ fuel ih =>
    rw [growTotLen]
    split
    · exact ih _
    · exact .inl ⟨tot, rfl⟩

/-- Behind the block, `cvector_insert_at` writes one slot of a larger block or hangs. -/
theorem insertAt_behind_cases (h : cv.Holds size l) (junk : ℕ → UInt8) (hge : index ≥ cv.totLen)
    (hfits : ∀ tot, growTotLen (index + 1) cv.totLen 33 = .ret tot →
      tot.toNat * cv.size.toNat < 2 ^ 32) :
    (∃ (cv₁ : Cvector) (l₁ : List (List UInt8)),
      growTotLen (index + 1) cv.totLen 33 = .ret cv₁.totLen ∧ cv₁.Holds size l₁ ∧
      cvectorInsertAt ⟨true, junk⟩ shift cv index memb =
        (cv₁.writeSlot (cv.size * index).toNat memb >>= fun cv => pure (cv, .success))) ∨
    growTotLen (index + 1) cv.totLen 33 = .hang ∧
      cvectorInsertAt ⟨true, junk⟩ shift cv index memb = diverge := by
  obtain ⟨tot, hgrow⟩ | hgrow := growTotLen_cases (index + 1) cv.totLen 33
  · have hbytes := hfits tot hgrow
    rw [h.elemSize] at hbytes
    obtain ⟨cv₁, hcall, ⟨l₁, hh⟩, rfl⟩ := insertAt_behind shift memb h junk hge hgrow hbytes
    exact .inl ⟨cv₁, l₁, hgrow, hh, hcall⟩
  · refine .inr ⟨hgrow, ?_⟩
    rw [cvectorInsertAt, if_pos hge, hgrow]
    rfl

/-- `cvector_insert_at` stays inside the block exactly if it is clear. -/
theorem insertAt_inside (h : cv.Holds size l) (junk : ℕ → UInt8) (hm : memb.length = size)
    (hfits : (CvCall.insertAt junk shift index memb hm).Fits cv) :
    (∀ a ∈ (cvectorInsertAt ⟨true, junk⟩ shift cv index memb).log, a.Inside) ↔
      (CvCall.insertAt junk shift index memb hm).Clear cv := by
  simp only [CvCall.Fits] at hfits
  simp only [CvCall.Clear]
  split at hfits
  · case isTrue hge =>
    rw [if_pos hge]
    obtain ⟨cv₁, l₁, hgrow, hh, hcall⟩ | ⟨hgrow, hcall⟩ := insertAt_behind_cases h junk hge hfits
    · rw [hcall, forall_bind_log, writeSlot_inside hh, ← insertAt_place h hgrow hh.bytes]
      simp only [pure_def, List.not_mem_nil, false_imp_iff, implies_true, and_true]
      zify
      exact and_iff_right (by omega)
    · -- a length that wrapped to 0 does not hang
      rw [hcall]
      refine iff_of_true (fun a ha => by cases ha) fun hzero => ?_
      rw [hzero, growTotLen_wrapped h] at hgrow
      cases hgrow
  · case isFalse hge =>
    rw [if_neg hge, cvectorInsertAt, if_neg hge, forall_bind_log, insert_inside h junk hfits]
    simp [pure_def]

/-- If it returns, it leaves a vector. -/
theorem insertAt_ret (h : cv.Holds size l) (junk : ℕ → UInt8) (hm : memb.length = size)
    (hfits : (CvCall.insertAt junk shift index memb hm).Fits cv)
    (hall : ∀ a ∈ (cvectorInsertAt ⟨true, junk⟩ shift cv index memb).log, a.Inside)
    {r : Cvector × Cve} (hr : (cvectorInsertAt ⟨true, junk⟩ shift cv index memb).res = .ret r) :
    ∃ l', r.1.Holds size l' := by
  simp only [CvCall.Fits] at hfits
  split at hfits
  · case isTrue hge =>
    obtain ⟨cv₁, l₁, -, hh, hcall⟩ | ⟨-, hcall⟩ := insertAt_behind_cases h junk hge hfits
    · rw [hcall, forall_bind_log, writeSlot_inside hh] at hall
      obtain ⟨b, hb, hlen⟩ := writeSlot_ret hh hm hall.1.1 hall.1.2
      rw [hcall, bind_res, hb] at hr
      cases hr
      exact ⟨_, hh.of_length hlen⟩
    · rw [hcall] at hr
      cases hr
  · case isFalse hge =>
    rw [cvectorInsertAt, if_neg hge] at hall hr
    obtain ⟨cv', c, l', hret, hh⟩ := insert_ret h junk hm hfits (forall_bind_log.mp hall).1
    rw [bind_res, hret] at hr
    cases hr
    exact ⟨l', hh⟩

end InsertAt

section Rm

variable {iter : UInt32}

/-- The bytes that `cvector_rm` moves. -/
theorem rm_bytes (h : cv.Holds size l) (hwarn : cwarningIter cv iter = false) :
    (cvectorEnd cv - iter).toNat = cv.len.toNat * size - iter.toNat := by
  have hiter := (warning_eq_false h iter).mp hwarn
  rw [UInt32.toNat_sub_of_le _ _ (UInt32.le_iff_toNat_le.mpr (by rw [h.end_toNat]; omega)),
    h.end_toNat]

/-- `cvector_rm` stays inside the block exactly if it is clear. -/
theorem rm_inside (h : cv.Holds size l) (mem : Alloc UInt8) :
    (∀ a ∈ (loggedRm mem cv iter).log, a.Inside) ↔ cv.RmClear iter := by
  unfold Cvector.RmClear
  cases hwarn : cwarningIter cv iter with
  | true => simp [loggedRm, hwarn, pure_def]
  | false =>
    have hiter := (warning_eq_false h iter).mp hwarn
    have hlen := h.len
    have hroom : cv.len ≠ cv.totLen ↔
        cv.len.toNat * size + size ≤ cv.totLen.toNat * size := by
      rw [← Nat.succ_mul, Nat.mul_le_mul_right_iff h.pos, Ne, ← UInt32.toNat_inj]
      omega
    simp only [loggedRm, hwarn, Bool.false_eq_true, ↓reduceIte, forall_bind_log, touch_res,
      rm_bytes h hwarn, h.elemSize, touch_inside h (Nat.sub_pos_of_lt hiter), forall_const, hroom]
    push_cast [Nat.cast_sub hiter.le]
    zify at hiter ⊢
    constructor
    · rintro ⟨hread, -⟩
      omega
    · intro hle
      exact ⟨⟨by omega, by omega⟩, ⟨by omega, by omega⟩, fun a ha => (by cases ha),
        fun _ _ a ha => (by cases ha)⟩

/-- If it does, it returns and leaves a vector. -/
theorem rm_ret (h : cv.Holds size l) (junk : ℕ → UInt8) (hclear : cv.RmClear iter) :
    ∃ cv' c l', (loggedRm ⟨true, junk⟩ cv iter).res = .ret (cv', c) ∧ cv'.Holds size l' := by
  rw [loggedRm_res, cvectorRm]
  cases hwarn : cwarningIter cv iter with
  | true => exact ⟨cv, .failed, l, rfl, h⟩
  | false =>
    have hiter := (warning_eq_false h iter).mp hwarn
    have hlen := h.len
    have hne : cv.len.toNat ≠ cv.totLen.toNat := fun heq =>
      hclear hwarn (UInt32.toNat_inj.mp heq)
    have hpos := h.len_ne_zero hwarn
    have hroom := h.inside (show cv.len.toNat < cv.totLen.toNat by omega)
    rw [Nat.add_mul] at hroom
    obtain ⟨b, hb, hblen, -⟩ := moveForward_ret cv.pdata (i := iter.toNat)
      (j := iter.toNat + size) (cv.len.toNat * size - iter.toNat) (by omega) (by omega)
    obtain ⟨cv', hcv', hh⟩ := ((h.shorten hpos).2.1.of_length hblen).reduce junk .rm
    refine ⟨cv', .success, _, ?_, hh⟩
    simp only [rm_bytes h hwarn, h.elemSize, hb, Bool.false_eq_true, ↓reduceIte, Call.ret_bind,
      hcv', Call.pure_eq]

/-- `cvector_rm_at` checks the iterator twice. -/
theorem loggedRmAt_eq (mem : Alloc UInt8) (index : UInt32) :
    loggedRmAt mem cv index = loggedRm mem cv (cv.size * index) := by
  cases hwarn : cwarningIter cv (cv.size * index) <;> simp [loggedRmAt, loggedRm, hwarn]

end Rm

section Ends

variable {memb : List UInt8}

theorem loggedPut_inside (h : cv.Holds size l) (hlt : cv.len.toNat < cv.totLen.toNat) :
    ∀ a ∈ (loggedPut cv memb).log, a.Inside := by
  have hroom : (cv.len.toNat + 1) * size ≤ cv.totLen.toNat * size :=
    Nat.mul_le_mul_right size hlt
  rw [Nat.add_mul] at hroom
  zify at hroom
  rw [loggedPut, forall_bind_log, h.place h.len, h.elemSize, touch_inside h h.pos]
  push_cast
  exact ⟨⟨by positivity, by omega⟩, fun _ _ a ha => by cases ha⟩

theorem pushback_inside (h : cv.Holds size l) (junk : ℕ → UInt8)
    (hfits : cv.len = cv.totLen → 2 * cv.totLen.toNat * cv.size.toNat < 2 ^ 32) :
    ∀ a ∈ (loggedPushback ⟨true, junk⟩ cv memb).log, a.Inside := by
  unfold loggedPushback
  split
  · case isTrue hfull =>
    have htot := h.totLen_pos
    have hfull := h.full_iff.mp hfull
    obtain ⟨cv₁, hcv₁, hh, hlen₁, htot₁⟩ := h.grow junk (hfits hfull)
    rw [hcv₁]
    exact loggedPut_inside hh (by rw [hlen₁, htot₁, hfull]; omega)
  · case isFalse hroom =>
    exact loggedPut_inside h (h.room fun heq => hroom (h.full_iff.mpr heq))

theorem popback_inside (h : cv.Holds size l) (mem : Alloc UInt8) :
    ∀ a ∈ (loggedPopback mem cv memb).log, a.Inside := by
  unfold loggedPopback
  split
  · simp [pure_def]
  · case isFalse h0 =>
    have hne : cv.len ≠ 0 := fun hz => h0 (by rw [hz]; exact UInt32.le_refl 0)
    have hlen := h.len
    obtain ⟨hpred, hh, -⟩ := h.shorten hne
    have hroom : ((cv.len - 1).toNat + 1) * size ≤ cv.totLen.toNat * size :=
      Nat.mul_le_mul_right size (by omega)
    rw [Nat.add_mul] at hroom
    zify at hroom
    rw [forall_bind_log, hh.place hh.len, hh.elemSize, touch_inside hh hh.pos]
    push_cast
    exact ⟨⟨by positivity, by omega⟩, fun _ _ a ha => by simp at ha⟩

end Ends

end Calls

/-! ## Runs -/

namespace CvCall

variable {size : ℕ} {cv : Cvector} {l : List (List UInt8)}

/-- A call stays inside the block exactly if it is clear. -/
theorem inside_iff (call : CvCall size) (h : cv.Holds size l) (hfits : call.Fits cv) :
    call.Inside cv ↔ call.Clear cv := by
  cases call with
  | pushback junk memb hm => exact iff_of_true (pushback_inside h junk hfits) trivial
  | popback junk memb hm =>
    refine iff_of_true ?_ trivial
    exact forall_bind_log.mpr ⟨popback_inside h _, fun _ _ a ha => by cases ha⟩
  | insert junk shift iter memb hm => exact insert_inside h junk hfits
  | insertAt junk shift index memb hm => exact insertAt_inside h junk hm hfits
  | rm junk iter => exact rm_inside h _
  | rmAt junk index =>
    show (∀ a ∈ (loggedRmAt ⟨true, junk⟩ cv index).log, a.Inside) ↔ _
    rw [loggedRmAt_eq]
    exact rm_inside h _

/-- A clear call that returns leaves a vector. -/
theorem holds_of_clear (call : CvCall size) (h : cv.Holds size l) (hfits : call.Fits cv)
    (hclear : call.Clear cv) {cv' : Cvector} {c : List Cve}
    (hstep : call.step cv = some (cv', c)) : ∃ l', cv'.Holds size l' := by
  have hall := (call.inside_iff h hfits).mpr hclear
  obtain ⟨r, hr, heq⟩ := Option.map_eq_some_iff.mp hstep
  obtain ⟨rfl, -⟩ := Prod.mk.inj heq
  have hr := Call.ret?_eq_some.mp hr
  cases call with
  | pushback junk memb hm =>
    obtain ⟨cv', hret, hh⟩ := cvectorPushback_spec h junk hm hfits
    rw [exec, loggedPushback_res, hret] at hr
    cases hr
    exact ⟨_, hh⟩
  | popback junk memb hm =>
    rw [exec, bind_res, loggedPopback_res] at hr
    obtain ⟨-, hret⟩ | ⟨cv', x, -, hret, hh⟩ := cvectorPopback_spec h junk hm
    · rw [hret] at hr
      cases hr
      exact ⟨l, h⟩
    · rw [hret] at hr
      cases hr
      exact ⟨_, hh⟩
  | insert junk shift iter memb hm =>
    obtain ⟨cv', c, l', hret, hh⟩ := insert_ret h junk hm hfits hall
    rw [exec, hret] at hr
    cases hr
    exact ⟨l', hh⟩
  | insertAt junk shift index memb hm => exact insertAt_ret h junk hm hfits hall hr
  | rm junk iter =>
    obtain ⟨cv', c, l', hret, hh⟩ := rm_ret h junk hclear
    rw [exec, hret] at hr
    cases hr
    exact ⟨l', hh⟩
  | rmAt junk index =>
    obtain ⟨cv', c, l', hret, hh⟩ := rm_ret h junk hclear
    rw [exec, loggedRmAt_eq, hret] at hr
    cases hr
    exact ⟨l', hh⟩

end CvCall

/-- For every element size and every run of calls that change the vector, from `cvector_create`
and with a `realloc` that succeeds: every slot that a call reads or writes is one of the
`cv_tot_len` slots of the block at that moment exactly if no call removes an element of a full
vector, inserts into a vector with exactly one free slot, inserts into a full vector whose block
moves, or inserts at the last index of the type. -/
theorem cvector_inside_iff {cv₀ mem : Alloc UInt8} {size : UInt32} (hcv : cv₀.ok = true)
    (hmem : mem.ok = true) (hpos : 1 ≤ size.toNat) (hsize : 256 * size.toNat < 2 ^ 32) :
    ∃ cv, cvectorCreate cv₀ mem size = some cv ∧
      ∀ calls : List (CvCall size.toNat), AllSteps CvCall.step CvCall.Fits cv calls →
        (AllSteps CvCall.step CvCall.Inside cv calls ↔
          AllSteps CvCall.step CvCall.Clear cv calls) := by
  obtain ⟨cv, hcreate, hh⟩ := cvectorCreate_spec hcv hmem hpos hsize
  refine ⟨cv, hcreate, fun calls hfits => ?_⟩
  have hkept : ∀ (cv : Cvector) (call : CvCall size.toNat) cv' c,
      (∃ l, cv.Holds size.toNat l) → call.Fits cv → call.Clear cv →
        CvCall.step cv call = some (cv', c) → ∃ l, cv'.Holds size.toNat l := by
    rintro cv call cv' c ⟨l, h⟩ hfits hclear hstep
    exact call.holds_of_clear h hfits hclear hstep
  refine allSteps_iff hkept ?_ ⟨[], hh⟩ hfits
  rintro cv call ⟨l, h⟩ hfits
  exact call.inside_iff h hfits

/-- An element of one byte. -/
theorem length_byte (b : UInt8) : [b].length = (1 : UInt32).toNat := rfl

/-- The calls on a vector of bytes. -/
def pushByte (b : UInt8) : CvCall (1 : UInt32).toNat := .pushback (fun _ => 0) [b] (length_byte b)

def insertByteAt (index : UInt32) (b : UInt8) : CvCall (1 : UInt32).toNat :=
  .insertAt (fun _ => 0) 0 index [b] (length_byte b)

def insertByte (iter : UInt32) (b : UInt8) : CvCall (1 : UInt32).toNat :=
  .insert (fun _ => 0) 0 iter [b] (length_byte b)

/-- A byte is pushed, one is inserted before it and one at the front, and the first one is
removed. -/
def clearCalls : List (CvCall (1 : UInt32).toNat) :=
  [pushByte 7, insertByteAt 0 8, insertByte 0 9, .rmAt (fun _ => 0) 0]

theorem cvector_inside_iff_clearCalls : ∃ cv, cvectorCreate zeros zeros 1 = some cv ∧
    AllSteps CvCall.step CvCall.Clear cv clearCalls ∧
    AllSteps CvCall.step CvCall.Inside cv clearCalls := by
  obtain ⟨cv, hcv, h⟩ := cvector_inside_iff (show zeros.ok = true from rfl)
    (show zeros.ok = true from rfl) (show 1 ≤ (1 : UInt32).toNat by decide) (by decide)
  refine ⟨cv, hcv, ?_⟩
  obtain rfl := Option.some.inj (hcv.symm.trans rfl)
  have hclear : AllSteps CvCall.step CvCall.Clear
      ⟨(List.range 256).map fun _ => 0, 0, 256, 1⟩ clearCalls := by decide +kernel
  exact ⟨hclear, (h clearCalls (by decide +kernel)).mpr hclear⟩

/-- `cvector_insert_at` with index 510 leaves 511 elements in a block of 512. An insertion at the
front then writes slot 512. -/
theorem cvector_insert_behind : ∃ cv, cvectorCreate zeros zeros 1 = some cv ∧
    ∃ calls : List (CvCall (1 : UInt32).toNat), AllSteps CvCall.step CvCall.Fits cv calls ∧
      ¬AllSteps CvCall.step CvCall.Inside cv calls := by
  obtain ⟨cv, hcv, -⟩ := cvectorCreate_spec (show zeros.ok = true from rfl)
    (show zeros.ok = true from rfl) (show 1 ≤ (1 : UInt32).toNat by decide) (by decide)
  obtain rfl := Option.some.inj (hcv.symm.trans rfl)
  refine ⟨_, hcv, [insertByteAt 510 7, insertByte 0 8], ?_, ?_⟩
  · decide +kernel
  · decide +kernel

end Robot
