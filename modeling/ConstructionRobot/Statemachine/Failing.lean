import ConstructionRobot.Statemachine.Bounds

/-!
# Vectors and a `realloc` that fails (`cvector.c`)

The calls of `Bounds.lean` with an allocator that succeeds or fails, and the vectors that such calls
lead to.

A vector is reached by calls that returned. A call that reads or writes outside the block does not
return (`CvCall.confined`), so the vector is still one (`Cvector.Reach.holds`). This needs that the
bytes that `realloc` is asked for can be counted: `cv_tot_len <<= 1` turns `2 ^ 31` into 0, and the
shift back after a failed `realloc` gives 0 (`shift_wrapped`).
-/

namespace Robot

open Traced

/-- The call with an allocator that succeeds or fails. -/
def CvCall.execWith {size : ℕ} (ok : Bool) (cv : Cvector) :
    CvCall size → Traced CvAccess (Cvector × Cve)
  | pushback junk memb _ => loggedPushback ⟨ok, junk⟩ cv memb
  | popback junk memb _ => do
    let (cv, c, _) ← loggedPopback ⟨ok, junk⟩ cv memb
    pure (cv, c)
  | insert junk shift iter memb _ => cvectorInsert ⟨ok, junk⟩ shift cv iter memb
  | insertAt junk shift index memb _ => cvectorInsertAt ⟨ok, junk⟩ shift cv index memb
  | rm junk iter => loggedRm ⟨ok, junk⟩ cv iter
  | rmAt junk index => loggedRmAt ⟨ok, junk⟩ cv index

/-- With one element less, the block is halved. -/
def Cvector.Shrinks (cv : Cvector) : Prop :=
  cv.totLen ≥ minLen <<< 2 ∧ (cv.len - 1 : UInt32) ≤ cv.totLen >>> 2

/-- The call comes to a `realloc`. -/
def CvCall.Asks {size : ℕ} (cv : Cvector) : CvCall size → Prop
  | pushback _ _ _ => cv.len ≥ cv.totLen
  | popback _ _ _ => cv.len ≠ 0 ∧ cv.Shrinks
  | insert _ _ iter _ _ => cwarningIter cv iter = false ∧ cv.len ≥ cv.totLen
  | insertAt _ _ index _ _ =>
    if index ≥ cv.totLen then ∃ tot, growTotLen (index + 1) cv.totLen 33 = .ret tot
    else cwarningIter cv (cv.size * index) = false ∧ cv.len ≥ cv.totLen
  | rm _ iter => cwarningIter cv iter = false ∧ cv.Shrinks
  | rmAt _ index => cwarningIter cv (cv.size * index) = false ∧ cv.Shrinks

/-- A vector of elements of `size` bytes that calls lead to, from `cvector_create` and with any
pattern of success and failure of `realloc`. The bytes that it is asked for can be counted. -/
inductive Cvector.Reach (size : UInt32) : Cvector → Prop where
  | create {cv : Cvector} (cv₀ mem : Alloc UInt8) (hpos : 1 ≤ size.toNat)
      (hsize : 256 * size.toNat < 2 ^ 32) (h : cvectorCreate cv₀ mem size = some cv) : Reach size cv
  | call {cv cv' : Cvector} {c : Cve} (ok : Bool) (call : CvCall size.toNat) (hcv : Reach size cv)
      (hfits : call.Fits cv) (h : (call.execWith ok cv).res = .ret (cv', c)) : Reach size cv'

/-! ## A call outside of the block -/

section Guard

variable {size : ℕ} {cv : Cvector} {l : List (List UInt8)}

theorem writeSlot_confined (h : cv.Holds size l) (dst : ℤ) (memb : List UInt8) :
    (cv.writeSlot dst memb).Confined CvAccess.Inside := by
  by_cases hin : 0 ≤ dst ∧ dst + size ≤ cv.totLen.toNat * size
  · exact .inl ((writeSlot_inside h dst memb).mpr hin)
  · refine .inr ?_
    rw [writeSlot_res]
    split
    · case isTrue h0 =>
      have hout : ¬(dst.toNat + cv.size.toNat ≤ cv.pdata.length ∧
          0 + cv.size.toNat ≤ memb.length) := by
        rintro ⟨hle, -⟩
        rw [h.block, h.elemSize] at hle
        zify at hle
        omega
      rw [memcpy, if_neg hout, Call.fault_bind]
    · rfl

theorem copySlot_confined (h : cv.Holds size l) (dst src : ℤ) :
    (cv.copySlot dst src).Confined CvAccess.Inside := by
  by_cases hin : (0 ≤ src ∧ src + size ≤ cv.totLen.toNat * size) ∧
      0 ≤ dst ∧ dst + size ≤ cv.totLen.toNat * size
  · exact .inl ((copySlot_inside h dst src).mpr hin)
  · refine .inr ?_
    rw [copySlot_res]
    split
    · case isTrue h0 =>
      have hout : ¬(dst.toNat + cv.size.toNat ≤ cv.pdata.length ∧
          src.toNat + cv.size.toNat ≤ cv.pdata.length) := by
        rintro ⟨hdst, hsrc⟩
        rw [h.block, h.elemSize] at hdst hsrc
        zify at hdst hsrc
        omega
      rw [memcpy, if_neg hout, Call.fault_bind]
    · rfl

theorem foreward_confined (h : cv.Holds size l) (first p : ℤ) (fuel : ℕ) :
    (cvmemoveForeward first cv p fuel).Confined CvAccess.Inside := by
  induction fuel generalizing cv l p with
  | zero => exact confined_of_log_nil rfl
  | succ fuel ih =>
    rw [cvmemoveForeward]
    split
    · refine (copySlot_confined h _ _).bind fun cv₁ hcv₁ => ?_
      have hin := (copySlot_inside h _ _).mp ((copySlot_confined h _ _).of_ret hcv₁)
      obtain ⟨b, hb, hlen⟩ := copySlot_ret h hin.1 hin.2
      cases hb.symm.trans hcv₁
      exact ih (h.of_length hlen) _
    · exact confined_pure _

theorem insertPut_confined (h : cv.Holds size l) (iter : ℤ) (memb : List UInt8) :
    (cvectorInsertPut cv iter memb).Confined CvAccess.Inside := by
  have hplace := h.place h.len
  simp only [cvectorInsertPut, hplace]
  have hloop := foreward_confined h iter ((cv.len.toNat * size : ℕ) : ℤ)
    (((cv.len.toNat * size : ℕ) - iter).toNat + 2)
  refine hloop.bind fun cv₁ hcv₁ => ?_
  obtain ⟨b, hb, hlen⟩ := foreward_ret h (by omega) (hloop.of_ret hcv₁)
  cases hb.symm.trans hcv₁
  exact (writeSlot_confined (h.of_length hlen) iter memb).bind fun _ _ => confined_pure _

theorem insert_confined (h : cv.Holds size l) (junk : ℕ → UInt8) {shift : ℤ}
    (hfits : cv.GrowFits shift) (iter : UInt32) (memb : List UInt8) :
    (cvectorInsert ⟨true, junk⟩ shift cv iter memb).Confined CvAccess.Inside := by
  cases hwarn : cwarningIter cv iter with
  | true =>
    rw [cvectorInsert, if_pos hwarn]
    exact confined_pure _
  | false =>
    by_cases hfull : cv.len = cv.totLen
    · obtain ⟨cv₁, hcall, hh, -⟩ := insert_full memb h hwarn hfull junk hfits
      rw [hcall]
      exact insertPut_confined hh _ _
    · have hlt := h.room hfull
      rw [insert_room hwarn hlt]
      exact insertPut_confined h _ _

theorem insertAt_confined (h : cv.Holds size l) (junk : ℕ → UInt8) {shift : ℤ} {index : UInt32}
    {memb : List UInt8} (hm : memb.length = size)
    (hfits : (CvCall.insertAt junk shift index memb hm).Fits cv) :
    (cvectorInsertAt ⟨true, junk⟩ shift cv index memb).Confined CvAccess.Inside := by
  simp only [CvCall.Fits] at hfits
  split at hfits
  · case isTrue hge =>
    obtain ⟨cv₁, l₁, -, hh, hcall⟩ | ⟨-, hcall⟩ := insertAt_behind_cases h junk hge hfits
    · rw [hcall]
      exact (writeSlot_confined hh _ _).bind fun _ _ => confined_pure _
    · rw [hcall]
      exact confined_of_log_nil rfl
  · case isFalse hge =>
    rw [cvectorInsertAt, if_neg hge]
    exact (insert_confined h junk hfits _ _).bind fun _ _ => confined_pure _

/-- The removal of an element of a full vector reads behind the block. -/
theorem rm_full (h : cv.Holds size l) (mem : Alloc UInt8) {iter : UInt32}
    (hwarn : cwarningIter cv iter = false) (hfull : cv.len = cv.totLen) :
    cvectorRm mem cv iter = .fault := by
  have hiter := (warning_eq_false h iter).mp hwarn
  have hpos := h.pos
  have hout : cv.pdata.length <
      iter.toNat + cv.size.toNat + (cv.len.toNat * size - iter.toNat) := by
    rw [h.block, h.elemSize, ← hfull]
    omega
  simp only [cvectorRm, hwarn, Bool.false_eq_true, ↓reduceIte, rm_bytes h hwarn]
  rw [moveForward_fault _ _ (Nat.sub_pos_of_lt hiter) hout, Call.fault_bind]

theorem rm_confined (h : cv.Holds size l) (mem : Alloc UInt8) (iter : UInt32) :
    (loggedRm mem cv iter).Confined CvAccess.Inside := by
  by_cases hclear : cv.RmClear iter
  · exact .inl ((rm_inside h mem).mpr hclear)
  · obtain ⟨hwarn, hfull⟩ := Classical.not_imp.mp hclear
    refine .inr ?_
    rw [loggedRm_res]
    exact rm_full h mem hwarn (not_not.mp hfull)

/-- A call that leaves the block is a fault. -/
theorem CvCall.confined (call : CvCall size) (h : cv.Holds size l) (hfits : call.Fits cv) :
    (call.exec cv).Confined CvAccess.Inside := by
  cases call with
  | pushback junk memb hm => exact .inl (pushback_inside h junk hfits)
  | popback junk memb hm =>
    exact Confined.bind (.inl (popback_inside h _)) fun _ _ => confined_pure _
  | insert junk shift iter memb hm => exact insert_confined h junk hfits iter memb
  | insertAt junk shift index memb hm => exact insertAt_confined h junk hm hfits
  | rm junk iter => exact rm_confined h _ _
  | rmAt junk index =>
    show (loggedRmAt ⟨true, junk⟩ cv index).Confined CvAccess.Inside
    rw [loggedRmAt_eq]
    exact rm_confined h _ _

/-- So a call that returns leaves a vector. -/
theorem CvCall.holds_of_ret (call : CvCall size) (h : cv.Holds size l) (hfits : call.Fits cv)
    {cv' : Cvector} {c : Cve} (hr : (call.exec cv).res = .ret (cv', c)) :
    ∃ l', cv'.Holds size l' := by
  have hclear := (call.inside_iff h hfits).mp ((call.confined h hfits).of_ret hr)
  refine call.holds_of_clear h hfits hclear (c := [c]) ?_
  rw [step, hr]
  rfl

end Guard

/-! ## A `realloc` that fails -/

section Fail

variable {size : ℕ} {cv : Cvector} {l : List (List UInt8)} (junk : ℕ → UInt8)

/-- The shift of `cv_tot_len` is undone, unless it wrapped. -/
theorem shift_back {tot : UInt32} (h : tot.toNat < 2 ^ 31) : tot <<< 1 >>> 1 = tot := by
  rw [← UInt32.toNat_inj, shift_half, shift_left h]
  omega

theorem shift_wrapped {tot : UInt32} (h : tot.toNat = 2 ^ 31) : tot <<< 1 = 0 := by
  obtain rfl : tot = 2147483648 := UInt32.toNat_inj.mp h
  decide

/-- A block has `2 ^ 31` slots, or its number of slots can be doubled. -/
theorem pow_cases {tot : UInt32} (hpow : ∃ k, tot.toNat = 256 * 2 ^ k) :
    tot.toNat = 2 ^ 31 ∨ tot.toNat < 2 ^ 31 := by
  obtain ⟨k, hk⟩ := hpow
  have hlt := tot.toNat_lt
  rcases Nat.lt_trichotomy k 23 with hlow | rfl | hhigh
  · have : 2 ^ k < 2 ^ 23 := Nat.pow_lt_pow_right (by omega) hlow
    omega
  · exact .inl hk
  · have : 2 ^ 24 ≤ 2 ^ k := Nat.pow_le_pow_right (by omega) hhigh
    omega

theorem Cvector.Holds.even (h : cv.Holds size l) : cv.totLen >>> 1 <<< 1 = cv.totLen := by
  obtain ⟨k, hk⟩ := h.pow
  have hlt := cv.totLen.toNat_lt
  have hright := shift_half cv.totLen
  rw [← UInt32.toNat_inj, shift_left (by omega), hright]
  omega

/-- A block whose bytes can be counted when it is doubled. -/
theorem Cvector.Holds.grow_back (h : cv.Holds size l)
    (hbytes : 2 * cv.totLen.toNat * cv.size.toNat < 2 ^ 32) :
    ({ cv with totLen := cv.totLen <<< 1 >>> 1 } : Cvector) = cv := by
  have hle : 2 * cv.totLen.toNat * 1 ≤ 2 * cv.totLen.toNat * size :=
    Nat.mul_le_mul_left _ h.pos
  rw [h.elemSize] at hbytes
  rw [shift_back (show cv.totLen.toNat < 2 ^ 31 by omega)]

theorem cvectorCreate_ok {cv₀ mem : Alloc UInt8} {size : UInt32}
    (h : cvectorCreate cv₀ mem size = some cv) : cv₀.ok = true ∧ mem.ok = true := by
  unfold cvectorCreate Alloc.realloc at h
  split at h
  · case isTrue hcv =>
    refine ⟨hcv, ?_⟩
    cases hmem : mem.ok with
    | true => rfl
    | false =>
      rw [hmem] at h
      cases h
  · cases h

theorem pushback_fails (hfull : cv.len ≥ cv.totLen) (memb : List UInt8) :
    (loggedPushback ⟨false, junk⟩ cv memb).res =
      .ret ({ cv with totLen := cv.totLen <<< 1 >>> 1 }, .pushback) := by
  rw [loggedPushback, if_pos hfull]
  rfl

theorem insert_fails {iter : UInt32} (hwarn : cwarningIter cv iter = false)
    (hfull : cv.len ≥ cv.totLen) (shift : ℤ) (memb : List UInt8) :
    (cvectorInsert ⟨false, junk⟩ shift cv iter memb).res =
      .ret ({ cv with totLen := cv.totLen <<< 1 >>> 1 }, .insert) := by
  simp only [cvectorInsert, hwarn, Bool.false_eq_true, ↓reduceIte, if_pos hfull]
  rfl

theorem insertAt_fails_behind {index : UInt32} (hge : index ≥ cv.totLen) {tot : UInt32}
    (hgrow : growTotLen (index + 1) cv.totLen 33 = .ret tot) (shift : ℤ) (memb : List UInt8) :
    (cvectorInsertAt ⟨false, junk⟩ shift cv index memb).res = .fault := by
  rw [cvectorInsertAt, if_pos hge, hgrow]
  rfl

theorem insertAt_fails {index : UInt32} (hlt : ¬index ≥ cv.totLen)
    (hwarn : cwarningIter cv (cv.size * index) = false) (hfull : cv.len ≥ cv.totLen)
    (shift : ℤ) (memb : List UInt8) :
    (cvectorInsertAt ⟨false, junk⟩ shift cv index memb).res =
      .ret ({ cv with totLen := cv.totLen <<< 1 >>> 1 }, .success) := by
  rw [cvectorInsertAt, if_neg hlt, bind_res, insert_fails junk hwarn hfull]
  rfl

theorem reduce_fails (cv : Cvector) (hsize : cv.totLen ≥ minLen <<< 2 ∧ cv.len ≤ cv.totLen >>> 2)
    (err : Cve) :
    cvectorReduce ⟨false, junk⟩ cv err = ({ cv with totLen := cv.totLen >>> 1 <<< 1 }, err) := by
  rw [cvectorReduce, if_pos hsize]
  rfl

/-- The last element is gone, and `cvector_popback` says that it failed. -/
theorem popback_fails (h : cv.Holds size l) (hlen : cv.len ≠ 0) (hshrinks : cv.Shrinks)
    {memb : List UInt8} (hm : memb.length = size) :
    ∃ x, cvectorPopback ⟨false, junk⟩ cv memb =
      .ret ({ cv with len := cv.len - 1 }, .popback, x) := by
  have h0 : ¬cv.len ≤ 0 := fun hle => hlen (UInt32.le_zero_iff.mp hle)
  have hle := h.len
  obtain ⟨hpred, hh, -⟩ := h.shorten hlen
  have hreduce := reduce_fails junk { cv with len := cv.len - 1 } hshrinks .popback
  refine ⟨slot size cv.pdata (cv.len - 1).toNat, ?_⟩
  simp only [cvectorPopback, if_neg h0,
    h.place (show (cv.len - 1).toNat ≤ cv.totLen.toNat by omega), h.elemSize,
    memcpy_slot hm (h.inside (show (cv.len - 1).toNat < cv.totLen.toNat by omega)),
    Call.ret_bind, hreduce, h.even, Call.pure_eq]

/-- A vector that shrinks is not full. -/
theorem Cvector.Shrinks.not_full (hshrinks : cv.Shrinks) (hlen : cv.len ≠ 0) :
    cv.len ≠ cv.totLen := by
  obtain ⟨htot, hle⟩ := hshrinks
  have htot : 1024 ≤ cv.totLen.toNat := UInt32.le_iff_toNat_le.mp htot
  have hquarter := shift_quarter cv.totLen
  have hpos : cv.len.toNat ≠ 0 := fun h0 => hlen (UInt32.toNat_inj.mp h0)
  have hpred : (cv.len - 1).toNat = cv.len.toNat - 1 :=
    UInt32.toNat_sub_of_le _ _ (UInt32.le_iff_toNat_le.mpr (show 1 ≤ cv.len.toNat by omega))
  have hle := UInt32.le_iff_toNat_le.mp hle
  rw [Ne, ← UInt32.toNat_inj]
  omega

/-- The element is gone, and `cvector_rm` says that it failed. -/
theorem rm_fails (h : cv.Holds size l) {iter : UInt32} (hwarn : cwarningIter cv iter = false)
    (hshrinks : cv.Shrinks) :
    ∃ b, cvectorRm ⟨false, junk⟩ cv iter =
        .ret ({ cv with pdata := b, len := cv.len - 1 }, .rm) ∧
      ∃ l', ({ cv with pdata := b, len := cv.len - 1 } : Cvector).Holds size l' := by
  have hiter := (warning_eq_false h iter).mp hwarn
  have hpos := h.len_ne_zero hwarn
  have hne : cv.len.toNat ≠ cv.totLen.toNat := fun heq =>
    hshrinks.not_full hpos (UInt32.toNat_inj.mp heq)
  have hlen := h.len
  have hroom := h.inside (show cv.len.toNat < cv.totLen.toNat by omega)
  rw [Nat.add_mul] at hroom
  obtain ⟨b, hb, hblen, -⟩ := moveForward_ret cv.pdata (i := iter.toNat)
    (j := iter.toNat + size) (cv.len.toNat * size - iter.toNat) (by omega) (by omega)
  have hreduce := reduce_fails junk { cv with pdata := b, len := cv.len - 1 } hshrinks .rm
  refine ⟨b, ?_, _, (h.shorten hpos).2.1.of_length hblen⟩
  simp only [cvectorRm, rm_bytes h hwarn, h.elemSize, hb, hwarn, Bool.false_eq_true, ↓reduceIte,
    Call.ret_bind, hreduce, h.even, Call.pure_eq]

end Fail

section Settled

variable {cv : Cvector} (mem mem' : Alloc UInt8)

theorem reduce_settled (cv : Cvector)
    (h : ¬(cv.totLen ≥ minLen <<< 2 ∧ cv.len ≤ cv.totLen >>> 2))
    (err : Cve) : cvectorReduce mem cv err = (cv, .success) := by
  rw [cvectorReduce, if_neg h]

theorem popback_settled (h : ¬(cv.len ≠ 0 ∧ cv.Shrinks)) (memb : List UInt8) :
    cvectorPopback mem cv memb = cvectorPopback mem' cv memb := by
  unfold cvectorPopback
  split
  · rfl
  · case isFalse h0 =>
    have hne : cv.len ≠ 0 := fun hz => h0 (by rw [hz]; exact UInt32.le_refl 0)
    have hshrinks : ¬cv.Shrinks := fun hs => h ⟨hne, hs⟩
    simp only [reduce_settled _ { cv with len := cv.len - 1 } hshrinks]

theorem insert_settled {iter : UInt32} (h : ¬(cwarningIter cv iter = false ∧ cv.len ≥ cv.totLen))
    (shift : ℤ) (memb : List UInt8) :
    cvectorInsert mem shift cv iter memb = cvectorInsert mem' shift cv iter memb := by
  cases hwarn : cwarningIter cv iter with
  | true => simp only [cvectorInsert, hwarn, ↓reduceIte]
  | false =>
    have hroom : ¬cv.len ≥ cv.totLen := fun hfull => h ⟨hwarn, hfull⟩
    simp only [cvectorInsert, hwarn, Bool.false_eq_true, ↓reduceIte, if_neg hroom]

theorem rm_settled {iter : UInt32} (h : ¬(cwarningIter cv iter = false ∧ cv.Shrinks)) :
    cvectorRm mem cv iter = cvectorRm mem' cv iter := by
  cases hwarn : cwarningIter cv iter with
  | true => simp only [cvectorRm, hwarn, ↓reduceIte]
  | false =>
    have hshrinks : ¬cv.Shrinks := fun hs => h ⟨hwarn, hs⟩
    have hreduce : ∀ (mem : Alloc UInt8) (b : List UInt8),
        cvectorReduce mem { cv with pdata := b, len := cv.len - 1 } .rm =
          ({ cv with pdata := b, len := cv.len - 1 }, .success) :=
      fun mem b => reduce_settled mem { cv with pdata := b, len := cv.len - 1 } hshrinks .rm
    simp only [cvectorRm, hwarn, Bool.false_eq_true, ↓reduceIte, hreduce]

end Settled

namespace CvCall

variable {size : ℕ} {cv : Cvector} {l : List (List UInt8)}

theorem execWith_true (call : CvCall size) : call.execWith true cv = call.exec cv := by
  cases call <;> rfl

/-- A call that does not come to a `realloc` does not depend on it. -/
theorem execWith_of_not_asks (call : CvCall size) (ok : Bool) (h : ¬call.Asks cv) :
    (call.execWith ok cv).res = (call.exec cv).res := by
  cases call with
  | pushback junk memb hm =>
    simp only [execWith, exec, loggedPushback, if_neg (show ¬cv.len ≥ cv.totLen from h)]
  | popback junk memb hm =>
    simp only [execWith, exec, bind_res, loggedPopback_res]
    rw [popback_settled ⟨ok, junk⟩ ⟨true, junk⟩ h]
  | insert junk shift iter memb hm =>
    simp only [execWith, exec]
    rw [insert_settled ⟨ok, junk⟩ ⟨true, junk⟩ h]
  | insertAt junk shift index memb hm =>
    simp only [Asks] at h
    simp only [execWith, exec, cvectorInsertAt]
    split at h
    · case isTrue hge =>
      simp only [if_pos hge]
      rw [(growTotLen_cases (index + 1) cv.totLen 33).resolve_left h]
      rfl
    · case isFalse hlt =>
      simp only [if_neg hlt]
      rw [insert_settled ⟨ok, junk⟩ ⟨true, junk⟩ h]
  | rm junk iter =>
    simp only [execWith, exec, loggedRm_res]
    exact rm_settled _ _ h
  | rmAt junk index =>
    simp only [execWith, exec, loggedRmAt_eq, loggedRm_res]
    exact rm_settled _ _ h

/-- A call that returns after a `realloc` that failed leaves a vector. -/
theorem holds_of_fails (call : CvCall size) (h : cv.Holds size l) (hasks : call.Asks cv)
    (hfits : call.Fits cv) {cv' : Cvector} {c : Cve}
    (hr : (call.execWith false cv).res = .ret (cv', c)) : ∃ l', cv'.Holds size l' := by
  cases call with
  | pushback junk memb hm =>
    rw [execWith, pushback_fails junk hasks, h.grow_back (hfits (h.full_iff.mp hasks))] at hr
    cases hr
    exact ⟨l, h⟩
  | popback junk memb hm =>
    obtain ⟨x, hx⟩ := popback_fails junk h hasks.1 hasks.2 hm
    rw [execWith, bind_res, loggedPopback_res, hx] at hr
    cases hr
    exact ⟨_, (h.shorten hasks.1).2.1⟩
  | insert junk shift iter memb hm =>
    rw [execWith, insert_fails junk hasks.1 hasks.2,
      h.grow_back (hfits (h.full_iff.mp hasks.2)).1] at hr
    cases hr
    exact ⟨l, h⟩
  | insertAt junk shift index memb hm =>
    simp only [Asks] at hasks
    simp only [Fits] at hfits
    split at hasks
    · case isTrue hge =>
      obtain ⟨tot, hgrow⟩ := hasks
      rw [execWith, insertAt_fails_behind junk hge hgrow] at hr
      cases hr
    · case isFalse hlt =>
      rw [if_neg hlt] at hfits
      rw [execWith, insertAt_fails junk hlt hasks.1 hasks.2,
        h.grow_back (hfits (h.full_iff.mp hasks.2)).1] at hr
      cases hr
      exact ⟨l, h⟩
  | rm junk iter =>
    obtain ⟨b, hb, hh⟩ := rm_fails junk h hasks.1 hasks.2
    rw [execWith, loggedRm_res, hb] at hr
    cases hr
    exact hh
  | rmAt junk index =>
    obtain ⟨b, hb, hh⟩ := rm_fails junk h hasks.1 hasks.2
    rw [execWith, loggedRmAt_eq, loggedRm_res, hb] at hr
    cases hr
    exact hh

/-- A call that returns leaves a vector. -/
theorem holds_of_execWith (call : CvCall size) (ok : Bool) (h : cv.Holds size l)
    (hfits : call.Fits cv) {cv' : Cvector} {c : Cve}
    (hr : (call.execWith ok cv).res = .ret (cv', c)) : ∃ l', cv'.Holds size l' := by
  cases ok with
  | true =>
    rw [call.execWith_true] at hr
    exact call.holds_of_ret h hfits hr
  | false =>
    by_cases hasks : call.Asks cv
    · exact call.holds_of_fails h hasks hfits hr
    · rw [call.execWith_of_not_asks false hasks] at hr
      exact call.holds_of_ret h hfits hr

end CvCall

/-- A vector that calls lead to is one. -/
theorem Cvector.Reach.holds {size : UInt32} {cv : Cvector} (hcv : cv.Reach size) :
    ∃ l, cv.Holds size.toNat l := by
  induction hcv with
  | create cv₀ mem hpos hsize h =>
    obtain ⟨hcv, hmem⟩ := cvectorCreate_ok h
    obtain ⟨cv', hcv', hh⟩ := cvectorCreate_spec hcv hmem hpos hsize
    cases h.symm.trans hcv'
    exact ⟨[], hh⟩
  | call ok call _ hfits hr ih =>
    obtain ⟨l, h⟩ := ih
    exact call.holds_of_execWith ok h hfits hr

/-- A new vector of bytes. -/
def noBytes : Cvector := ⟨(List.range 256).map fun _ => 0, 0, 256, 1⟩

theorem noBytes_reach : noBytes.Reach 1 := .create zeros zeros (by decide) (by decide) rfl

theorem pushed_reach {n : ℕ} (hn : n ≤ 256) :
    ∃ cv : Cvector, cv.Reach 1 ∧ cv.len.toNat = n ∧ cv.totLen = 256 := by
  induction n with
  | zero => exact ⟨noBytes, noBytes_reach, rfl, rfl⟩
  | succ n ih =>
    obtain ⟨cv, hcv, hlen, htot⟩ := ih (by omega)
    obtain ⟨l, h⟩ := hcv.holds
    have hroom : cv.len.toNat < cv.totLen.toNat := by
      rw [hlen, htot]
      exact hn
    have hnot : ¬cv.len ≥ cv.totLen := by
      rw [ge_iff_le, UInt32.le_iff_toNat_le]
      omega
    obtain ⟨cv', hput, -, hlen', htot'⟩ := h.put hroom (length_byte 7)
    refine ⟨cv', .call (c := .success) true (pushByte 7) hcv (fun hfull => ?_) ?_, by omega,
      htot'.trans htot⟩
    · rw [hfull] at hroom
      exact absurd hroom (Nat.lt_irrefl _)
    · show (loggedPushback ⟨true, fun _ => 0⟩ cv [7]).res = _
      rw [loggedPushback_res, cvectorPushback, if_neg hnot, hput]

/-- A full vector of bytes. -/
theorem full_reach : ∃ cv : Cvector, cv.Reach 1 ∧ cv.len = 256 ∧ cv.totLen = 256 := by
  obtain ⟨cv, hcv, hlen, htot⟩ := pushed_reach le_rfl
  exact ⟨cv, hcv, UInt32.toNat_inj.mp hlen, htot⟩

end Robot
