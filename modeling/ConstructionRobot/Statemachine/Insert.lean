import ConstructionRobot.Statemachine.Failing

/-!
# Insertion into a vector (`cvector.c`)

An insertion that returns `CVESUCCESS` should leave the elements with the new one between them
(`Inserts`). `cvector_insert` and `cvector_insert_at` leave the block if there is one free slot, or
if a full vector moves. `cvector_insert_at` returns 0 also if `cvector_insert` refused the iterator
or got no memory: behind the last element it inserts nothing.

* `foreward_content`: the loop moves the elements up by one slot.
* `insertPut_content`: so the new element comes between them.
* `cvector_insertion_iff`: the cases in which the two functions do what they say.
-/

namespace Robot

open Traced

/-- The call does not leave the block, and if it says that it succeeded, the vector is the old one
with `memb` inserted at `index`. -/
def Inserts (size : ℕ) (cv : Cvector) (index : UInt32) (memb : List UInt8)
    (r : Call (Cvector × Cve)) : Prop :=
  r ≠ .fault ∧ ∀ cv' : Cvector, r = .ret (cv', .success) →
    slots size cv'.len.toNat cv'.pdata =
        (slots size cv.len.toNat cv.pdata).insertIdx index.toNat memb ∧
      cv'.len.toNat = cv.len.toNat + 1

/-- The bytes of twice the block can be counted, and `realloc` does not move it. -/
def Cvector.GrowsInPlace (cv : Cvector) (shift : ℤ) : Prop :=
  2 * cv.totLen.toNat * cv.size.toNat < 2 ^ 32 ∧ shift = 0

/-! ## The elements after the shift -/

section Content

variable {size : ℕ} {cv : Cvector} {l : List (List UInt8)}

theorem copySlot_content (h : cv.Holds size l) {p : ℕ}
    (hend : p + size + size ≤ cv.totLen.toNat * size) :
    ∃ b, (cv.copySlot (p + size) p).res = .ret { cv with pdata := b } ∧
      b.length = cv.pdata.length ∧
      ∀ x, b[x]? = if p + size ≤ x ∧ x < p + size + size then cv.pdata[x - size]?
        else cv.pdata[x]? := by
  obtain ⟨b, hb, hlen, hget⟩ := memcpy_ret cv.pdata (p + size) cv.pdata p size
    (by rw [h.block]; omega) (by rw [h.block]; omega)
  refine ⟨b, ?_, hlen, fun x => ?_⟩
  · have hdst : ((p : ℤ) + size).toNat = p + size := by omega
    rw [copySlot_res, if_pos ⟨by omega, by omega⟩, h.elemSize, hdst, Int.toNat_natCast, hb,
      Call.ret_bind]
  · rw [hget]
    by_cases hx : p + size ≤ x ∧ x < p + size + size
    · rw [if_pos hx, if_pos hx]
      congr 1
      omega
    · rw [if_neg hx, if_neg hx]

theorem foreward_stop {first p : ℤ} {fuel : ℕ} (hp : p < first) :
    (cvmemoveForeward first cv p (fuel + 1)).res = .ret cv := by
  rw [cvmemoveForeward, if_neg (by omega)]
  rfl

/-- From slot `i + m` down to slot `i`, each slot is copied to the next one. -/
theorem foreward_content (h : cv.Holds size l) (i m fuel : ℕ) (hfuel : m + 2 ≤ fuel)
    (hend : (i + m) * size + size + size ≤ cv.totLen.toNat * size) :
    ∃ b, (cvmemoveForeward (i * size : ℕ) cv ((i + m) * size : ℕ) fuel).res =
        .ret { cv with pdata := b } ∧ b.length = cv.pdata.length ∧
      ∀ x, b[x]? = if i * size + size ≤ x ∧ x < (i + m) * size + size + size
        then cv.pdata[x - size]? else cv.pdata[x]? := by
  have hpos := h.pos
  induction m generalizing cv l fuel with
  | zero =>
    obtain ⟨fuel, rfl⟩ : ∃ f, fuel = f + 2 := ⟨fuel - 2, by omega⟩
    obtain ⟨b, hb, hlen, hget⟩ := copySlot_content h hend
    refine ⟨b, ?_, hlen, hget⟩
    rw [cvmemoveForeward, if_pos (by rw [Nat.add_zero]), bind_res, h.elemSize, hb, Call.ret_bind]
    refine foreward_stop ?_
    rw [Nat.add_zero, h.elemSize]
    omega
  | succ m ih =>
    obtain ⟨fuel, rfl⟩ : ∃ f, fuel = f + 1 := ⟨fuel - 1, by omega⟩
    obtain ⟨b₁, hb₁, hlen₁, hget₁⟩ := copySlot_content h hend
    have hstep : (i + (m + 1)) * size = (i + m) * size + size := by
      rw [← Nat.add_assoc, Nat.succ_mul]
    have hle : i * size ≤ (i + m) * size := Nat.mul_le_mul_right size (Nat.le_add_right i m)
    have hprev : (((i + (m + 1)) * size : ℕ) : ℤ) - size = ((i + m) * size : ℕ) := by
      rw [hstep]
      omega
    obtain ⟨b, hb, hlen, hget⟩ := ih (h.of_length hlen₁) fuel (by omega) (by
      show (i + m) * size + size + size ≤ cv.totLen.toNat * size
      omega)
    refine ⟨b, ?_, hlen.trans hlen₁, fun x => ?_⟩
    · rw [cvmemoveForeward, if_pos (by omega), bind_res, h.elemSize, hb₁, Call.ret_bind]
      show (cvmemoveForeward _ _ (_ - (cv.size.toNat : ℤ)) fuel).res = _
      rw [h.elemSize, hprev, hb]
    · -- the rest of the loop reads below the slot that was just written
      rw [hget x, hget₁, hget₁]
      by_cases hx : i * size + size ≤ x ∧ x < (i + m) * size + size + size
      · rw [if_pos hx, if_neg (by omega), if_pos (by omega)]
      · rw [if_neg hx]
        by_cases hx₁ : (i + (m + 1)) * size + size ≤ x ∧ x < (i + (m + 1)) * size + size + size
        · rw [if_pos hx₁, if_pos (by omega)]
        · rw [if_neg hx₁, if_neg (by omega)]

/-- The end of `cvector_insert`, with two free slots. -/
theorem insertPut_content (h : cv.Holds size l) {i : ℕ} (hi : i ≤ cv.len.toNat)
    (hroom : cv.len.toNat + 2 ≤ cv.totLen.toNat) {memb : List UInt8} (hm : memb.length = size) :
    ∃ cv' : Cvector, (cvectorInsertPut cv (i * size : ℕ) memb).res = .ret (cv', .success) ∧
      slots size cv'.len.toNat cv'.pdata = l.insertIdx i memb ∧
      cv'.len.toNat = cv.len.toNat + 1 := by
  have hpos := h.pos
  have htwo : (cv.len.toNat + 2) * size ≤ cv.totLen.toNat * size := Nat.mul_le_mul_right size hroom
  rw [Nat.add_mul] at htwo
  have hplace := h.place h.len
  have hlen : cv.len.toNat = i + (cv.len.toNat - i) := by omega
  have hle : i * size ≤ cv.len.toNat * size := Nat.mul_le_mul_right size hi
  have hdiff : cv.len.toNat - i ≤ cv.len.toNat * size - i * size := by
    rw [← Nat.sub_mul]
    exact Nat.le_mul_of_pos_right _ hpos
  obtain ⟨b, hb, hblen, hget⟩ := foreward_content h i (cv.len.toNat - i)
    ((((cv.len.toNat * size : ℕ) : ℤ) - ((i * size : ℕ) : ℤ)).toNat + 2) (by omega)
    (by rw [← hlen]; omega)
  rw [← hlen] at hb hget
  obtain ⟨b', hb', hblen', hget'⟩ := memcpy_ret b (i * size) memb 0 size
    (by rw [hblen, h.block]; omega) (by omega)
  refine ⟨{ cv with pdata := b', len := cv.len + 1 }, ?_, ?_, len_succ (by omega)⟩
  · rw [cvectorInsertPut, bind_res, hplace, hb, Call.ret_bind, bind_res, writeSlot_res,
      if_pos (by omega), Int.toNat_natCast]
    simp only [h.elemSize, hb']
    rfl
  · show slots size (cv.len + 1).toNat b' = l.insertIdx i memb
    rw [len_succ (by omega), ← h.elems]
    refine slots_insert hi hm (fun x hx => ?_) (fun y hy => ?_) fun x hx hx' => ?_
    · rw [hget', if_neg (by omega), hget, if_neg (by omega)]
    · rw [hget', if_pos (by omega)]
      congr 1
      omega
    · rw [hget', if_neg (by omega), hget, if_pos (by omega), Nat.add_sub_cancel]

end Content

/-! ## One call -/

section Call

variable {size : ℕ} {cv : Cvector} {l : List (List UInt8)} {index : UInt32} {memb : List UInt8}

theorem Inserts.of_ret {r : Call (Cvector × Cve)} (h : cv.Holds size l) {cv' : Cvector}
    (hr : r = .ret (cv', .success))
    (helems : slots size cv'.len.toNat cv'.pdata = l.insertIdx index.toNat memb)
    (hlen : cv'.len.toNat = cv.len.toNat + 1) : Inserts size cv index memb r := by
  refine ⟨fun hfault => ?_, fun cv'' hcv => ?_⟩
  · cases hr.symm.trans hfault
  · cases hr.symm.trans hcv
    rw [h.elems]
    exact ⟨helems, hlen⟩

/-- A call that does not say that it succeeded. -/
theorem inserts_of_code (cv' : Cvector) {c : Cve} (hc : c ≠ .success) :
    Inserts size cv index memb (.ret (cv', c)) := by
  constructor
  · intro hfault
    cases hfault
  · intro cv'' hcv
    cases hcv
    exact absurd rfl hc

theorem inserts_of_hang : Inserts size cv index memb .hang := by
  constructor
  · intro hfault
    cases hfault
  · intro cv' hcv
    cases hcv

/-- A call that says that it succeeded and leaves as many elements as before. -/
theorem not_inserts_of_len {r : Call (Cvector × Cve)} {cv' : Cvector}
    (hr : r = .ret (cv', .success)) (hlen : cv'.len = cv.len) :
    ¬Inserts size cv index memb r := by
  rintro ⟨-, hall⟩
  have := (hall cv' hr).2
  rw [hlen] at this
  omega

theorem not_inserts_of_fault {r : Call (Cvector × Cve)} (hr : r = .fault) :
    ¬Inserts size cv index memb r := fun hins => hins.1 hr

/-- The iterator of an element is its place. -/
theorem iter_toNat (h : cv.Holds size l) (hi : index ≤ cv.len) :
    (cv.size * index).toNat = index.toNat * size := by
  have hlen := h.len
  have hi := UInt32.le_iff_toNat_le.mp hi
  rw [UInt32.mul_comm, h.place (by omega)]

theorem iter_warning (h : cv.Holds size l) (hi : index ≤ cv.len) :
    cwarningIter cv (cv.size * index) = false ↔ index < cv.len := by
  rw [warning_eq_false h, iter_toNat h hi, Nat.mul_lt_mul_right h.pos, UInt32.lt_iff_toNat_lt]

/-- The bytes of twice the block, as they are counted. -/
theorem grow_bytes (h : cv.Holds size l) :
    (cv.totLen <<< 1 * cv.size).toNat = 2 * cv.totLen.toNat * size % 2 ^ 32 := by
  rw [UInt32.toNat_mul, UInt32.toNat_shiftLeft, h.elemSize]
  show cv.totLen.toNat <<< 1 % 2 ^ 32 * size % 2 ^ 32 = 2 * cv.totLen.toNat * size % 2 ^ 32
  rw [Nat.mod_mul_mod, Nat.shiftLeft_eq, Nat.mul_comm cv.totLen.toNat]

/-- If they wrap, the new block is shorter than the old one. -/
theorem grow_short (h : cv.Holds size l) (hbytes : 2 ^ 32 ≤ 2 * cv.totLen.toNat * size) :
    (cv.totLen <<< 1 * cv.size).toNat < cv.totLen.toNat * size := by
  have hblock := h.bytes
  rw [grow_bytes h, Nat.mul_assoc] at *
  omega

/-- The shift then reads behind the block. -/
theorem insertPut_short {new : List UInt8} (memb : List UInt8) (h : cv.Holds size l)
    (hfull : cv.len = cv.totLen) (hnew : new.length < cv.totLen.toNat * size) (tot : UInt32)
    (iter : ℤ) :
    (cvectorInsertPut { cv with pdata := new, totLen := tot } iter memb).res = .fault := by
  have hplace := h.place h.len
  have hpos := h.pos
  rw [hfull] at hplace
  rw [cvectorInsertPut, bind_res]
  simp only [hfull, hplace]
  by_cases hiter : iter ≤ (cv.totLen.toNat * size : ℕ)
  · rw [cvmemoveForeward, if_pos hiter, bind_res, copySlot_res, if_pos ⟨by omega, by omega⟩,
      memcpy, if_neg ?_]
    · rfl
    · rintro ⟨-, hle⟩
      simp only [h.elemSize] at hle
      omega
  · rw [foreward_stop (by omega), Call.ret_bind, bind_res, writeSlot_res, if_pos (by omega),
      memcpy, if_neg ?_]
    · rfl
    · rintro ⟨hle, -⟩
      simp only [h.elemSize] at hle
      omega

section Insert

variable {shift : ℤ} (mem : Alloc UInt8)

/-- `cvector_insert` with room for the elements and one more. -/
theorem insert_content (h : cv.Holds size l) (hi : index < cv.len) (hroom : cv.len + 1 ≠ cv.totLen)
    (hgrow : cv.len = cv.totLen → mem.ok = true ∧ cv.GrowsInPlace shift)
    (hm : memb.length = size) :
    ∃ cv' : Cvector, (cvectorInsert mem shift cv (cv.size * index) memb).res =
        .ret (cv', .success) ∧
      slots size cv'.len.toNat cv'.pdata = l.insertIdx index.toNat memb ∧
      cv'.len.toNat = cv.len.toNat + 1 := by
  have hwarn := (iter_warning h (UInt32.le_of_lt hi)).mpr hi
  have hiter := iter_toNat h (UInt32.le_of_lt hi)
  have hi := UInt32.lt_iff_toNat_lt.mp hi
  have htot := h.totLen_pos
  by_cases hfull : cv.len = cv.totLen
  · obtain ⟨hok, hbytes, rfl⟩ := hgrow hfull
    obtain ⟨ok, junk⟩ := mem
    obtain rfl : ok = true := hok
    obtain ⟨cv₁, hcall, hh, hlen₁, htot₁⟩ :=
      insert_full memb h hwarn hfull junk fun _ => ⟨hbytes, .inl rfl⟩
    rw [hcall, hiter, sub_zero, ← hlen₁]
    exact insertPut_content hh (by rw [hlen₁]; omega) (by rw [hlen₁, htot₁, hfull]; omega) hm
  · have hlt := h.room hfull
    have hne : cv.len.toNat + 1 ≠ cv.totLen.toNat := by
      rw [← len_succ hlt]
      exact fun heq => hroom (UInt32.toNat_inj.mp heq)
    rw [insert_room hwarn hlt, hiter]
    exact insertPut_content h (by omega) (by omega) hm

/-- With one free slot the shift leaves the block. -/
theorem insert_last_slot (memb : List UInt8) (h : cv.Holds size l)
    (hi : index < cv.len) (hlast : cv.len + 1 = cv.totLen) :
    (cvectorInsert mem shift cv (cv.size * index) memb).res = .fault := by
  have hwarn := (iter_warning h (UInt32.le_of_lt hi)).mpr hi
  have hne : cv.len ≠ cv.totLen := by
    rw [← hlast]
    simp
  have hfits : cv.GrowFits shift := fun heq => absurd heq hne
  have hout : ¬cv.InsertClear shift (cv.size * index) := fun hclear => (hclear hwarn).1 hlast
  rw [insert_settled mem ⟨true, mem.junk⟩ fun hasks => hne (h.full_iff.mp hasks.2)]
  exact (insert_confined h mem.junk hfits _ memb).resolve_left
    (mt (insert_inside h mem.junk hfits).mp hout)

/-- If the block of a full vector moves, or its bytes cannot be counted, the shift leaves it. -/
theorem insert_moved (memb : List UInt8) (h : cv.Holds size l) (hi : index < cv.len)
    (hok : mem.ok = true) (hfull : cv.len = cv.totLen)
    (hplaced : Placed (cv.totLen.toNat * size) (cv.totLen <<< 1 * cv.size).toNat shift)
    (hgrow : ¬cv.GrowsInPlace shift) :
    (cvectorInsert mem shift cv (cv.size * index) memb).res = .fault := by
  have hwarn := (iter_warning h (UInt32.le_of_lt hi)).mpr hi
  obtain ⟨ok, junk⟩ := mem
  obtain rfl : ok = true := hok
  by_cases hbytes : 2 * cv.totLen.toNat * cv.size.toNat < 2 ^ 32
  · have hfits : cv.GrowFits shift := by
      refine fun _ => ⟨hbytes, ?_⟩
      rw [h.elemSize] at hbytes ⊢
      rwa [grow_bytes h, Nat.mod_eq_of_lt hbytes] at hplaced
    have hout : ¬cv.InsertClear shift (cv.size * index) :=
      fun hclear => hgrow ⟨hbytes, (hclear hwarn).2 hfull⟩
    exact (insert_confined h junk hfits _ memb).resolve_left
      (mt (insert_inside h junk hfits).mp hout)
  · obtain ⟨new, hnew⟩ : ∃ new, Alloc.realloc ⟨true, junk⟩ cv.pdata
        (cv.totLen <<< 1 * cv.size).toNat = some new := ⟨_, rfl⟩
    have hshort := grow_short h (by rw [h.elemSize] at hbytes; omega)
    rw [← Alloc.realloc_length hnew] at hshort
    simp only [cvectorInsert, hwarn, Bool.false_eq_true, ↓reduceIte, if_pos (h.full_iff.mpr hfull),
      Cvector.resize, hnew, Option.map_some]
    exact insertPut_short memb h hfull hshort _ _

/-- `cvector_insert` refuses the iterator behind the last element. -/
theorem insert_end (memb : List UInt8) (h : cv.Holds size l) (hi : index = cv.len) :
    cvectorInsert mem shift cv (cv.size * index) memb = pure (cv, .failed) := by
  have hwarn : cwarningIter cv (cv.size * index) = true := by
    rw [← Bool.not_eq_false, iter_warning h (by rw [hi]; exact UInt32.le_refl _), hi]
    exact UInt32.lt_irrefl _
  rw [cvectorInsert, if_pos hwarn]

theorem insert_no_memory (memb : List UInt8) (h : cv.Holds size l) (hi : index < cv.len)
    (hok : mem.ok = false) (hfull : cv.len = cv.totLen) :
    (cvectorInsert mem shift cv (cv.size * index) memb).res =
      .ret ({ cv with totLen := cv.totLen <<< 1 >>> 1 }, .insert) := by
  have hwarn := (iter_warning h (UInt32.le_of_lt hi)).mpr hi
  obtain ⟨ok, junk⟩ := mem
  obtain rfl : ok = false := hok
  exact insert_fails junk hwarn (h.full_iff.mpr hfull) shift memb

/-- When `cvector_insert` does what it says. -/
theorem insert_inserts_iff (h : cv.Holds size l) (hi : index ≤ cv.len)
    (hplaced : cv.len = cv.totLen → mem.ok = true →
      Placed (cv.totLen.toNat * size) (cv.totLen <<< 1 * cv.size).toNat shift)
    (hm : memb.length = size) :
    Inserts size cv index memb (cvectorInsert mem shift cv (cv.size * index) memb).res ↔
      (index < cv.len → cv.len + 1 ≠ cv.totLen ∧
        (cv.len = cv.totLen → mem.ok = true → cv.GrowsInPlace shift)) := by
  by_cases hlt : index < cv.len
  · simp only [hlt, forall_const]
    constructor
    · refine fun hins => ⟨fun hlast => ?_, fun hfull hok => by_contra fun hgrow => ?_⟩
      · exact not_inserts_of_fault (insert_last_slot mem memb h hlt hlast) hins
      · exact not_inserts_of_fault
          (insert_moved mem memb h hlt hok hfull (hplaced hfull hok) hgrow) hins
    · rintro ⟨hroom, hgrow⟩
      by_cases hmem : cv.len = cv.totLen ∧ mem.ok = false
      · rw [insert_no_memory mem memb h hlt hmem.2 hmem.1]
        exact inserts_of_code _ (by decide)
      · obtain ⟨cv', hr, helems, hlen⟩ := insert_content mem h hlt hroom (fun hfull => by
          have hok : mem.ok = true := by
            rw [← Bool.not_eq_false]
            exact fun hno => hmem ⟨hfull, hno⟩
          exact ⟨hok, hgrow hfull hok⟩) hm
        exact Inserts.of_ret h hr helems hlen
  · have heq : index = cv.len := UInt32.le_antisymm hi (UInt32.not_lt.mp hlt)
    rw [insert_end mem memb h heq]
    exact iff_of_true (inserts_of_code cv (by decide)) fun hlt' => absurd hlt' hlt

end Insert

section InsertAt

variable {shift : ℤ} (mem : Alloc UInt8)

/-- `cvector_insert_at` inside the block gives the vector of `cvector_insert`, and 0. -/
theorem insertAt_res (memb : List UInt8) (hlt : ¬index ≥ cv.totLen) :
    (cvectorInsertAt mem shift cv index memb).res =
      ((cvectorInsert mem shift cv (cv.size * index) memb).res >>= fun r =>
        .ret (r.1, .success)) := by
  rw [cvectorInsertAt, if_neg hlt, bind_res]
  rfl

/-- The block of a full vector is doubled, unless it has `2 ^ 31` slots: then the loop hangs. -/
theorem growTotLen_full (h : cv.Holds size l) :
    growTotLen (cv.totLen + 1) cv.totLen 33 =
      if cv.totLen.toNat = 2 ^ 31 then .hang else .ret (cv.totLen <<< 1) := by
  have htot := h.totLen_pos
  have hcases := pow_cases h.pow
  have hsucc : (cv.totLen + 1).toNat = cv.totLen.toNat + 1 := by
    rw [UInt32.toNat_add]
    exact Nat.mod_eq_of_lt (show cv.totLen.toNat + 1 < 2 ^ 32 by omega)
  rw [growTotLen, if_pos (UInt32.le_iff_toNat_le.mpr (by omega))]
  split
  · case isTrue hmax => rw [shift_wrapped hmax, growTotLen_zero]
  · case isFalse hmax =>
    have hdouble := shift_left (show cv.totLen.toNat < 2 ^ 31 by omega)
    rw [growTotLen, if_neg fun hge => ?_, Call.pure_eq]
    have := UInt32.le_iff_toNat_le.mp hge
    omega

/-- The block behind the last slot of a full vector. -/
theorem insertAt_full (memb : List UInt8) (h : cv.Holds size l) (hi : index = cv.len)
    (hfull : cv.len = cv.totLen) (hmax : cv.totLen.toNat ≠ 2 ^ 31) (hok : mem.ok = true) :
    ∃ new, mem.realloc cv.pdata (cv.totLen <<< 1 * cv.size).toNat = some new ∧
      (cvectorInsertAt mem shift cv index memb).res =
        (memcpy new (cv.len.toNat * size) memb 0 size >>= fun b =>
          .ret ({ cv with pdata := b, len := cv.len + 1, totLen := cv.totLen <<< 1 },
            .success)) := by
  have hge : index ≥ cv.totLen := by
    rw [hi, hfull]
    exact UInt32.le_refl _
  obtain ⟨new, hnew⟩ : ∃ new, mem.realloc cv.pdata (cv.totLen <<< 1 * cv.size).toNat = some new :=
    ⟨_, by rw [Alloc.realloc, if_pos hok]⟩
  have hiter : (cv.size * index).toNat = cv.len.toNat * size := by
    rw [iter_toNat h (by rw [hi]; exact UInt32.le_refl _), hi]
  have hgrow : growTotLen (index + 1) cv.totLen 33 = .ret (cv.totLen <<< 1) := by
    rw [hi, hfull, growTotLen_full h, if_neg hmax]
  refine ⟨new, hnew, ?_⟩
  simp only [cvectorInsertAt, if_pos hge, hgrow, liftM_ret_bind, Cvector.resize, hnew,
    Option.map_some, bind_res, writeSlot_res, hiter, if_pos (Int.natCast_nonneg _),
    Int.toNat_natCast, h.elemSize]
  rw [hi]
  cases memcpy new (cv.len.toNat * size) memb 0 size <;> rfl

/-- The element is then inside the block exactly if the bytes of the block can be counted. -/
theorem insertAt_full_iff (h : cv.Holds size l) (hi : index = cv.len) (hfull : cv.len = cv.totLen)
    (hmax : cv.totLen.toNat ≠ 2 ^ 31) (hok : mem.ok = true) (hm : memb.length = size) :
    Inserts size cv index memb (cvectorInsertAt mem shift cv index memb).res ↔
      2 * cv.totLen.toNat * cv.size.toNat < 2 ^ 32 := by
  have hpos := h.pos
  have htot := h.totLen_pos
  obtain ⟨new, hnew, hres⟩ := insertAt_full mem memb h hi hfull hmax hok
  have hlen := Alloc.realloc_length hnew
  rw [h.elemSize]
  by_cases hbytes : 2 * cv.totLen.toNat * size < 2 ^ 32
  · have hblock : new.length = 2 * cv.totLen.toNat * size := by
      rw [hlen, grow_bytes h, Nat.mod_eq_of_lt hbytes]
    have hroom : (cv.len.toNat + 1) * size ≤ new.length := by
      rw [hblock, hfull]
      exact Nat.mul_le_mul_right size (by omega)
    have hslots : slots size cv.len.toNat new = l := by
      rw [← h.elems]
      refine slots_realloc hnew ?_ ?_
      · rw [h.block, hfull]
      · rw [← hlen]
        exact (Nat.mul_le_mul_right size (Nat.le_succ _)).trans hroom
    have hsucc : (cv.len + 1).toNat = cv.len.toNat + 1 := by
      have hcases := pow_cases h.pow
      rw [UInt32.toNat_add, hfull]
      exact Nat.mod_eq_of_lt (show cv.totLen.toNat + 1 < 2 ^ 32 by omega)
    obtain ⟨b, hb, -, hwrite⟩ := slots_write hm hroom
    rw [hb, Call.ret_bind] at hres
    refine iff_of_true (Inserts.of_ret h hres ?_ hsucc) hbytes
    show slots size (cv.len + 1).toNat b = _
    rw [hsucc, hwrite, hslots, hi, ← h.length, List.insertIdx_length_self]
  · have hshort := grow_short h (Nat.le_of_not_lt hbytes)
    rw [memcpy, if_neg (by rw [hlen, hfull]; omega), Call.fault_bind] at hres
    exact iff_of_false (not_inserts_of_fault hres) hbytes

/-- When `cvector_insert_at` does what it says, behind the last element. -/
theorem insertAt_end_iff (h : cv.Holds size l) (hi : index = cv.len) (hm : memb.length = size) :
    Inserts size cv index memb (cvectorInsertAt mem shift cv index memb).res ↔
      cv.len = cv.totLen ∧ (mem.ok = true ∧ 2 * cv.totLen.toNat * cv.size.toNat < 2 ^ 32 ∨
        cv.totLen.toNat = 2 ^ 31) := by
  by_cases hfull : cv.len = cv.totLen
  · have hge : index ≥ cv.totLen := by
      rw [hi, hfull]
      exact UInt32.le_refl _
    simp only [hfull, true_and]
    by_cases hmax : cv.totLen.toNat = 2 ^ 31
    · have hhang : (cvectorInsertAt mem shift cv index memb).res = .hang := by
        rw [cvectorInsertAt, if_pos hge, hi, hfull, growTotLen_full h, if_pos hmax]
        rfl
      rw [hhang]
      exact iff_of_true inserts_of_hang (.inr hmax)
    · simp only [hmax, or_false]
      cases hok : mem.ok with
      | false =>
        have hgrow : growTotLen (index + 1) cv.totLen 33 = .ret (cv.totLen <<< 1) := by
          rw [hi, hfull, growTotLen_full h, if_neg hmax]
        obtain ⟨ok, junk⟩ := mem
        obtain rfl : ok = false := hok
        have hfault := insertAt_fails_behind junk hge hgrow shift memb
        exact iff_of_false (not_inserts_of_fault hfault) (by simp)
      | true =>
        simp only [true_and]
        exact insertAt_full_iff mem h hi hfull hmax hok hm
  · have hlt : ¬index ≥ cv.totLen := by
      rw [hi]
      exact fun hge => hfull (h.full_iff.mp hge)
    have hres : (cvectorInsertAt mem shift cv index memb).res = .ret (cv, .success) := by
      rw [insertAt_res mem memb hlt, insert_end mem memb h hi]
      rfl
    exact iff_of_false (not_inserts_of_len hres rfl) fun hc => hfull hc.1

/-- When `cvector_insert_at` does what it says, before an element. -/
theorem insertAt_before_iff (h : cv.Holds size l) (hi : index < cv.len)
    (hplaced : cv.len = cv.totLen → mem.ok = true →
      Placed (cv.totLen.toNat * size) (cv.totLen <<< 1 * cv.size).toNat shift)
    (hm : memb.length = size) :
    Inserts size cv index memb (cvectorInsertAt mem shift cv index memb).res ↔
      cv.len + 1 ≠ cv.totLen ∧
        (cv.len = cv.totLen → mem.ok = true ∧ cv.GrowsInPlace shift) := by
  have hlt : ¬index ≥ cv.totLen := by
    have hlen := h.len
    have hi := UInt32.lt_iff_toNat_lt.mp hi
    rw [ge_iff_le, UInt32.le_iff_toNat_le]
    omega
  rw [insertAt_res mem memb hlt]
  constructor
  · refine fun hins => ⟨fun hlast => ?_, fun hfull => ?_⟩
    · rw [insert_last_slot mem memb h hi hlast] at hins
      exact not_inserts_of_fault rfl hins
    · cases hok : mem.ok with
      | true =>
        refine ⟨rfl, by_contra fun hgrow => ?_⟩
        rw [insert_moved mem memb h hi hok hfull (hplaced hfull hok) hgrow] at hins
        exact not_inserts_of_fault rfl hins
      | false =>
        -- the code of `cvector_insert` is lost
        rw [insert_no_memory mem memb h hi hok hfull] at hins
        exact absurd hins (not_inserts_of_len rfl rfl)
  · rintro ⟨hroom, hgrow⟩
    obtain ⟨cv', hr, helems, hlen⟩ := insert_content mem h hi hroom hgrow hm
    rw [hr]
    exact Inserts.of_ret h rfl helems hlen

end InsertAt

end Call

/-! ## Every vector -/

/-- For every vector that calls lead to, every index up to its length, every element and every
outcome of `realloc`, the old block and the new one not overlapping:

* `cvector_insert` with the iterator of the index does what it says exactly if the index is the
  length (then it refuses), or there is not exactly one free slot and a full vector gets no memory
  or grows in place.
* `cvector_insert_at` does exactly if, before an element, there is not exactly one free slot and a
  full vector grows in place, or, behind the last element, the vector is full and grows (in place or
  not); `2 ^ 31` slots do not grow, the loop hangs. -/
theorem cvector_insertion_iff {size : UInt32} {cv : Cvector} (hcv : cv.Reach size) {index : UInt32}
    (hi : index ≤ cv.len) (mem : Alloc UInt8) {shift : ℤ}
    (hplaced : cv.len = cv.totLen → mem.ok = true →
      Placed (cv.totLen.toNat * size.toNat) (cv.totLen <<< 1 * cv.size).toNat shift)
    {memb : List UInt8} (hm : memb.length = size.toNat) :
    (Inserts size.toNat cv index memb (cvectorInsert mem shift cv (cv.size * index) memb).res ↔
      (index < cv.len → cv.len + 1 ≠ cv.totLen ∧
        (cv.len = cv.totLen → mem.ok = true → cv.GrowsInPlace shift))) ∧
    (Inserts size.toNat cv index memb (cvectorInsertAt mem shift cv index memb).res ↔
      if index < cv.len then
        cv.len + 1 ≠ cv.totLen ∧ (cv.len = cv.totLen → mem.ok = true ∧ cv.GrowsInPlace shift)
      else cv.len = cv.totLen ∧ (mem.ok = true ∧ 2 * cv.totLen.toNat * cv.size.toNat < 2 ^ 32 ∨
        cv.totLen.toNat = 2 ^ 31)) := by
  obtain ⟨l, h⟩ := hcv.holds
  refine ⟨insert_inserts_iff mem h hi hplaced hm, ?_⟩
  split
  · case isTrue hlt => exact insertAt_before_iff mem h hlt hplaced hm
  · case isFalse hlt =>
    exact insertAt_end_iff mem h (UInt32.le_antisymm hi (UInt32.not_lt.mp hlt)) hm

/-- A full vector grows: in place, for a byte at its front, and to another place, for one at its
end. -/
theorem cvector_insertion_iff_full : ∃ cv : Cvector, cv.Reach 1 ∧ cv.len = cv.totLen ∧
    Inserts 1 cv 0 [8] (cvectorInsert zeros 0 cv (cv.size * 0) [8]).res ∧
    Inserts 1 cv 0 [8] (cvectorInsertAt zeros 0 cv 0 [8]).res ∧
    Inserts 1 cv 256 [8] (cvectorInsertAt zeros 512 cv 256 [8]).res := by
  obtain ⟨cv, hcv, hlen, htot⟩ := full_reach
  obtain ⟨l, h⟩ := hcv.holds
  have hsize : cv.size = 1 := UInt32.toNat_inj.mp h.elemSize
  have hfirst : (0 : UInt32) < cv.len ∧ cv.len + 1 ≠ cv.totLen := by
    rw [hlen, htot]
    decide
  have hgrows : 2 * cv.totLen.toNat * cv.size.toNat < 2 ^ 32 := by
    rw [htot, hsize]
    decide
  have hmoved : Placed (cv.totLen.toNat * (1 : UInt32).toNat) (cv.totLen <<< 1 * cv.size).toNat
      512 := by
    rw [htot, hsize]
    decide
  have hlast : (256 : UInt32) ≤ cv.len := by
    rw [hlen]
    decide
  have hfront := cvector_insertion_iff hcv (UInt32.le_of_lt hfirst.1) zeros (fun _ _ => .inl rfl)
    (length_byte 8)
  have hback := cvector_insertion_iff hcv hlast zeros (fun _ _ => hmoved) (length_byte 8)
  refine ⟨cv, hcv, hlen.trans htot.symm, hfront.1.mpr fun _ => ⟨hfirst.2, fun _ _ => ⟨hgrows, rfl⟩⟩,
    hfront.2.mpr ?_, hback.2.mpr ?_⟩
  · rw [if_pos hfirst.1]
    exact ⟨hfirst.2, fun _ => ⟨rfl, hgrows, rfl⟩⟩
  · rw [if_neg (by rw [hlen]; decide)]
    exact ⟨hlen.trans htot.symm, .inl ⟨rfl, hgrows⟩⟩

/-- `cvector_insert_at` with index 0 on an empty vector returns 0 and inserts nothing. -/
theorem cvector_insert_at_nothing : noBytes.Reach 1 ∧
    (cvectorInsertAt zeros 0 noBytes 0 [7]).res = .ret (noBytes, .success) ∧
    ¬Inserts 1 noBytes 0 [7] (cvectorInsertAt zeros 0 noBytes 0 [7]).res := by
  have hr : (cvectorInsertAt zeros 0 noBytes 0 [7]).res = .ret (noBytes, .success) := by
    decide +kernel
  exact ⟨noBytes_reach, hr, not_inserts_of_len hr rfl⟩

end Robot
