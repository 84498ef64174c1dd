import ConstructionRobot.Statemachine.Failing

/-!
# Calls that fail (`cvector.c`)

A call that does not return `CVESUCCESS` should leave the vector as it was, and after a failed
`realloc` the vector should still be one (`CvCall.Atomic`).

`cvector_pushback` and `cvector_insert` ask for memory first, and a failure leaves the vector as it
was. `cvector_popback` and `cvector_rm` ask when the element is gone, and do not put it back.
`cvector_insert_at` behind the block does not look at what `realloc` returns: it writes to `NULL`.

* `CvCall.Safe`: the calls that keep the promise also if `realloc` fails.
* `cvector_atomic_iff`: these are all.
-/

namespace Robot

open Traced

namespace CvCall

variable {size : ℕ}

/-- If the call fails, the vector is as it was. If `realloc` fails, the call returns and leaves a
vector. -/
structure Atomic (ok : Bool) (cv : Cvector) (call : CvCall size) : Prop where
  unchanged : ∀ cv' c, (call.execWith ok cv).res = .ret (cv', c) → c ≠ .success →
    cv'.len = cv.len ∧ cv'.totLen = cv.totLen ∧
      slots size cv'.len.toNat cv'.pdata = slots size cv.len.toNat cv.pdata
  usable : ok = false → call.Asks cv →
    ∃ cv' c l, (call.execWith ok cv).res = .ret (cv', c) ∧ cv'.Holds size l

/-- The calls that a `realloc` that fails does no harm: none that removes an element asks for a
smaller block, and none that adds one asks for a block of `2 ^ 32` slots, or behind the block. -/
def Safe (cv : Cvector) : CvCall size → Prop
  | pushback _ _ _ => cv.len = cv.totLen → cv.totLen.toNat ≠ 2 ^ 31
  | popback _ _ _ => ¬(cv.len ≠ 0 ∧ cv.Shrinks)
  | insert _ _ iter _ _ =>
    cwarningIter cv iter = false → cv.len = cv.totLen → cv.totLen.toNat ≠ 2 ^ 31
  | insertAt _ _ index _ _ =>
    if index ≥ cv.totLen then 2 ^ 31 ≤ (index + 1).toNat
    else cwarningIter cv (cv.size * index) = false → cv.len = cv.totLen →
      cv.totLen.toNat ≠ 2 ^ 31
  | rm _ iter => ¬(cwarningIter cv iter = false ∧ cv.Shrinks)
  | rmAt _ index => ¬(cwarningIter cv (cv.size * index) = false ∧ cv.Shrinks)

end CvCall

/-! ## Calls with memory -/

section Memory

variable {size : ℕ} {cv cv' : Cvector} {c : Cve} {junk : ℕ → UInt8}

theorem loggedPut_code {memb : List UInt8} (hr : (loggedPut cv memb).res = .ret (cv', c)) :
    c = .success := by
  rw [loggedPut, bind_res, touch_res, Call.ret_bind] at hr
  obtain ⟨b, -, hr⟩ := Call.bind_eq_ret.mp hr
  cases hr
  rfl

theorem insertPut_code {iter : ℤ} {memb : List UInt8}
    (hr : (cvectorInsertPut cv iter memb).res = .ret (cv', c)) : c = .success := by
  rw [cvectorInsertPut, bind_res] at hr
  obtain ⟨cv₁, -, hr⟩ := Call.bind_eq_ret.mp hr
  rw [bind_res] at hr
  obtain ⟨cv₂, -, hr⟩ := Call.bind_eq_ret.mp hr
  cases hr
  rfl

theorem reduce_code (junk : ℕ → UInt8) (cv : Cvector) (err : Cve) :
    (cvectorReduce ⟨true, junk⟩ cv err).2 = .success := by
  unfold cvectorReduce
  split <;> rfl

theorem insert_code {shift : ℤ} {iter : UInt32} {memb : List UInt8}
    (hr : (cvectorInsert ⟨true, junk⟩ shift cv iter memb).res = .ret (cv', c))
    (hc : c ≠ .success) : cv' = cv := by
  rw [cvectorInsert] at hr
  split at hr
  · cases hr
    rfl
  · split at hr <;> exact absurd (insertPut_code hr) hc

theorem insertAt_code {mem : Alloc UInt8} {shift : ℤ} {index : UInt32} {memb : List UInt8}
    (hr : (cvectorInsertAt mem shift cv index memb).res = .ret (cv', c)) : c = .success := by
  rw [cvectorInsertAt] at hr
  split at hr
  · rw [bind_res] at hr
    obtain ⟨tot, -, hr⟩ := Call.bind_eq_ret.mp hr
    split at hr
    · rw [bind_res] at hr
      obtain ⟨cv₁, -, hr⟩ := Call.bind_eq_ret.mp hr
      cases hr
      rfl
    · cases hr
  · rw [bind_res] at hr
    obtain ⟨r, -, hr⟩ := Call.bind_eq_ret.mp hr
    cases hr
    rfl

theorem rm_code {iter : UInt32} (hr : cvectorRm ⟨true, junk⟩ cv iter = .ret (cv', c))
    (hc : c ≠ .success) : cv' = cv := by
  rw [cvectorRm] at hr
  split at hr
  · cases hr
    rfl
  · obtain ⟨b, -, hr⟩ := Call.bind_eq_ret.mp hr
    have hcode := reduce_code junk { cv with pdata := b, len := cv.len - 1 } .rm
    rw [Call.pure_eq, Call.ret.injEq] at hr
    rw [hr] at hcode
    exact absurd hcode hc

/-- A call that fails although there is memory did not begin. -/
theorem CvCall.exec_code (call : CvCall size) (hr : (call.exec cv).res = .ret (cv', c))
    (hc : c ≠ .success) : cv' = cv := by
  cases call with
  | pushback junk memb hm =>
    rw [exec, loggedPushback] at hr
    split at hr <;> exact absurd (loggedPut_code hr) hc
  | popback junk memb hm =>
    rw [exec, bind_res, loggedPopback_res, cvectorPopback] at hr
    split at hr
    · cases hr
      rfl
    · obtain ⟨⟨cv₁, c₁, b⟩, hpop, hr⟩ := Call.bind_eq_ret.mp hr
      obtain ⟨b', -, hpop⟩ := Call.bind_eq_ret.mp hpop
      cases hr
      have hcode := reduce_code junk { cv with len := cv.len - 1 } .popback
      cases hpop
      exact absurd hcode hc
  | insert junk shift iter memb hm => exact insert_code hr hc
  | insertAt junk shift index memb hm => exact absurd (insertAt_code hr) hc
  | rm junk iter =>
    rw [exec, loggedRm_res] at hr
    exact rm_code hr hc
  | rmAt junk index =>
    rw [exec, loggedRmAt_eq, loggedRm_res] at hr
    exact rm_code hr hc

end Memory

/-! ## Calls without memory -/

/-- The loop of `cvector_insert_at` ends if there is a power of two behind the length. -/
theorem growTotLen_ends {len tot : UInt32} (hlen : len.toNat < 2 ^ 31) {k fuel : ℕ}
    (hpow : tot.toNat = 256 * 2 ^ k) (hfuel : 24 ≤ k + fuel) :
    ∃ tot', growTotLen len tot fuel = .ret tot' := by
  have hk : 2 ^ k < 2 ^ 24 := by
    have := tot.toNat_lt
    omega
  have hk : k < 24 := (Nat.pow_lt_pow_iff_right (by omega)).mp hk
  induction fuel generalizing tot k with
  | zero => omega
  | succ fuel ih =>
    rw [growTotLen]
    split
    · case isTrue hge =>
      have hge := UInt32.le_iff_toNat_le.mp hge
      have hdouble := shift_left (show tot.toNat < 2 ^ 31 by omega)
      have hpow' : (tot <<< 1).toNat = 256 * 2 ^ (k + 1) := by
        rw [hdouble, hpow, Nat.pow_succ]
        omega
      have hlt : 2 ^ (k + 1) < 2 ^ 24 := by
        have := (tot <<< 1).toNat_lt
        omega
      exact ih hpow' (by omega) hlt ((Nat.pow_lt_pow_iff_right (by omega)).mp hlt)
    · exact ⟨tot, rfl⟩

theorem growTotLen_iff {len tot : UInt32} (hpow : ∃ k, tot.toNat = 256 * 2 ^ k) :
    (∃ tot', growTotLen len tot 33 = .ret tot') ↔ len.toNat < 2 ^ 31 := by
  constructor
  · rintro ⟨tot', hret⟩
    obtain ⟨hlt, hpow'⟩ := growTotLen_ret hpow hret
    have := pow_cases hpow'
    omega
  · intro hlen
    obtain ⟨k, hk⟩ := hpow
    exact growTotLen_ends hlen hk (by omega)

namespace CvCall

variable {size : ℕ} {cv : Cvector} {l : List (List UInt8)}

/-- A call that does not ask for memory is safe. -/
theorem safe_of_not_asks (call : CvCall size) (h : cv.Holds size l) (hasks : ¬call.Asks cv) :
    call.Safe cv := by
  cases call with
  | pushback junk memb hm => exact fun hfull => absurd (h.full_iff.mpr hfull) hasks
  | popback junk memb hm => exact hasks
  | insert junk shift iter memb hm =>
    exact fun hwarn hfull => absurd ⟨hwarn, h.full_iff.mpr hfull⟩ hasks
  | insertAt junk shift index memb hm =>
    simp only [Asks, Safe] at hasks ⊢
    split at hasks
    · case isTrue hge =>
      rw [if_pos hge, ← Nat.not_lt]
      exact fun hlt => hasks ((growTotLen_iff h.pow).mpr hlt)
    · case isFalse hlt =>
      rw [if_neg hlt]
      exact fun hwarn hfull => absurd ⟨hwarn, h.full_iff.mpr hfull⟩ hasks
  | rm junk iter => exact hasks
  | rmAt junk index => exact hasks

/-- A call that does as with memory is atomic. -/
theorem atomic_of_exec (call : CvCall size) {ok : Bool}
    (hexec : (call.execWith ok cv).res = (call.exec cv).res)
    (hasks : ok = false → ¬call.Asks cv) : call.Atomic ok cv := by
  refine ⟨fun cv' c hr hc => ?_, fun hok ha => absurd ha (hasks hok)⟩
  rw [hexec] at hr
  obtain rfl := call.exec_code hr hc
  exact ⟨rfl, rfl, rfl⟩

/-- A call that gives back the vector is atomic. -/
theorem atomic_of_same (call : CvCall size) (h : cv.Holds size l) {c : Cve}
    (hr : (call.execWith false cv).res = .ret (cv, c)) : call.Atomic false cv := by
  refine ⟨fun cv' c' hr' _ => ?_, fun _ _ => ⟨cv, c, l, hr, h⟩⟩
  cases hr.symm.trans hr'
  exact ⟨rfl, rfl, rfl⟩

/-- A call that fails and has another length is not. -/
theorem not_atomic_of_len (call : CvCall size) (h : cv.Holds size l) (hlen : cv.len ≠ 0)
    {cv' : Cvector} {c : Cve} (hr : (call.execWith false cv).res = .ret (cv', c))
    (hc : c ≠ .success) (hcv' : cv'.len = cv.len - 1) : ¬call.Atomic false cv := by
  intro hatomic
  have heq := (hatomic.unchanged cv' c hr hc).1
  have hpred := (h.shorten hlen).1
  rw [← hcv', heq] at hpred
  omega

/-- What is left of `cv_tot_len` after the two shifts. -/
theorem atomic_grow_iff (call : CvCall size) (h : cv.Holds size l) (hasks : call.Asks cv) {c : Cve}
    (hr : (call.execWith false cv).res =
      .ret ({ cv with totLen := cv.totLen <<< 1 >>> 1 }, c)) :
    call.Atomic false cv ↔ cv.totLen.toNat ≠ 2 ^ 31 := by
  constructor
  · intro hatomic hmax
    obtain ⟨cv', c', l', hr', hh⟩ := hatomic.usable rfl hasks
    cases hr.symm.trans hr'
    have htot : 256 ≤ (cv.totLen <<< 1 >>> 1).toNat := hh.totLen_pos
    rw [shift_wrapped hmax] at htot
    exact absurd htot (by decide)
  · intro hmax
    rw [shift_back ((pow_cases h.pow).resolve_left hmax)] at hr
    exact call.atomic_of_same h hr

/-- A call that asks for memory and does not get it. -/
theorem atomic_asks_iff (call : CvCall size) (h : cv.Holds size l) (hasks : call.Asks cv) :
    call.Atomic false cv ↔ call.Safe cv := by
  cases call with
  | pushback junk memb hm =>
    rw [atomic_grow_iff _ h hasks (pushback_fails junk hasks memb)]
    exact ⟨fun hmax _ => hmax, fun hmax => hmax (h.full_iff.mp hasks)⟩
  | popback junk memb hm =>
    obtain ⟨x, hx⟩ := popback_fails junk h hasks.1 hasks.2 hm
    have hr : ((popback junk memb hm).execWith false cv).res =
        .ret ({ cv with len := cv.len - 1 }, .popback) := by
      rw [execWith, bind_res, loggedPopback_res, hx]
      rfl
    exact iff_of_false (not_atomic_of_len _ h hasks.1 hr (by decide) rfl)
      fun hsafe => hsafe hasks
  | insert junk shift iter memb hm =>
    rw [atomic_grow_iff _ h hasks (insert_fails junk hasks.1 hasks.2 shift memb)]
    exact ⟨fun hmax _ _ => hmax, fun hmax => hmax hasks.1 (h.full_iff.mp hasks.2)⟩
  | insertAt junk shift index memb hm =>
    have hasks' := hasks
    simp only [Asks] at hasks'
    simp only [Safe]
    split at hasks'
    · case isTrue hge =>
      have hlt := (growTotLen_iff h.pow).mp hasks'
      obtain ⟨tot, hgrow⟩ := hasks'
      rw [if_pos hge]
      refine iff_of_false (fun hatomic => ?_) (by omega)
      obtain ⟨cv', c, l', hr, -⟩ := hatomic.usable rfl hasks
      rw [execWith, insertAt_fails_behind junk hge hgrow] at hr
      cases hr
    · case isFalse hlt =>
      rw [if_neg hlt,
        atomic_grow_iff _ h hasks (insertAt_fails junk hlt hasks'.1 hasks'.2 shift memb)]
      exact ⟨fun hmax _ _ => hmax, fun hmax => hmax hasks'.1 (h.full_iff.mp hasks'.2)⟩
  | rm junk iter =>
    obtain ⟨b, hb, -⟩ := rm_fails junk h hasks.1 hasks.2
    have hr : ((rm junk iter : CvCall size).execWith false cv).res =
        .ret ({ cv with pdata := b, len := cv.len - 1 }, .rm) := by
      rw [execWith, loggedRm_res, hb]
    exact iff_of_false (not_atomic_of_len _ h (h.len_ne_zero hasks.1) hr (by decide) rfl)
      fun hsafe => hsafe hasks
  | rmAt junk index =>
    obtain ⟨b, hb, -⟩ := rm_fails junk h hasks.1 hasks.2
    have hr : ((rmAt junk index : CvCall size).execWith false cv).res =
        .ret ({ cv with pdata := b, len := cv.len - 1 }, .rm) := by
      rw [execWith, loggedRmAt_eq, loggedRm_res, hb]
    exact iff_of_false (not_atomic_of_len _ h (h.len_ne_zero hasks.1) hr (by decide) rfl)
      fun hsafe => hsafe hasks

end CvCall

/-- For every vector that calls lead to, every call that changes it and every outcome of `realloc`:
a failure leaves the length, the capacity and the elements, and a failed `realloc` leaves a vector,
exactly if `realloc` succeeds or the call is safe. -/
theorem cvector_atomic_iff {size : UInt32} {cv : Cvector} (hcv : cv.Reach size)
    (call : CvCall size.toNat) (ok : Bool) :
    call.Atomic ok cv ↔ (ok = false → call.Safe cv) := by
  obtain ⟨l, h⟩ := hcv.holds
  cases ok with
  | true =>
    refine iff_of_true (call.atomic_of_exec ?_ fun hok => by cases hok) fun hok => by cases hok
    rw [call.execWith_true]
  | false =>
    simp only [forall_const]
    by_cases hasks : call.Asks cv
    · exact call.atomic_asks_iff h hasks
    · refine iff_of_true (call.atomic_of_exec ?_ fun _ => hasks) (call.safe_of_not_asks h hasks)
      exact call.execWith_of_not_asks false hasks

/-- A push on a full vector, without memory: it fails, and the vector stays. -/
theorem cvector_atomic_iff_full : ∃ cv : Cvector, cv.Reach 1 ∧ (pushByte 8).Asks cv ∧
    ((pushByte 8).execWith false cv).res = .ret (cv, .pushback) ∧
    (pushByte 8).Atomic false cv := by
  obtain ⟨cv, hcv, hlen, htot⟩ := full_reach
  have hasks : cv.len ≥ cv.totLen := by
    rw [hlen, htot]
    decide
  have hshift : cv.totLen <<< 1 >>> 1 = cv.totLen := by
    rw [htot]
    decide
  refine ⟨cv, hcv, hasks, ?_, (cvector_atomic_iff hcv (pushByte 8) false).mpr fun _ _ => ?_⟩
  · show (loggedPushback ⟨false, fun _ => 0⟩ cv [8]).res = _
    rw [pushback_fails _ hasks, hshift]
  · rw [htot]
    decide

/-- `cvector_insert_at` behind the block of an empty vector, without memory: the call writes to
`NULL`, and the block is lost. -/
theorem cvector_insert_at_null : noBytes.Reach 1 ∧ (insertByteAt 256 7).Asks noBytes ∧
    ((insertByteAt 256 7).execWith false noBytes).res = .fault ∧
    ¬(insertByteAt 256 7).Atomic false noBytes := by
  have hasks : (insertByteAt 256 7).Asks noBytes := ⟨512, by decide +kernel⟩
  have hr : ((insertByteAt 256 7).execWith false noBytes).res = .fault := by decide +kernel
  refine ⟨noBytes_reach, hasks, hr, fun hatomic => ?_⟩
  obtain ⟨cv', c, l, hret, -⟩ := hatomic.usable rfl hasks
  cases hr.symm.trans hret

end Robot
