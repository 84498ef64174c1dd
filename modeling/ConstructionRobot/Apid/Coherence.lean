import ConstructionRobot.Dj.Config
import ConstructionRobot.Lib.Sys

/-!
# Flags and handlers of a controller (`apid.c`, `apid_exfunc.c`)

The integral way and the derivative way of a controller are stored twice: as a flag, and as the
pointer of the handler. `APID_Init` sets the pointers and leaves the flags, so a controller that is
initialised again while another way is selected has flags that do not fit its handlers. With the
flag of the anti-saturation way still set, `APID_Set_Integral_Limit` does not install its handler.

In `APID_SET_D_Function` the call of `va_start` is part of a comment: the coefficient is read from
a list of arguments that was never started, and can be anything.

* `Apid.Coherent`: the handlers are those of the flags, and the parameters of the selected ways are
  the ones that were set last.
* `coherent_step_iff`: a call keeps it exactly if it is clear.
* `apid_coherent_iff`: the same for runs.
-/

namespace Robot

/-- The handler of an integral way. -/
def integralHandler : PidMode → PidIFunction → IHandle
  | .increment, .normal => .incrementNormal
  | .increment, .separation => .incrementSeparation
  | .increment, .saturation => .incrementSaturation
  | .increment, .speed => .incrementSpeed
  | .increment, .trapeziod => .incrementTrapeziod
  | .position, .normal => .positionNormal
  | .position, .separation => .positionSeparation
  | .position, .saturation => .positionSaturation
  | .position, .speed => .positionSpeed
  | .position, .trapeziod => .positionTrapeziod

/-- The handler of a derivative way. -/
def differentialHandler : PidMode → PidDFunction → DHandle
  | .increment, .complete => .incrementComplete
  | .increment, .part => .incrementPart
  | .increment, .previous => .incrementPrevious
  | .position, .complete => .positionComplete
  | .position, .part => .positionPart
  | .position, .previous => .positionPrevious

/-- `APID_SET_D_Function`. `read` is what `va_arg` finds; the argument of the caller is not read. -/
def apidSetDFunction (pid : Apid) (dmode : PidDFunction) (read : ℚ) : Apid :=
  let pid := { pid with flag.differentialWay := dmode }
  let handle (increment position : DHandle) : DHandle :=
    match pid.flag.pidMode with
    | .increment => increment
    | .position => position
  match dmode with
  | .complete => { pid with dHandle := handle .incrementComplete .positionComplete }
  | .part =>
    { pid with dHandle := handle .incrementPart .positionPart, parameter.kdU := read }
  | .previous =>
    { pid with dHandle := handle .incrementPrevious .positionPrevious, parameter.kdU := read }

/-! ## Calls -/

/-- A call that configures a controller, with the arguments of the caller. -/
inductive ApidCall where
  | init (mode : PidMode) (kp ki kd : ℚ)
  | reset
  | setIFunction (imode : PidIFunction) (value : ℚ)
  | setDFunction (dmode : PidDFunction) (value : ℚ)
  | setIntegralLimit (value : ℚ)
  deriving DecidableEq, Repr

namespace ApidCall

/-- The call on the controller; `read` is what a list of arguments that was never started gives. -/
def exec (pid : Apid) (read : ℚ) : ApidCall → Apid
  | init mode kp ki kd => apidInit pid mode kp ki kd
  | reset => apidReset pid
  | setIFunction imode value => apidSetIFunction pid imode value
  | setDFunction dmode _ => apidSetDFunction pid dmode read
  | setIntegralLimit value => apidSetIntegralLimit value pid

/-- The value that the call gives to `bias_for_integral`, `integral_limit` and the coefficient of
the derivative. `APID_Init` and `APID_Reset` give the defaults. -/
def biasForIntegral? : ApidCall → Option ℚ
  | init _ _ _ _ => some (-1)
  | reset => some (-1)
  | setIFunction .separation value => some value
  | _ => none

@[inherit_doc biasForIntegral?]
def integralLimit? : ApidCall → Option ℚ
  | init _ _ _ _ => some (-1)
  | reset => some (-1)
  | setIFunction .saturation value => some value
  | setIntegralLimit value => some value
  | _ => none

@[inherit_doc biasForIntegral?]
def kd? : ApidCall → Option ℚ
  | init _ _ _ _ => some 0
  | reset => some 0
  | setDFunction .part value => some value
  | setDFunction .previous value => some value
  | _ => none

/-- A call as a step of a run. -/
def step (pid : Apid) (e : ApidCall × ℚ) : Option (Apid × List ApidCall) :=
  some (e.1.exec pid e.2, [e.1])

/-- The calls that keep flags, handlers and parameters together. -/
def Clear (pid : Apid) : ApidCall × ℚ → Prop
  | (init _ _ _ _, _) => pid.flag.integralWay = .normal ∧ pid.flag.differentialWay = .complete
  | (setDFunction dmode value, read) => dmode = .complete ∨ read = value
  | _ => True

instance (pid : Apid) : (e : ApidCall × ℚ) → Decidable (Clear pid e)
  | (init _ _ _ _, _) => inferInstanceAs
      (Decidable (pid.flag.integralWay = .normal ∧ pid.flag.differentialWay = .complete))
  | (setDFunction dmode value, read) => inferInstanceAs (Decidable (dmode = .complete ∨ read = value))
  | (reset, _) => isTrue trivial
  | (setIFunction _ _, _) => isTrue trivial
  | (setIntegralLimit _, _) => isTrue trivial

end ApidCall

/-- The last value that the calls gave, oldest call first. -/
def lastSet (f : ApidCall → Option ℚ) (calls : List ApidCall) : Option ℚ :=
  calls.reverse.findSome? f

@[simp] theorem lastSet_concat (f : ApidCall → Option ℚ) (calls : List ApidCall) (c : ApidCall) :
    lastSet f (calls ++ [c]) = (f c).or (lastSet f calls) := by
  rw [lastSet, List.reverse_append, List.reverse_singleton, List.singleton_append,
    List.findSome?_cons]
  cases f c <;> rfl

/-- After `calls` the handlers are those of the flags, and the parameters of the selected ways are
the ones that were set last. After `APID_Set_Integral_Limit` the handler is the anti-saturation
one, with the limit that was passed. -/
structure Apid.Coherent (pid : Apid) (calls : List ApidCall) : Prop where
  integral : pid.iHandle = integralHandler pid.flag.pidMode pid.flag.integralWay
  differential : pid.dHandle = differentialHandler pid.flag.pidMode pid.flag.differentialWay
  separation : pid.flag.integralWay = .separation →
    lastSet ApidCall.biasForIntegral? calls = some pid.parameter.biasForIntegral
  saturation : pid.flag.integralWay = .saturation →
    lastSet ApidCall.integralLimit? calls = some pid.parameter.integralLimit
  coefficient : pid.flag.differentialWay ≠ .complete →
    lastSet ApidCall.kd? calls = some pid.parameter.kdU
  limit : ∀ value, calls.getLast? = some (.setIntegralLimit value) →
    pid.iHandle = integralHandler pid.flag.pidMode .saturation ∧
      pid.parameter.integralLimit = value

/-! ## One call -/

section Step

variable {pid : Apid} {calls : List ApidCall}

theorem integralHandler_injective (mode : PidMode) : Function.Injective (integralHandler mode) := by
  intro a b h
  cases mode <;> cases a <;> cases b <;> first | rfl | cases h

theorem differentialHandler_injective (mode : PidMode) :
    Function.Injective (differentialHandler mode) := by
  intro a b h
  cases mode <;> cases a <;> cases b <;> first | rfl | cases h

theorem apidReset_coherent (h : pid.Coherent calls) :
    (apidReset pid).Coherent (calls ++ [.reset]) where
  integral := h.integral
  differential := h.differential
  separation _ := by simp [ApidCall.biasForIntegral?, apidReset]
  saturation _ := by simp [ApidCall.integralLimit?, apidReset]
  coefficient _ := by simp [ApidCall.kd?, apidReset]
  limit := by simp

/-- `APID_Init` installs the handlers of the normal and the complete way. -/
theorem apidInit_iHandle (mode : PidMode) (kp ki kd : ℚ) :
    (apidInit pid mode kp ki kd).iHandle = integralHandler mode .normal := by
  cases mode <;> rfl

theorem apidInit_dHandle (mode : PidMode) (kp ki kd : ℚ) :
    (apidInit pid mode kp ki kd).dHandle = differentialHandler mode .complete := by
  cases mode <;> rfl

/-- It leaves the ways as they are. -/
theorem apidInit_flag (mode : PidMode) (kp ki kd : ℚ) :
    (apidInit pid mode kp ki kd).flag = ⟨.pidEnable, pid.flag.integralWay,
      pid.flag.differentialWay, mode⟩ := by
  cases mode <;> rfl

theorem apidInit_coherent_iff (calls : List ApidCall) (mode : PidMode) (kp ki kd : ℚ) :
    (apidInit pid mode kp ki kd).Coherent (calls ++ [.init mode kp ki kd]) ↔
      pid.flag.integralWay = .normal ∧ pid.flag.differentialWay = .complete := by
  constructor
  · intro h
    have hi := h.integral
    have hd := h.differential
    rw [apidInit_iHandle, apidInit_flag] at hi
    rw [apidInit_dHandle, apidInit_flag] at hd
    exact ⟨(integralHandler_injective mode hi).symm, (differentialHandler_injective mode hd).symm⟩
  · rintro ⟨hi, hd⟩
    constructor
    · rw [apidInit_iHandle, apidInit_flag, hi]
    · rw [apidInit_dHandle, apidInit_flag, hd]
    · simp [apidInit_flag, hi]
    · simp [apidInit_flag, hi]
    · simp [apidInit_flag, hd]
    · simp

/-- `APID_SET_I_Function` changes the flag, the handler and the parameter of the new way. -/
theorem apidSetIFunction_eq (imode : PidIFunction) (value : ℚ) :
    apidSetIFunction pid imode value =
      { pid with
        flag.integralWay := imode
        iHandle := integralHandler pid.flag.pidMode imode
        parameter.biasForIntegral :=
          if imode = .separation then value else pid.parameter.biasForIntegral
        parameter.integralLimit :=
          if imode = .saturation then value else pid.parameter.integralLimit } := by
  cases imode <;> cases hm : pid.flag.pidMode <;> simp [apidSetIFunction, integralHandler, hm]

theorem apidSetIFunction_coherent (h : pid.Coherent calls) (imode : PidIFunction) (value : ℚ) :
    (apidSetIFunction pid imode value).Coherent (calls ++ [.setIFunction imode value]) := by
  rw [apidSetIFunction_eq]
  refine ⟨rfl, h.differential, ?_, ?_, ?_, by simp⟩
  · rintro (rfl : imode = .separation)
    simp [ApidCall.biasForIntegral?]
  · rintro (rfl : imode = .saturation)
    simp [ApidCall.integralLimit?]
  · intro hd
    simpa [ApidCall.kd?] using h.coefficient hd

/-- With the handlers of the flags, `APID_Set_Integral_Limit` installs the anti-saturation
handler, or it is there already. -/
theorem apidSetIntegralLimit_coherent (h : pid.Coherent calls) (value : ℚ) :
    (apidSetIntegralLimit value pid).Coherent (calls ++ [.setIntegralLimit value]) := by
  unfold apidSetIntegralLimit
  split
  · rw [apidSetIFunction_eq]
    refine ⟨rfl, h.differential, ?_, ?_, ?_, ?_⟩
    · rintro (hway : PidIFunction.saturation = .separation)
      cases hway
    · simp [ApidCall.integralLimit?]
    · intro hd
      simpa [ApidCall.kd?] using h.coefficient hd
    · intro v hv
      rw [List.getLast?_concat, Option.some.injEq, ApidCall.setIntegralLimit.injEq] at hv
      exact ⟨rfl, hv⟩
  · case isFalse hway =>
    have hway : pid.flag.integralWay = .saturation := not_not.mp hway
    refine ⟨h.integral, h.differential, ?_, ?_, ?_, ?_⟩
    · intro hsep
      cases hway.symm.trans hsep
    · simp [ApidCall.integralLimit?]
    · intro hd
      simpa [ApidCall.kd?] using h.coefficient hd
    · intro v hv
      rw [List.getLast?_concat, Option.some.injEq, ApidCall.setIntegralLimit.injEq] at hv
      exact ⟨hway ▸ h.integral, hv⟩

/-- `APID_SET_D_Function` changes the flag, the handler and the coefficient of the new way. -/
theorem apidSetDFunction_eq (dmode : PidDFunction) (read : ℚ) :
    apidSetDFunction pid dmode read =
      { pid with
        flag.differentialWay := dmode
        dHandle := differentialHandler pid.flag.pidMode dmode
        parameter.kdU := if dmode = .complete then pid.parameter.kdU else read } := by
  cases dmode <;> cases hm : pid.flag.pidMode <;> simp [apidSetDFunction, differentialHandler, hm]

theorem apidSetDFunction_coherent_iff (h : pid.Coherent calls) (dmode : PidDFunction)
    (value read : ℚ) :
    (apidSetDFunction pid dmode read).Coherent (calls ++ [.setDFunction dmode value]) ↔
      dmode = .complete ∨ read = value := by
  have hkd : dmode ≠ .complete → (ApidCall.setDFunction dmode value).kd? = some value := by
    intro hne
    cases dmode with
    | complete => exact absurd rfl hne
    | part => rfl
    | previous => rfl
  rw [apidSetDFunction_eq]
  constructor
  · intro hnew
    by_cases hc : dmode = .complete
    · exact .inl hc
    · have hcoef := hnew.coefficient hc
      rw [lastSet_concat, hkd hc, Option.some_or, if_neg hc, Option.some.injEq] at hcoef
      exact .inr hcoef.symm
  · intro hclear
    refine ⟨h.integral, rfl, ?_, ?_, ?_, by simp⟩
    · intro hsep
      simpa [ApidCall.biasForIntegral?] using h.separation hsep
    · intro hsat
      simpa [ApidCall.integralLimit?] using h.saturation hsat
    · rintro (hne : dmode ≠ .complete)
      obtain rfl : read = value := hclear.resolve_left hne
      rw [lastSet_concat, hkd hne, Option.some_or, if_neg hne]

/-- A call keeps flags, handlers and parameters together exactly if it is clear. -/
theorem coherent_step_iff (h : pid.Coherent calls) (e : ApidCall × ℚ) :
    (e.1.exec pid e.2).Coherent (calls ++ [e.1]) ↔ ApidCall.Clear pid e := by
  obtain ⟨c, read⟩ := e
  cases c with
  | init mode kp ki kd => exact apidInit_coherent_iff calls mode kp ki kd
  | reset => exact iff_of_true (apidReset_coherent h) trivial
  | setIFunction imode value =>
    exact iff_of_true (apidSetIFunction_coherent h imode value) trivial
  | setDFunction dmode value => exact apidSetDFunction_coherent_iff h dmode value read
  | setIntegralLimit value => exact iff_of_true (apidSetIntegralLimit_coherent h value) trivial

end Step

/-! ## Runs -/

/-- For every sequence of calls that begins with `APID_Init` on a zeroed controller, and whatever a
list of arguments that was never started gives: in every state on the way the handlers are those of
the flags and the parameters of the selected ways are the ones that were set last, exactly if no
call initialises the controller again while an integral way other than the normal one or a
derivative way other than the complete one is selected, and `APID_SET_D_Function` happens to find
the value that was passed wherever it stores one. -/
theorem apid_coherent_iff (mode : PidMode) (kp ki kd : ℚ) (es : List (ApidCall × ℚ)) :
    (∀ es₁, es₁ <+: es → ∀ pid calls,
        runLog ApidCall.step (apidInit Apid.zero mode kp ki kd) es₁ = some (pid, calls) →
          pid.Coherent (.init mode kp ki kd :: calls)) ↔
      AllSteps ApidCall.step ApidCall.Clear (apidInit Apid.zero mode kp ki kd) es := by
  have hinit : (apidInit Apid.zero mode kp ki kd).Coherent [.init mode kp ki kd] :=
    (apidInit_coherent_iff [] mode kp ki kd).mpr ⟨rfl, rfl⟩
  have hkept : ∀ (pid : Apid) calls e pid' calls', pid.Coherent calls →
      ApidCall.step pid e = some (pid', calls') →
        (pid'.Coherent (calls ++ calls') ↔ ApidCall.Clear pid e) := by
    rintro pid calls e pid' calls' h hstep
    obtain ⟨rfl, rfl⟩ := Prod.mk.inj (Option.some.inj hstep)
    exact coherent_step_iff h e
  exact runLog_prefix_iff (fun pid e => ⟨_, _, rfl⟩) hkept hinit

/-- A controller whose integral was limited is initialised again, and the limit is set again: the
flag is that of the anti-saturation way, the handler is the normal one. -/
theorem apid_init_twice : ∃ es : List (ApidCall × ℚ),
    ¬∀ es₁, es₁ <+: es → ∀ pid calls,
      runLog ApidCall.step (apidInit Apid.zero .position 1 1 0) es₁ = some (pid, calls) →
        pid.Coherent (.init .position 1 1 0 :: calls) := by
  refine ⟨[(.setIntegralLimit 200, 0), (.init .position 1 1 0, 0), (.setIntegralLimit 200, 0)],
    fun h => ?_⟩
  have hlimit := (h _ (List.prefix_refl _) _ _ rfl).limit 200 rfl
  exact absurd hlimit.1 (by decide +kernel)

end Robot
