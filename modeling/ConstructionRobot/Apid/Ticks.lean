import ConstructionRobot.Dj.Config

/-!
# Runs of a controller

Calls of `_PID_Hander` one after the other, each with its target, feedback and cycle. A call changes
neither the settings of the controller (`Apid.config`) nor anything but the integral term in its
integral handler, so a run is a sequence of errors that the handler adds up.

* `Apid.bias`: the error of a call, after the limits, the dead zone and the prediction.
* `tickIn_eq`: an enabled controller after a call.
* `runTicks_config`: the settings stay in every run.
* `runTicks_idle`: a controller that is paused or stopped.
-/

namespace Robot

namespace Apid

variable {pid : Apid}

/-- The call with `i`. -/
def tickIn (pid : Apid) (i : TickIn) : Apid := pid.tick i.target i.present i.cycle

/-- The controller after `n` calls. -/
def runTicks (pid : Apid) (ins : ℕ → TickIn) : ℕ → Apid
  | 0 => pid
  | n + 1 => (pid.runTicks ins n).tickIn (ins n)

theorem tickIn_eq (henabled : pid.flag.runStatus = .pidEnable) (i : TickIn) :
    pid.tickIn i = pidOut (pid.dHandle.run (pid.iHandle.run (pid.before i))) := by
  rw [tickIn, tick_eq_terms henabled, terms_eq_before]

theorem tickIn_config (henabled : pid.flag.runStatus = .pidEnable) (i : TickIn) :
    (pid.tickIn i).config = pid.config := by
  rw [tickIn_eq henabled, iHandle_run_eq, dHandle_run_eq]
  rfl

/-- The integral term after a call. -/
theorem tickIn_integralBias (henabled : pid.flag.runStatus = .pidEnable) (i : TickIn) :
    (pid.tickIn i).process.integralBias =
      (pid.iHandle.run (pid.before i)).process.integralBias := by
  rw [tickIn_eq henabled, dHandle_run_eq]
  rfl

/-- The last error after a call is the error of the call. -/
theorem tickIn_lastBias (henabled : pid.flag.runStatus = .pidEnable) (i : TickIn) :
    (pid.tickIn i).process.lastBias = pid.bias i := by
  rw [tickIn_eq henabled, iHandle_run_eq, dHandle_run_eq]
  rfl

/-- The error depends on the settings only. -/
theorem bias_config (pid : Apid) : pid.config.bias = pid.bias := rfl

/-- What the settings decide. -/
theorem config_congr {pid' : Apid} (h : pid'.config = pid.config) :
    pid'.flag = pid.flag ∧ pid'.iHandle = pid.iHandle ∧ pid'.dHandle = pid.dHandle ∧
      pid'.parameter.kp = pid.parameter.kp ∧ pid'.parameter.ki = pid.parameter.ki ∧
      pid'.parameter.kd = pid.parameter.kd ∧ pid'.parameter.kf = pid.parameter.kf ∧
      pid'.parameter.biasForIntegral = pid.parameter.biasForIntegral ∧
      pid'.parameter.integralLimit = pid.parameter.integralLimit ∧
      pid'.parameter.outLimit = pid.parameter.outLimit ∧ pid'.bias = pid.bias := by
  have hflag : pid'.config.flag = pid.config.flag := congrArg Apid.flag h
  have hi : pid'.config.iHandle = pid.config.iHandle := congrArg Apid.iHandle h
  have hd : pid'.config.dHandle = pid.config.dHandle := congrArg Apid.dHandle h
  have hbias : pid'.config.bias = pid.config.bias := congrArg bias h
  have hp : pid'.config.parameter = pid.config.parameter := congrArg Apid.parameter h
  simp only [config, PidParameter.mk.injEq] at hp
  refine ⟨hflag, hi, hd, ?_⟩
  rw [← bias_config pid', hbias, bias_config]
  simp only [hp, and_self]

theorem runTicks_config (henabled : pid.flag.runStatus = .pidEnable) (ins : ℕ → TickIn) (n : ℕ) :
    (pid.runTicks ins n).config = pid.config := by
  induction n with
  | zero => rfl
  | succ n ih =>
    have hrun : (pid.runTicks ins n).flag.runStatus = .pidEnable := by
      rw [(config_congr ih).1]
      exact henabled
    rw [runTicks, tickIn_config hrun, ih]

theorem runTicks_enabled (henabled : pid.flag.runStatus = .pidEnable) (ins : ℕ → TickIn) (n : ℕ) :
    (pid.runTicks ins n).flag.runStatus = .pidEnable := by
  rw [(config_congr (runTicks_config henabled ins n)).1]
  exact henabled

/-- A controller that is not enabled clears its integral in every call. -/
theorem runTicks_idle (hidle : pid.flag.runStatus ≠ .pidEnable) (ins : ℕ → TickIn) (n : ℕ) :
    (pid.runTicks ins n).flag.runStatus ≠ .pidEnable ∧
      (pid.runTicks ins (n + 1)).process.integralBias = 0 := by
  have hstep {p : Apid} (hp : p.flag.runStatus ≠ .pidEnable) (i : TickIn) :
      (p.tickIn i).flag = p.flag ∧ (p.tickIn i).process.integralBias = 0 := by
    simp [tickIn, tick, pidHander, apidSetPresent, apidSetTarget, hp, idle]
  induction n with
  | zero => exact ⟨hidle, (hstep hidle (ins 0)).2⟩
  | succ n ih =>
    have hnext : (pid.runTicks ins (n + 1)).flag.runStatus ≠ .pidEnable := by
      rw [runTicks, (hstep ih.1 (ins n)).1]
      exact ih.1
    exact ⟨hnext, (hstep hnext (ins (n + 1))).2⟩

end Apid

end Robot
