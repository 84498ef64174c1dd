import ConstructionRobot.Manager.Basic

/-!
# Moves of the manager and the line follower (`robotmanager.c`, `drv_stepper_motor.c`)

While the manager is in `action_relative_movement_car`, the line follower thread must not write or
publish `ctrl`. What keeps it from that is `rbmg_mode` alone: `rbmg_error_callback` tests it once,
before its writes. The stepper thread writes `rbmg_mode` without a test when the arm is ready.

* `Exclusive`: the invariant. While the manager has moves to make, the mode is `ACTION_MODE`, and in
  this mode the line follower thread is not behind the test of `rbmg_error_callback`.
* `moves_undisturbed`: the moves of a run are not disturbed, if the stepper thread does its write
  only while the manager has no move to make.
-/

namespace Robot

variable {F : Type}

/-- A command that makes a move, or the write of `ACTION_MODE` before the moves of a turn. -/
def TurnCmd.drives : TurnCmd → Bool
  | .actionMode | .move _ | .act _ | .deliver | .retreat => true
  | _ => false

/-- No move is left after this command. -/
def TurnCmd.isLast : TurnCmd → Bool
  | .lineMode | .act _ | .takeEnd | .putEnd => true
  | _ => false

/-- The manager has seen `ACTION_MODE` and has moves to make, or is in one. -/
def RbmgState.Driving (s : RbmgState F) : Prop :=
  s.move.isSome ∨ s.calls.any TurnCmd.drives ∨ s.loop = .nextDir

instance decidableDriving (s : RbmgState F) : Decidable s.Driving :=
  inferInstanceAs (Decidable (_ ∨ _ ∨ _))

/-- The condition on the write of the stepper thread. -/
def StepperWaits (s : RbmgState F) (e : RbmgEv F) : Prop :=
  match e with
  | .armReady => ¬s.Driving
  | _ => True

instance decidableStepperWaits (s : RbmgState F) (e : RbmgEv F) : Decidable (StepperWaits s e) :=
  match e with
  | .armReady => inferInstanceAs (Decidable (¬_))
  | .manager _ | .lineError _ | .specialPoint | .line | .colorByte _ => isTrue trivial

/-- The test of the position in `action_relative_movement_car` is next. -/
def MovePc.isAwait : MovePc → Bool
  | .await _ => true
  | _ => false

/-- No speed command, and no write of `ctrl` by the line follower thread. -/
def RbmgObs.isCalm : RbmgObs F → Bool
  | .publish _ ctrl => ctrl.type != 0
  | .write t => t = .manager
  | _ => true

/-- If the manager is in a move, it waits for the position that it has computed, and the step shows
nothing that disturbs it. -/
def Undisturbed (fl : FloatOps F) (s : RbmgState F) (e : RbmgEv F) : Prop :=
  s.move.isSome → (s.move.any MovePc.isAwait → s.ctrl.pos = s.goal) ∧
    ∀ r ∈ rbmgStep fl s e, ∀ o ∈ r.2, o.isCalm

instance decidableUndisturbed [DecidableEq F] (fl : FloatOps F) (s : RbmgState F) (e : RbmgEv F) :
    Decidable (Undisturbed fl s e) :=
  inferInstanceAs (Decidable (_ → _ ∧ _))

/-! ## The invariant -/

/-- What a move has written to `ctrl`. -/
def MovePc.OnTarget (ctrl : ChassisCtrl F) (goal : ChassisPos F) : MovePc → Prop
  | .setType _ => True
  | .setX _ => ctrl.type = 1
  | .setY _ => ctrl.type = 1 ∧ ctrl.pos.x = goal.x
  | .setZ _ => ctrl.type = 1 ∧ ctrl.pos.x = goal.x ∧ ctrl.pos.y = goal.y
  | _ => ctrl.type = 1 ∧ ctrl.pos = goal

/-- After a command that is the last with a move there is no other. -/
def LastMoves (cs : List TurnCmd) : Prop := cs.Pairwise fun a b => a.isLast → b.drives = false

/-- The invariant. -/
structure Exclusive (s : RbmgState F) : Prop where
  mode : s.Driving → s.rbmgMode = .action
  line : s.line.inError → s.rbmgMode ≠ .action
  calls : LastMoves s.calls
  loop : s.calls ≠ [] ∨ s.move.isSome → s.loop = .actionEnd
  target : ∀ pc, s.move = some pc → pc.OnTarget s.ctrl s.goal

theorem lastMoves_cons {c : TurnCmd} {cs : List TurnCmd} : LastMoves (c :: cs) ↔
    (∀ b ∈ cs, c.isLast → b.drives = false) ∧ LastMoves cs := List.pairwise_cons

theorem LastMoves.cons {c : TurnCmd} {cs : List TurnCmd} (h : LastMoves cs)
    (hc : c.isLast = false) : LastMoves (c :: cs) :=
  lastMoves_cons.mpr ⟨fun _ _ hlast => absurd hlast (by simp [hc]), h⟩

theorem LastMoves.append_moves {ms cs : List TurnCmd} (hm : AllMoves ms) (h : LastMoves cs) :
    LastMoves (ms ++ cs) := by
  induction ms with
  | nil => exact h
  | cons c ms ih =>
    obtain ⟨⟨d, rfl⟩, hms⟩ := allMoves_cons.mp hm
    exact (ih hms).cons rfl

theorem lastMoves_actBody (takeCnt : UInt8) (a : Act) : LastMoves (actBody takeCnt a) := by
  cases a with
  | take =>
    rw [actBody, takeAction, List.append_assoc, List.cons_append]
    refine .append_moves (allMoves_takeApproach _) (.cons ?_ rfl)
    exact .append_moves (allMoves_takeReturn _) (List.pairwise_singleton _ _)
  | put =>
    rw [actBody, putAction]
    unfold LastMoves
    simp [TurnCmd.go, TurnCmd.isLast]
  | approach => exact List.pairwise_singleton _ _

theorem lastMoves_turnActions (thisTable : TableId) (dir : Dir) :
    LastMoves (turnActions thisTable dir) := by
  unfold LastMoves
  cases dir <;> cases thisTable <;>
    simp [turnActions, TurnCmd.go, TurnCmd.isLast, TurnCmd.drives]

/-! ## The steps -/

section Step

variable {fl : FloatOps F} {s s₁ : RbmgState F} {l₁ : List (RbmgObs F)} {c : TurnCmd}
  {cs : List TurnCmd}

/-- A step of a move changes `ctrl` and the move only. -/
theorem actionRelativeMovementCar_frame (fl : FloatOps F) (nowpos : ChassisPos F)
    (s : RbmgState F) (pc : MovePc) :
    (actionRelativeMovementCar fl nowpos s pc).1.rbmgMode = s.rbmgMode ∧
    (actionRelativeMovementCar fl nowpos s pc).1.line = s.line ∧
    (actionRelativeMovementCar fl nowpos s pc).1.calls = s.calls ∧
    (actionRelativeMovementCar fl nowpos s pc).1.loop = s.loop := by
  cases pc <;> exact ⟨rfl, rfl, rfl, rfl⟩

theorem actionRelativeMovementCar_onTarget (nowpos : ChassisPos F) {pc pc₁ : MovePc}
    (h : pc.OnTarget s.ctrl s.goal)
    (hpc : (actionRelativeMovementCar fl nowpos s pc).1.move = some pc₁) :
    pc₁.OnTarget (actionRelativeMovementCar fl nowpos s pc).1.ctrl
      (actionRelativeMovementCar fl nowpos s pc).1.goal := by
  cases pc with
  | setType d =>
    obtain rfl := Option.some.inj hpc
    rfl
  | setX d =>
    obtain rfl := Option.some.inj hpc
    exact ⟨h, rfl⟩
  | setY d =>
    obtain rfl := Option.some.inj hpc
    exact ⟨h.1, h.2, rfl⟩
  | publish =>
    obtain rfl := Option.some.inj hpc
    exact h
  | setZ d =>
    obtain rfl := Option.some.inj hpc
    obtain ⟨htype, hx, hy⟩ := h
    exact ⟨htype, by simp [actionRelativeMovementCar, hx, hy]⟩
  | await n =>
    obtain ⟨-, hpc⟩ := Option.ite_none_left_eq_some.mp hpc
    obtain rfl := Option.some.inj hpc
    exact h
  | setTypeAgain n =>
    obtain rfl := Option.some.inj hpc
    exact ⟨rfl, h.2⟩
  | publishAgain n =>
    obtain ⟨-, hpc⟩ := Option.ite_none_left_eq_some.mp hpc
    obtain rfl := Option.some.inj hpc
    exact h

/-- A step of a move. -/
theorem Exclusive.actionRelativeMovementCar (h : Exclusive s) (nowpos : ChassisPos F) {pc : MovePc}
    (hpc : s.move = some pc) : Exclusive (actionRelativeMovementCar fl nowpos s pc).1 := by
  have hmove : s.move.isSome := by rw [hpc]; rfl
  obtain ⟨hmode, hline, hcalls, hloop⟩ := actionRelativeMovementCar_frame fl nowpos s pc
  refine ⟨fun _ => ?_, ?_, ?_, fun _ => ?_, fun pc₁ => ?_⟩
  · rw [hmode]
    exact h.mode (.inl hmove)
  · rw [hline, hmode]
    exact h.line
  · rw [hcalls]
    exact h.calls
  · rw [hloop]
    exact h.loop (.inr hmove)
  · exact actionRelativeMovementCar_onTarget nowpos (h.target pc hpc)

/-- The manager has no move to make after a command that is the last with one. -/
theorem Exclusive.not_driving (h : Exclusive s) (hmove : s.move = none) (hcalls : s.calls = c :: cs)
    (hc : c.isLast) : ¬{ s with calls := cs }.Driving := by
  have hlast := (lastMoves_cons.mp (hcalls ▸ h.calls)).1
  have hloop := h.loop (.inl (by simp [hcalls]))
  rintro (hdrive | hdrive | hdrive)
  · simp [hmove] at hdrive
  · obtain ⟨b, hb, hdrive⟩ := List.any_eq_true.mp hdrive
    simp [hlast b hb hc] at hdrive
  · simp [hloop] at hdrive

/-- The commands `new` in place of `c`, with the mode as it is. -/
theorem Exclusive.replace (h : Exclusive s) (hcalls : s.calls = c :: cs) (new : List TurnCmd)
    (hnew : LastMoves (new ++ cs)) (hdrives : c.drives ∨ new.any TurnCmd.drives = false) :
    Exclusive { s with calls := new ++ cs } := by
  have hloop := h.loop (.inl (by simp [hcalls]))
  refine ⟨fun hdrive => h.mode ?_, h.line, hnew, fun _ => hloop, h.target⟩
  rcases hdrive with hdrive | hdrive | hdrive
  · exact .inl hdrive
  · refine .inr (.inl ?_)
    rw [List.any_append, Bool.or_eq_true] at hdrive
    rw [hcalls, List.any_cons, Bool.or_eq_true]
    rcases hdrives with hdrives | hdrives
    · exact .inl hdrives
    · exact .inr (hdrive.resolve_left (by simp [hdrives]))
  · exact .inr (.inr hdrive)

/-- The write of `LINE_MODE` after the last move. -/
theorem Exclusive.release (h : Exclusive s) (hmove : s.move = none) (hcalls : s.calls = c :: cs)
    (hc : c.isLast) : Exclusive { s with rbmgMode := .line, calls := cs } := by
  have hloop := h.loop (.inl (by simp [hcalls]))
  have hdrive := h.not_driving hmove hcalls hc
  have hcs := (lastMoves_cons.mp (hcalls ▸ h.calls)).2
  exact ⟨fun hd => absurd hd hdrive, fun _ => by simp, hcs, fun _ => hloop, h.target⟩

/-- A command of `turn_actions`. -/
theorem Exclusive.execCmd (h : Exclusive s) (hmove : s.move = none) (hcalls : s.calls = c :: cs) :
    Exclusive (execCmd s cs c).1 := by
  obtain ⟨hlast, hcs⟩ := lastMoves_cons.mp (hcalls ▸ h.calls)
  cases c with
  | actionMode =>
    have haction : s.rbmgMode = .action := h.mode (.inr (.inl (by rw [hcalls]; rfl)))
    have := h.replace hcalls [] hcs (.inl rfl)
    exact ⟨fun _ => rfl, fun hline => absurd haction (h.line hline), this.calls, this.loop,
      this.target⟩
  | takeEnd =>
    have := h.release hmove hcalls rfl
    exact ⟨this.mode, this.line, this.calls, this.loop, this.target⟩
  | lineMode | putEnd => exact h.release hmove hcalls rfl
  | move d =>
    have haction : s.rbmgMode = .action := h.mode (.inr (.inl (by rw [hcalls]; rfl)))
    refine ⟨fun _ => haction, h.line, hcs, fun _ => h.loop (.inl (by simp [hcalls])), ?_⟩
    intro pc hpc
    obtain rfl := Option.some.inj hpc
    trivial
  | act a =>
    refine h.replace hcalls _ ?_ (.inl rfl)
    refine List.pairwise_append.mpr ⟨lastMoves_actBody _ a, hcs, fun _ _ b hb _ => ?_⟩
    exact hlast b hb rfl
  | sampleFlag =>
    rw [Robot.execCmd]
    split
    · exact h.replace hcalls [.sampleColor] (hcs.cons rfl) (.inr rfl)
    · exact h.replace hcalls [] hcs (.inr rfl)
  | deliver =>
    have := h.replace hcalls _ (.append_moves (allMoves_deliverMoves s.colorType) hcs) (.inl rfl)
    rw [Robot.execCmd]
    cases hcolor : s.colorType <;> rw [hcolor] at this <;>
      exact ⟨this.mode, this.line, this.calls, this.loop, this.target⟩
  | retreat =>
    exact h.replace hcalls _ (.append_moves (allMoves_retreatMoves s.colorType) hcs) (.inl rfl)
  | sampleColor | clear =>
    have := h.replace hcalls [] hcs (.inr rfl)
    exact ⟨this.mode, this.line, this.calls, this.loop, this.target⟩
  | switchTable a =>
    have := h.replace hcalls [] hcs (.inr rfl)
    cases a <;> exact ⟨this.mode, this.line, this.calls, this.loop, this.target⟩
  | finished => exact h.replace hcalls [.finished] (hcs.cons rfl) (.inr rfl)

theorem not_driving_idle (hmove : s.move = none) (hcalls : s.calls = []) {loop : HandlePc}
    (hloop : loop ≠ .nextDir) : ¬{ s with loop := loop }.Driving := by
  rintro (hdrive | hdrive | hdrive)
  · simp [hmove] at hdrive
  · simp [hcalls] at hdrive
  · exact absurd hdrive hloop

/-- A step of the loop that does not lead to `Path_get_next_dir`. -/
theorem Exclusive.idle (h : Exclusive s) (hmove : s.move = none) (hcalls : s.calls = [])
    (loop : HandlePc) (hloop : loop ≠ .nextDir) {mode : Mode}
    (hmode : s.line.inError → mode ≠ .action) :
    Exclusive { s with rbmgMode := mode, loop := loop } := by
  refine ⟨fun hdrive => absurd hdrive (not_driving_idle hmove hcalls hloop), hmode, h.calls, ?_,
    h.target⟩
  rintro (hne | hne)
  · exact absurd hcalls hne
  · simp [hmove] at hne

/-- The loop of `rbmg_handle`. -/
theorem Exclusive.rbmgHandle (h : Exclusive s) (hmove : s.move = none) (hcalls : s.calls = []) :
    Exclusive (rbmgHandle s s.loop).1 := by
  cases hloop : s.loop with
  | cabTest | waitFlag | waitColor | waitMode | cabMode | cabColor | lineTest =>
    exact h.idle hmove hcalls _ (by split <;> simp) h.line
  | waitOpen | cabLine | actionEnd => exact h.idle hmove hcalls _ (by simp) (by simp)
  | waitOpened =>
    have := h.idle hmove hcalls .waitClear (by simp) h.line
    exact ⟨this.mode, this.line, this.calls, this.loop, this.target⟩
  | waitClear =>
    have := h.idle hmove hcalls .waitMode (by simp) h.line
    exact ⟨this.mode, this.line, this.calls, this.loop, this.target⟩
  | actionTest =>
    rw [Robot.rbmgHandle]
    split
    · rename_i haction
      refine ⟨fun _ => haction, h.line, h.calls, ?_, h.target⟩
      rintro (hne | hne)
      · exact absurd hcalls hne
      · simp [hmove] at hne
    · exact h.idle hmove hcalls _ (by simp) h.line
  | nextDir =>
    have haction : s.rbmgMode = .action := h.mode (.inr (.inr hloop))
    rw [Robot.rbmgHandle]
    split
    · exact ⟨fun _ => haction, h.line, lastMoves_turnActions _ _, fun _ => rfl, h.target⟩
    · exact h

/-- The manager thread. -/
theorem Exclusive.managerStep (h : Exclusive s) (fl : FloatOps F) (nowpos : ChassisPos F) :
    Exclusive (managerStep fl nowpos s).1 := by
  rw [Robot.managerStep]
  split
  · exact h.actionRelativeMovementCar nowpos (by assumption)
  · exact h.execCmd (by assumption) (by assumption)
  · exact h.rbmgHandle (by assumption) (by assumption)

/-- While the line follower thread is behind the test of `rbmg_error_callback`, the manager is in
no move. -/
theorem Exclusive.move_eq_none (h : Exclusive s) (hline : s.line.inError) : s.move = none := by
  by_contra hmove
  exact h.line hline (h.mode (.inl (Option.isSome_iff_ne_none.mpr hmove)))

/-- Every step that meets the condition keeps the invariant. -/
theorem Exclusive.step {e : RbmgEv F} (h : Exclusive s) (hwaits : StepperWaits s e)
    (hstep : rbmgStep fl s e = some (s₁, l₁)) : Exclusive s₁ := by
  rcases rbmgStep_cases hstep with ⟨nowpos, rfl, hmanager⟩ | henv
  · have := h.managerStep fl nowpos
    rwa [hmanager] at this
  · cases henv with
    | skip => exact h
    | error x hmode => exact ⟨h.mode, fun _ => by simp [hmode], h.calls, h.loop, h.target⟩
    | special =>
      exact ⟨h.mode, fun hin => absurd hin (by simp [LinePc.inError]), h.calls, h.loop, h.target⟩
    | write ctrl line hline =>
      refine ⟨h.mode, fun _ => h.line hline, h.calls, h.loop, fun pc hpc => ?_⟩
      simp [h.move_eq_none hline] at hpc
    | publish hline => exact ⟨h.mode, fun _ => h.line hline, h.calls, h.loop, h.target⟩
    | action =>
      exact ⟨fun _ => rfl, fun hin => absurd hin (by simp [LinePc.inError]), h.calls, h.loop,
        h.target⟩
    | received byte => exact ⟨h.mode, h.line, h.calls, h.loop, h.target⟩
    | ready =>
      exact ⟨fun hdrive => absurd hdrive hwaits, fun _ => by simp, h.calls, h.loop, h.target⟩

/-! ## What the invariant says of a step -/

/-- A step of a move publishes positions only. -/
theorem actionRelativeMovementCar_calm (nowpos : ChassisPos F) {pc : MovePc}
    (h : pc.OnTarget s.ctrl s.goal) :
    ∀ o ∈ (actionRelativeMovementCar fl nowpos s pc).2, o.isCalm := by
  cases pc <;> simp [actionRelativeMovementCar, RbmgObs.isCalm]
  all_goals simp [h.1]

theorem Exclusive.undisturbed (h : Exclusive s) (e : RbmgEv F) : Undisturbed fl s e := by
  intro hmove
  obtain ⟨pc, hpc⟩ := Option.isSome_iff_exists.mp hmove
  have htarget := h.target pc hpc
  constructor
  · intro hawait
    rw [hpc, Option.any_some] at hawait
    cases pc with
    | await n => exact htarget.2
    | _ => simp [MovePc.isAwait] at hawait
  · rintro ⟨s₁, l₁⟩ hstep
    rcases rbmgStep_cases hstep with ⟨nowpos, rfl, hmanager⟩ | henv
    · rw [Robot.managerStep, hpc] at hmanager
      rw [← (Prod.mk.inj hmanager).2]
      exact actionRelativeMovementCar_calm nowpos htarget
    · cases henv with
      | write _ _ hline | publish hline => simp [h.move_eq_none hline] at hmove
      | _ => simp [RbmgObs.isCalm]

end Step

theorem rbmgInit_exclusive (fl : FloatOps F) : Exclusive (rbmgInit fl) := by
  refine ⟨?_, ?_, List.Pairwise.nil, ?_, ?_⟩ <;>
    simp [rbmgInit, RbmgState.Driving, LinePc.inError]

/-- The moves of a run are not disturbed, if the stepper thread does its write only while the
manager has no move to make. -/
theorem moves_undisturbed (fl : FloatOps F) (es : List (RbmgEv F))
    (hall : AllSteps (rbmgStep fl) StepperWaits (rbmgInit fl) es) :
    AllSteps (rbmgStep fl) (Undisturbed fl) (rbmgInit fl) es :=
  allSteps_of_inv (fun _ _ _ _ h hwaits hstep => h.step hwaits hstep)
    (fun _ e h _ => h.undisturbed e) (rbmgInit_exclusive fl) hall

/-- The arm is ready after the first `take_action`. -/
theorem moves_undisturbed_firstTake :
    (runLog (rbmgStep .exact) (rbmgInit .exact) (firstTakeRun none ++ [.armReady])).isSome ∧
    AllSteps (rbmgStep .exact) (Undisturbed .exact) (rbmgInit .exact)
      (firstTakeRun none ++ [.armReady]) :=
  ⟨by decide +kernel, moves_undisturbed _ _ (by decide +kernel)⟩

/-- The arm is ready while the manager is in its first move. -/
def disturbedRun : List (RbmgEv ℚ) :=
  openSteps ++ pointSteps ++ managerSteps 7 ++ [.armReady, .lineError 0.1] ++ List.replicate 5 .line

/-- The line follower thread writes `ctrl` in the first move and publishes a speed. -/
theorem move_disturbed :
    ¬AllSteps (rbmgStep .exact) (Undisturbed .exact) (rbmgInit .exact) disturbedRun ∧
    (runLog (rbmgStep .exact) (rbmgInit .exact) disturbedRun).map
      (fun r => (r.1.move, r.2.getLast?)) =
      some (some (.await 0), some (.publish .line ⟨0, 0, 0.25, 0.09⟩)) := by
  decide +kernel

end Robot
