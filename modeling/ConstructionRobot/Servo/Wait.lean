import ConstructionRobot.Servo.Balance

/-!
# Waiting for an angle

`FSUS_Wait` asks for the angle again and again, and looks at its local `angle_read` after each
query, whatever the status of the query was. A query that fails leaves the local alone, and before
the first query with success the local holds anything.

* `QueryOutcome`: an angle, or a failure. Every query is one of both (`queryAngle_outcome`).
* `fsusWaitTraced`: `FSUS_Wait` with the results of its queries (`waitLoop_eq_traced`).
* `WaitSound`: success comes from a query, and without one the result is `FSUS_STATUS_FAIL` after
  all rounds.
* `waitLoopTraced_sound`: from an angle that is too far away on, the loop is sound.
* `fsusWait_sound_iff`: it is sound exactly if the first query has success or the local is too far
  away at the start.
-/

namespace Robot

open Call

section Wait

variable {F : Type}

/-- How a query ends. -/
inductive QueryOutcome (F : Type) where
  | success (angle : F)
  | failed (status : FsusStatus) (h : status ≠ .success)

/-- The status, and `*angle` after the query; a failure leaves it as it was. -/
def QueryOutcome.result (angle : F) : QueryOutcome F → FsusStatus × F
  | .success got => (.success, got)
  | .failed status _ => (status, angle)

variable [CFloat F]

/-- The angle is in the dead area around the target, `FSUS_ANGLE_DEADAREA`. -/
def Near (target angle : F) : Prop := CFloat.distLe target angle (CFloat.ofRat 1) = true

instance (target angle : F) : Decidable (Near target angle) :=
  inferInstanceAs (Decidable (CFloat.distLe target angle (CFloat.ofRat 1) = true))

/-- `waitLoop`, with the results of the queries. -/
def waitLoopTraced (servoId : UInt8) (target : F) (isMturn : UInt8) :
    ℕ → F → ServoM (FsusStatus × List (FsusStatus × F))
  | 0, _ => pure (.fail, [])
  | n + 1, angle => do
    let r ← queryAngle isMturn servoId angle
    if CFloat.distLe target r.2 (CFloat.ofRat 1) then pure (.success, [r])
    else
      let (status, rs) ← waitLoopTraced servoId target isMturn n r.2
      pure (status, r :: rs)

/-- `FSUS_Wait`, with the results of its queries. -/
def fsusWaitTraced (angle₀ : F) (servoId : UInt8) (target : F) (isMturn : UInt8) :
    ServoM (FsusStatus × List (FsusStatus × F)) :=
  waitLoopTraced servoId target isMturn waitCountMax angle₀

/-- Each of the next `n` queries returns. -/
def QueriesReturn (isMturn servoId : UInt8) (angle₀ : F) : ℕ → ServoIo → Prop
  | 0, _ => True
  | n + 1, io => ∃ r io', queryAngle isMturn servoId angle₀ io = .ret (r, io') ∧
    QueriesReturn isMturn servoId angle₀ n io'

/-- A query with success gave an angle near the target. -/
def Arrived (target : F) (rs : List (FsusStatus × F)) : Prop :=
  ∃ r ∈ rs, r.1 = .success ∧ Near target r.2

/-- Success comes from a query; otherwise the wait fails, after all its `n` queries. -/
def WaitSound (target : F) (n : ℕ) (status : FsusStatus) (rs : List (FsusStatus × F)) : Prop :=
  (status = .success → Arrived target rs) ∧
    (¬Arrived target rs → status = .fail ∧ rs.length = n)

/-! ## One query -/

/-- An answer to a query of one turn. -/
theorem finish_outcome (servoId : UInt8) (pkg : Package) :
    ∃ o : QueryOutcome F, ∀ angle,
      (((FsusCall.queryServoAngle servoId).finish pkg).status,
        angleOf ((FsusCall.queryServoAngle servoId).finish pkg).value angle) = o.result angle := by
  simp only [FsusCall.finish]
  split
  · exact ⟨.failed .idNotMatch (by decide), fun _ => rfl⟩
  · exact ⟨.success _, fun _ => rfl⟩

/-- An answer of the right servo to a query of many turns. -/
theorem finish_outcome_mTurn {servoId : UInt8} {pkg : Package} (hid : pkg.servoId = servoId) :
    ∃ o : QueryOutcome F, ∀ angle,
      (((FsusCall.queryServoAngleMTurn servoId).finish pkg).status,
        angleOf ((FsusCall.queryServoAngleMTurn servoId).finish pkg).value angle) =
          o.result angle := by
  have hid : ¬pkg.content[0] ≠ servoId := not_not.mpr hid
  simp only [FsusCall.finish, if_neg hid]
  exact ⟨.success _, fun _ => rfl⟩

theorem fsusQueryServoAngle_outcome {servoId : UInt8} {angle : F} {io io' : ServoIo}
    {r : FsusStatus × F} (h : fsusQueryServoAngle servoId angle io = .ret (r, io')) :
    ∃ o : QueryOutcome F, ∀ angle,
      fsusQueryServoAngle servoId angle io = .ret (o.result angle, io') := by
  obtain ⟨got, io₁, h₁, h₂⟩ := stateT_bind_eq_ret.mp h
  cases got with
  | none =>
    cases h₂
    exact ⟨.failed .timeout (by decide), fun angle => stateT_bind_eq_ret.mpr ⟨_, _, h₁, rfl⟩⟩
  | some got =>
    obtain ⟨status, pkg⟩ := got
    by_cases hs : status = .success
    · simp only [hs, ↓reduceIte] at h₂
      cases h₂
      obtain ⟨o, ho⟩ := finish_outcome (F := F) servoId pkg
      refine ⟨o, fun angle => stateT_bind_eq_ret.mpr ⟨_, _, h₁, ?_⟩⟩
      simp only [hs, ↓reduceIte, ← ho]
      rfl
    · simp only [hs, ↓reduceIte] at h₂
      cases h₂
      refine ⟨.failed status hs, fun angle => stateT_bind_eq_ret.mpr ⟨_, _, h₁, ?_⟩⟩
      simp only [hs, ↓reduceIte]
      rfl

theorem fsusQueryServoAngleMTurn_outcome {servoId : UInt8} {angle : F} {io io' : ServoIo}
    {r : FsusStatus × F} (h : fsusQueryServoAngleMTurn servoId angle io = .ret (r, io')) :
    ∃ o : QueryOutcome F, ∀ angle,
      fsusQueryServoAngleMTurn servoId angle io = .ret (o.result angle, io') := by
  rcases fsusQueryServoAngleMTurn_cases h with
    ⟨-, -, hall⟩ | ⟨-, ⟨status, pkg⟩, io₂, -, -, rfl, hall⟩
  · exact ⟨.failed .timeout (by decide), hall⟩
  · simp only [hall, mTurnRest]
    by_cases hs : status = .success
    · by_cases hid : pkg.servoId ≠ servoId
      · simp only [if_pos hs, if_pos hid]
        exact ⟨.failed .idNotMatch (by decide), fun _ => rfl⟩
      · simp only [if_pos hs, if_neg hid]
        obtain ⟨o, ho⟩ := finish_outcome_mTurn (F := F) (not_not.mp hid)
        refine ⟨o, fun angle => ?_⟩
        rw [ho]
    · simp only [if_neg hs]
      exact ⟨.failed status hs, fun _ => rfl⟩

/-- Every query gives an angle or fails, whatever the local held. -/
theorem queryAngle_outcome {isMturn servoId : UInt8} {angle : F} {io io' : ServoIo}
    {r : FsusStatus × F} (h : queryAngle isMturn servoId angle io = .ret (r, io')) :
    ∃ o : QueryOutcome F, ∀ angle,
      queryAngle isMturn servoId angle io = .ret (o.result angle, io') := by
  unfold queryAngle at h ⊢
  split
  case isTrue hm => exact fsusQueryServoAngleMTurn_outcome (by rwa [if_pos hm] at h)
  case isFalse hm => exact fsusQueryServoAngle_outcome (by rwa [if_neg hm] at h)

/-! ## The loop -/

variable {servoId isMturn : UInt8} {target angle angle₀ : F} {io io' : ServoIo} {n : ℕ}

/-- The results are only written down. -/
theorem waitLoop_eq_traced (servoId isMturn : UInt8) (target : F) (n : ℕ) (angle : F)
    (io : ServoIo) :
    waitLoop servoId target isMturn n angle io =
      (waitLoopTraced servoId target isMturn n angle io >>= fun r => .ret (r.1.1, r.2)) := by
  induction n generalizing angle io with
  | zero => rfl
  | succ n ih =>
    show (queryAngle isMturn servoId angle io >>= fun r =>
        (if CFloat.distLe target r.1.2 (CFloat.ofRat 1) then pure .success
          else waitLoop servoId target isMturn n r.1.2 : ServoM FsusStatus) r.2) =
      (queryAngle isMturn servoId angle io >>= fun r =>
        (if CFloat.distLe target r.1.2 (CFloat.ofRat 1) then pure (.success, [r.1])
          else waitLoopTraced servoId target isMturn n r.1.2 >>= fun t =>
            pure (t.1, r.1 :: t.2) : ServoM (FsusStatus × List (FsusStatus × F))) r.2) >>=
        fun t => .ret (t.1.1, t.2)
    cases queryAngle isMturn servoId angle io with
    | ret r =>
      rw [ret_bind, ret_bind]
      split
      · rfl
      · rw [ih]
        show _ = (waitLoopTraced servoId target isMturn n r.1.2 r.2 >>= fun t =>
          .ret ((t.1.1, r.1 :: t.1.2), t.2)) >>= fun t => .ret (t.1.1, t.2)
        cases waitLoopTraced servoId target isMturn n r.1.2 r.2 <;> rfl
    | hang => rfl
    | fault => rfl

theorem fsusWait_of_traced {status : FsusStatus} {rs : List (FsusStatus × F)}
    (h : fsusWaitTraced angle₀ servoId target isMturn io = .ret ((status, rs), io')) :
    fsusWait angle₀ servoId target isMturn io = .ret (status, io') := by
  unfold fsusWaitTraced at h
  rw [fsusWait, waitLoop_eq_traced, h]
  rfl

/-- After a round that did not end the loop. -/
theorem waitLoopTraced_far {r : FsusStatus × F} {io₁ : ServoIo} {status : FsusStatus}
    {rs : List (FsusStatus × F)} (h₁ : queryAngle isMturn servoId angle io = .ret (r, io₁))
    (hr : ¬Near target r.2)
    (h₂ : waitLoopTraced servoId target isMturn n r.2 io₁ = .ret ((status, rs), io')) :
    waitLoopTraced servoId target isMturn (n + 1) angle io = .ret ((status, r :: rs), io') := by
  unfold Near at hr
  refine stateT_bind_eq_ret.mpr ⟨r, io₁, h₁, ?_⟩
  rw [if_neg hr]
  exact stateT_bind_eq_ret.mpr ⟨_, _, h₂, rfl⟩

theorem waitLoopTraced_near {r : FsusStatus × F} {io₁ : ServoIo}
    (h₁ : queryAngle isMturn servoId angle io = .ret (r, io₁)) (hr : Near target r.2) :
    waitLoopTraced servoId target isMturn (n + 1) angle io = .ret ((.success, [r]), io₁) := by
  unfold Near at hr
  refine stateT_bind_eq_ret.mpr ⟨r, io₁, h₁, ?_⟩
  rw [if_pos hr]
  rfl

/-- From an angle that is too far away on, success comes from a query: one that fails does not
change the angle. -/
theorem waitLoopTraced_sound (hq : QueriesReturn isMturn servoId angle₀ n io)
    (hfar : ¬Near target angle) :
    ∃ status rs io', waitLoopTraced servoId target isMturn n angle io = .ret ((status, rs), io') ∧
      ((status = .success ∧ Arrived target rs) ∨ (status = .fail ∧ rs.length = n)) := by
  induction n generalizing angle io with
  | zero => exact ⟨.fail, [], io, rfl, .inr ⟨rfl, rfl⟩⟩
  | succ n ih =>
    obtain ⟨r, io₁, hr, hrest⟩ := hq
    obtain ⟨o, ho⟩ := queryAngle_outcome hr
    by_cases hnear : Near target (o.result angle).2
    · refine ⟨_, _, _, waitLoopTraced_near (ho angle) hnear, .inl ⟨rfl, _, List.mem_cons_self, ?_,
        hnear⟩⟩
      cases o with
      | success got => rfl
      | failed status hs => exact absurd hnear hfar
    · obtain ⟨status, rs, io', hrun, hcase⟩ := ih hrest hnear
      refine ⟨status, _ :: rs, io', waitLoopTraced_far (ho angle) hnear hrun, ?_⟩
      rcases hcase with ⟨hs, r', hmem, hr'⟩ | ⟨hs, hlen⟩
      · exact .inl ⟨hs, r', List.mem_cons_of_mem _ hmem, hr'⟩
      · exact .inr ⟨hs, by rw [List.length_cons, hlen]⟩

/-- The first round decides. -/
theorem waitLoopTraced_sound_iff (target : F)
    (hq : QueriesReturn isMturn servoId angle₀ (n + 1) io) :
    ∃ status rs io',
      waitLoopTraced servoId target isMturn (n + 1) angle₀ io = .ret ((status, rs), io') ∧
      (WaitSound target (n + 1) status rs ↔
        (∃ got io₁, queryAngle isMturn servoId angle₀ io = .ret ((.success, got), io₁)) ∨
          ¬Near target angle₀) := by
  obtain ⟨r, io₁, hr, hrest⟩ := hq
  obtain ⟨o, ho⟩ := queryAngle_outcome hr
  by_cases hnear : Near target (o.result angle₀).2
  · refine ⟨_, _, _, waitLoopTraced_near (ho angle₀) hnear, ?_⟩
    cases o with
    | success got =>
      have harr : Arrived target [(FsusStatus.success, got)] :=
        ⟨_, List.mem_cons_self, rfl, hnear⟩
      exact iff_of_true ⟨fun _ => harr, fun hno => absurd harr hno⟩ (.inl ⟨got, io₁, ho angle₀⟩)
    | failed status hs =>
      -- the local was near before the query, and nothing arrived
      refine iff_of_false ?_ ?_
      · rintro ⟨hsound, -⟩
        obtain ⟨r', hmem, hsucc, -⟩ := hsound rfl
        rw [List.mem_singleton.mp hmem] at hsucc
        exact hs hsucc
      · rintro (⟨got, io₂, hgot⟩ | hfar)
        · rw [ho angle₀] at hgot
          cases hgot
          exact hs rfl
        · exact hfar hnear
  · obtain ⟨status, rs, io', hrun, hcase⟩ := waitLoopTraced_sound hrest hnear
    refine ⟨status, _ :: rs, io', waitLoopTraced_far (ho angle₀) hnear hrun,
      iff_of_true ?_ ?_⟩
    · rcases hcase with ⟨hs, r', hmem, hr'⟩ | ⟨hs, hlen⟩
      · have harr : Arrived target (o.result angle₀ :: rs) :=
          ⟨r', List.mem_cons_of_mem _ hmem, hr'⟩
        exact ⟨fun _ => harr, fun hno => absurd harr hno⟩
      · refine ⟨fun hsucc => ?_, fun _ => ⟨hs, by rw [List.length_cons, hlen]⟩⟩
        rw [hs] at hsucc
        exact absurd hsucc (by decide)
    · cases o with
      | success got => exact .inl ⟨got, io₁, ho angle₀⟩
      | failed status hs => exact .inr hnear

end Wait

/-- A wait whose queries all return does return. It is sound exactly if its first query has success
or the local is not near the target at the start. -/
theorem fsusWait_sound_iff {F : Type} [CFloat F] (angle₀ target : F) (servoId isMturn : UInt8)
    {io : ServoIo} (hq : QueriesReturn isMturn servoId angle₀ waitCountMax io) :
    ∃ status rs io',
      fsusWaitTraced angle₀ servoId target isMturn io = .ret ((status, rs), io') ∧
      fsusWait angle₀ servoId target isMturn io = .ret (status, io') ∧
      (WaitSound target waitCountMax status rs ↔
        (∃ got io₁, queryAngle isMturn servoId angle₀ io = .ret ((.success, got), io₁)) ∨
          ¬Near target angle₀) := by
  obtain ⟨status, rs, io', hrun, hiff⟩ := waitLoopTraced_sound_iff (n := 9999) target hq
  exact ⟨status, rs, io', hrun, fsusWait_of_traced hrun, hiff⟩

/-- A thread that never gets the mutex. -/
def lockedOut : ServoIo := { servoIdle [] with takes := Stream'.const false }

theorem lockedOut_query (servoId : UInt8) (angle : ℚ) :
    queryAngle 0 servoId angle lockedOut = .ret ((.timeout, angle), lockedOut) := rfl

theorem lockedOut_queriesReturn (servoId : UInt8) (angle : ℚ) (n : ℕ) :
    QueriesReturn 0 servoId angle n lockedOut := by
  induction n with
  | zero => trivial
  | succ n ih => exact ⟨_, _, lockedOut_query servoId angle, ih⟩

/-- The mutex is never taken and the local is 50 degrees away: the wait fails after all queries. -/
theorem fsusWait_sound_far :
    ∃ status rs io', fsusWaitTraced (50 : ℚ) 1 0 0 lockedOut = .ret ((status, rs), io') ∧
      WaitSound 0 waitCountMax status rs := by
  obtain ⟨status, rs, io', hrun, -, hiff⟩ :=
    fsusWait_sound_iff (50 : ℚ) 0 1 0 (lockedOut_queriesReturn 1 50 waitCountMax)
  exact ⟨status, rs, io', hrun, hiff.mpr (.inr (by decide +kernel))⟩

/-- The mutex is never taken and the local happens to hold the target: the wait has success after
one query, which timed out. -/
theorem wait_trusts_local :
    fsusWait (0 : ℚ) 1 0 0 lockedOut = .ret (.success, lockedOut) ∧
      fsusWaitTraced (0 : ℚ) 1 0 0 lockedOut =
        .ret ((.success, [(.timeout, 0)]), lockedOut) ∧
      ¬WaitSound (0 : ℚ) waitCountMax .success [(.timeout, 0)] := by
  have hrun : fsusWaitTraced (0 : ℚ) 1 0 0 lockedOut =
      .ret ((.success, [(.timeout, 0)]), lockedOut) :=
    waitLoopTraced_near (n := 9999) (lockedOut_query 1 0) (by decide +kernel)
  refine ⟨fsusWait_of_traced hrun, hrun, ?_⟩
  rintro ⟨hsound, -⟩
  obtain ⟨r, hmem, hsucc, -⟩ := hsound rfl
  rw [List.mem_singleton.mp hmem] at hsucc
  exact absurd hsucc (by decide)

end Robot
