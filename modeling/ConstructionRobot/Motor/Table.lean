import ConstructionRobot.Lib.Text
import ConstructionRobot.Motor.Basic

/-!
# The motor table behind the feedback calls and the shell (`motor.c`)

The ids of `motor_feedback_*` come from the drivers, those of `set_get_*` from a command line. Both
are compared with `MOTOR_NUM` as an `int`, so a negative one passes: `MOTOR_ASSERT_ID` and the
check that the shell functions repeat have no lower bound.

* `TableCall`: the six calls; `TableCall.id` is the id that a call is about, if it gets to one.
* `KeepsTo id f`: the call returns, and reads and writes no motor but `id`.
* `keepsTo_iff`: a call keeps to its motor exactly if its id is not negative.
* `tableCalls_frame`: so a run of such calls changes only the motors that it names.
-/

namespace Robot

variable {n : ℕ}

/-- `LOG_D`. -/
inductive MotorLog where
  | text (message : String)
  | value (format : String) (id : ℤ) (value : ℚ)
  deriving DecidableEq, Repr

/-- A value of a motor, behind `MOTOR_ASSERT`. -/
def motorRead (ml : MotorList n) (id : ℤ) (field : Motor → ℚ) : Call ℚ := do
  let i ← motorAssert id
  pure (field (ml i))

def motorGetTorque (ml : MotorList n) (id : ℤ) : Call ℚ := motorRead ml id Motor.curTorque

def motorGetSpeed (ml : MotorList n) (id : ℤ) : Call ℚ := motorRead ml id Motor.curSpeed

def motorGetPos (ml : MotorList n) (id : ℤ) : Call ℚ := motorRead ml id Motor.curPos

/-- The body of the three shell functions, with `argc` the length of `argv`. -/
def setGet (set : MotorList n → ℤ → ℚ → Call (MotorList n)) (get : MotorList n → ℤ → Call ℚ)
    (format : String) (atof : Text → ℚ) (argv : List Text) (ml : MotorList n) :
    Call (MotorList n × Option MotorLog) :=
  match argv with
  | _ :: _ :: idText :: args =>
    if atoi idText ≥ n then .ret (ml, some (.text "motor id error"))
    else
      match args with
      | valueText :: _ => do
        let ml ← set ml (atoi idText) (atof valueText)
        pure (ml, none)
      | [] => do
        let value ← get ml (atoi idText)
        pure (ml, some (.value format (atoi idText) value))
  | _ => .ret (ml, some (.text "motor id error"))

def setGetTorque (atof : Text → ℚ) (argv : List Text) (ml : MotorList n) :
    Call (MotorList n × Option MotorLog) :=
  setGet motorSetTorque motorGetTorque "motor id:%d torque:%f" atof argv ml

def setGetSpeed (atof : Text → ℚ) (argv : List Text) (ml : MotorList n) :
    Call (MotorList n × Option MotorLog) :=
  setGet motorSetSpeed motorGetSpeed "motor id:%d speed:%f" atof argv ml

def setGetPos (atof : Text → ℚ) (argv : List Text) (ml : MotorList n) :
    Call (MotorList n × Option MotorLog) :=
  setGet motorSetPos motorGetPos "motor id:%d pos:%f" atof argv ml

/-- The calls of the drivers and of the shell. -/
inductive TableCall where
  | feedbackTorque (id : ℤ) (value : ℚ)
  | feedbackSpeed (id : ℤ) (value : ℚ)
  | feedbackPos (id : ℤ) (value : ℚ)
  | setGetTorque (argv : List Text)
  | setGetSpeed (argv : List Text)
  | setGetPos (argv : List Text)
  deriving DecidableEq, Repr

namespace TableCall

/-- The table after a call, and what it printed. -/
def run (atof : Text → ℚ) (c : TableCall) (ml : MotorList n) :
    Call (MotorList n × Option MotorLog) :=
  match c with
  | feedbackTorque id value => do pure (← motorFeedbackTorque ml id value, none)
  | feedbackSpeed id value => do pure (← motorFeedbackSpeed ml id value, none)
  | feedbackPos id value => do pure (← motorFeedbackPos ml id value, none)
  | setGetTorque argv => Robot.setGetTorque atof argv ml
  | setGetSpeed argv => Robot.setGetSpeed atof argv ml
  | setGetPos argv => Robot.setGetPos atof argv ml

/-- The id that a call is about: that of the command line is its third word. -/
def id : TableCall → Option ℤ
  | feedbackTorque id _ | feedbackSpeed id _ | feedbackPos id _ => some id
  | setGetTorque argv | setGetSpeed argv | setGetPos argv => argv[2]?.map atoi

end TableCall

/-- The call returns, whatever is in the table. Of the table it reads and writes motor `id` alone:
the others stay as they are and have no influence. Without such a motor the table stays as it is. -/
structure KeepsTo (id : Option ℤ) (f : MotorList n → Call (MotorList n × Option MotorLog)) :
    Prop where
  returns : ∀ ml, ∃ r, f ml = .ret r
  writes : ∀ ml r, f ml = .ret r → ∀ i : Fin n, id ≠ some (i : ℤ) → r.1 i = ml i
  reads : ∀ ml ml' r r', f ml = .ret r → f ml' = .ret r' →
    (∀ i : Fin n, id = some (i : ℤ) → ml i = ml' i) →
    r.2 = r'.2 ∧ ∀ i : Fin n, id = some (i : ℤ) → r.1 i = r'.1 i
  outside : ∀ ml r, f ml = .ret r → (∀ i : Fin n, id ≠ some (i : ℤ)) → r.1 = ml

/-! ## Calls that keep to a motor -/

section Rules

variable {id : Option ℤ} {f : MotorList n → Call (MotorList n × Option MotorLog)}

/-- Nothing is read or written. -/
theorem keepsTo_of_ret {log : Option MotorLog} (hf : ∀ ml, f ml = .ret (ml, log)) :
    KeepsTo id f := by
  refine ⟨fun ml => ⟨_, hf ml⟩, ?_, ?_, ?_⟩
  · intro ml r h i _
    rw [hf] at h
    cases h
    rfl
  · intro ml ml' r r' h h' hagree
    rw [hf] at h h'
    cases h
    cases h'
    exact ⟨rfl, hagree⟩
  · intro ml r h _
    rw [hf] at h
    cases h
    rfl

/-- Motor `i` is read. -/
theorem keepsTo_of_read {i : Fin n} (log : Motor → Option MotorLog) (hid : id = some (i : ℤ))
    (hf : ∀ ml, f ml = .ret (ml, log (ml i))) : KeepsTo id f := by
  refine ⟨fun ml => ⟨_, hf ml⟩, ?_, ?_, ?_⟩
  · intro ml r h j _
    rw [hf] at h
    cases h
    rfl
  · intro ml ml' r r' h h' hagree
    rw [hf] at h h'
    cases h
    cases h'
    exact ⟨by rw [hagree i hid], hagree⟩
  · intro ml r h _
    rw [hf] at h
    cases h
    rfl

/-- Motor `i` is changed. -/
theorem keepsTo_of_modify {i : Fin n} {g : Motor → Motor} (hid : id = some (i : ℤ))
    (hf : ∀ ml, f ml = .ret (ml.modify i g, none)) : KeepsTo id f := by
  have hother : ∀ j : Fin n, id ≠ some (j : ℤ) → j ≠ i := by
    rintro j hj rfl
    exact hj hid
  refine ⟨fun ml => ⟨_, hf ml⟩, ?_, ?_, ?_⟩
  · intro ml r h j hj
    rw [hf] at h
    cases h
    exact ml.modify_ne g (hother j hj)
  · intro ml ml' r r' h h' hagree
    rw [hf] at h h'
    cases h
    cases h'
    refine ⟨rfl, ?_⟩
    intro j hj
    have hji : j = i := by
      rw [hid, Option.some.injEq] at hj
      exact Fin.ext (by omega)
    show ml.modify i g j = ml'.modify i g j
    rw [hji, MotorList.modify_same, MotorList.modify_same, hagree i hid]
  · intro ml r h hnone
    exact absurd hid (hnone i)

end Rules

/-! ## The ids -/

theorem motorGet_of_neg {id : ℤ} (h : id < 0) : motorGet id = (.fault : Call (Option (Fin n))) := by
  unfold motorGet
  rw [if_neg (by omega), dif_neg (by omega)]

theorem motorGet_of_le {id : ℤ} (h : n ≤ id) :
    motorGet id = (.ret none : Call (Option (Fin n))) := if_pos h

theorem motorGet_of_lt (i : Fin n) : motorGet (i : ℤ) = .ret (some i) := by
  have hi := i.isLt
  unfold motorGet
  rw [if_neg (by omega), dif_pos (by omega)]
  simp

theorem motorAssert_of_neg {id : ℤ} (h : id < 0) : motorAssert id = (.fault : Call (Fin n)) := by
  rw [motorAssert, motorGet_of_neg h]
  rfl

theorem motorAssert_of_lt (i : Fin n) : motorAssert (i : ℤ) = .ret i := motorAssert_eq_ret.mpr rfl

/-- An id that is not negative is too large or that of a motor. -/
theorem id_cases (n : ℕ) {id : ℤ} (h : 0 ≤ id) : n ≤ id ∨ ∃ i : Fin n, id = (i : ℤ) := by
  by_cases hn : n ≤ id
  · exact .inl hn
  · refine .inr ⟨⟨id.toNat, by omega⟩, ?_⟩
    simp only
    omega

/-! ## The six calls -/

section Feedback

variable {id : ℤ} {g : Motor → Motor}

theorem motorFeedback_keepsTo (h : 0 ≤ id) :
    KeepsTo (some id) (fun ml : MotorList n => do pure (← motorFeedback ml id g, none)) := by
  rcases id_cases n h with hlarge | ⟨i, rfl⟩
  · apply keepsTo_of_ret
    intro ml
    simp only [motorFeedback, motorIndex, motorGet_of_le hlarge, Call.ret_bind]
    rfl
  · apply keepsTo_of_modify rfl
    intro ml
    simp only [motorFeedback, motorIndex, motorGet_of_lt, Call.ret_bind]
    rfl

theorem motorFeedback_of_neg (h : id < 0) (ml : MotorList n) : motorFeedback ml id g = .fault := by
  simp only [motorFeedback, motorIndex, motorGet_of_neg h, Call.fault_bind]

end Feedback

section Shell

variable {set : MotorList n → ℤ → ℚ → Call (MotorList n)} {g : ℚ → Motor → Motor}
  {get : MotorList n → ℤ → Call ℚ} {field : Motor → ℚ} {format : String} {atof : Text → ℚ}
  {argv : List Text}
  (hset : ∀ ml id value, set ml id value = do
    let i ← motorAssert id
    pure (ml.modify i (g value)))
  (hget : ∀ ml id, get ml id = motorRead ml id field)

include hset hget

theorem setGet_keepsTo (h : ∀ id ∈ argv[2]?.map atoi, 0 ≤ id) :
    KeepsTo (argv[2]?.map atoi) (setGet set get format atof argv) := by
  match argv with
  | [] | [_] | [_, _] => exact keepsTo_of_ret fun ml => rfl
  | cmd :: opt :: idText :: args =>
    rcases id_cases n (h _ rfl) with hlarge | ⟨i, hi⟩
    · apply keepsTo_of_ret
      intro ml
      exact if_pos hlarge
    · have hn : ¬ (i : ℤ) ≥ n := by
        have := i.isLt
        omega
      cases args with
      | nil =>
        apply keepsTo_of_read (fun m => some (.value format i (field m))) (congrArg some hi)
        intro ml
        simp only [setGet, hi, if_neg hn, hget, motorRead, motorAssert_of_lt, Call.ret_bind,
          Call.pure_eq]
      | cons valueText args =>
        apply keepsTo_of_modify (congrArg some hi)
        intro ml
        simp only [setGet, hi, if_neg hn, hset, motorAssert_of_lt, Call.ret_bind, Call.pure_eq]
        rfl

theorem setGet_of_neg {id : ℤ} (hid : id ∈ argv[2]?.map atoi) (h : id < 0) (ml : MotorList n) :
    setGet set get format atof argv ml = .fault := by
  match argv with
  | [] | [_] | [_, _] => cases hid
  | cmd :: opt :: idText :: args =>
    cases hid
    have hn : ¬ atoi idText ≥ n := by omega
    cases args with
    | nil => simp only [setGet, if_neg hn, hget, motorRead, motorAssert_of_neg h, Call.fault_bind]
    | cons valueText args =>
      simp only [setGet, if_neg hn, hset, motorAssert_of_neg h, Call.fault_bind]

end Shell

namespace TableCall

variable {atof : Text → ℚ} {c : TableCall}

/-- A call with an id that is not negative keeps to its motor. -/
theorem keepsTo (h : ∀ id ∈ c.id, 0 ≤ id) :
    KeepsTo c.id (fun ml : MotorList n => c.run atof ml) := by
  cases c with
  | feedbackTorque id value => exact motorFeedback_keepsTo (h id rfl)
  | feedbackSpeed id value => exact motorFeedback_keepsTo (h id rfl)
  | feedbackPos id value => exact motorFeedback_keepsTo (h id rfl)
  | setGetTorque argv => exact setGet_keepsTo (fun _ _ _ => rfl) (fun _ _ => rfl) h
  | setGetSpeed argv => exact setGet_keepsTo (fun _ _ _ => rfl) (fun _ _ => rfl) h
  | setGetPos argv => exact setGet_keepsTo (fun _ _ _ => rfl) (fun _ _ => rfl) h

/-- A negative id leads to an address before the table. -/
theorem run_of_neg {id : ℤ} (hid : id ∈ c.id) (h : id < 0) (ml : MotorList n) :
    c.run atof ml = .fault := by
  have hfeedback : ∀ g, (do pure (← motorFeedback ml id g, none) :
      Call (MotorList n × Option MotorLog)) = .fault := by
    intro g
    rw [motorFeedback_of_neg h, Call.fault_bind]
  cases c with
  | feedbackTorque id' value =>
    cases hid
    exact hfeedback _
  | feedbackSpeed id' value =>
    cases hid
    exact hfeedback _
  | feedbackPos id' value =>
    cases hid
    exact hfeedback _
  | setGetTorque argv =>
    show setGet motorSetTorque motorGetTorque _ atof argv ml = .fault
    apply setGet_of_neg (fun _ _ _ => rfl) (fun _ _ => rfl) hid h
  | setGetSpeed argv =>
    show setGet motorSetSpeed motorGetSpeed _ atof argv ml = .fault
    apply setGet_of_neg (fun _ _ _ => rfl) (fun _ _ => rfl) hid h
  | setGetPos argv =>
    show setGet motorSetPos motorGetPos _ atof argv ml = .fault
    apply setGet_of_neg (fun _ _ _ => rfl) (fun _ _ => rfl) hid h

end TableCall

/-- Every call of the six, with any id and any words, keeps to its motor exactly if the id it gets
to, if any, is not negative. -/
theorem keepsTo_iff (n : ℕ) (atof : Text → ℚ) (c : TableCall) :
    KeepsTo c.id (fun ml : MotorList n => c.run atof ml) ↔ ∀ id ∈ c.id, 0 ≤ id := by
  refine ⟨?_, TableCall.keepsTo⟩
  intro h id hid
  by_contra hneg
  obtain ⟨r, hret⟩ := h.returns fun _ => .zero
  rw [TableCall.run_of_neg hid (not_le.mp hneg)] at hret
  cases hret

/-- `motor_feedback_speed(-1, 0)`, and `motor speed -1 5` in the shell. -/
theorem negative_ids_leave_table :
    ¬ (∀ id value, KeepsTo (some id)
        (fun ml : MotorList 8 => (TableCall.feedbackSpeed id value).run (fun _ => 0) ml)) ∧
      ¬ ∀ argv, KeepsTo (argv[2]?.map atoi)
        (fun ml : MotorList 8 => (TableCall.setGetSpeed argv).run (fun _ => 5) ml) := by
  constructor
  · intro h
    obtain ⟨r, hret⟩ := (h (-1) 0).returns fun _ => .zero
    cases hret
  · intro h
    obtain ⟨r, hret⟩ := (h [['m', 'o', 't', 'o', 'r'], ['s', 'p', 'e', 'e', 'd'], ['-', '1'],
      ['5']]).returns fun _ => .zero
    cases hret

/-! ## Runs -/

/-- One call after the other. -/
def tableCalls (atof : Text → ℚ) : List TableCall → MotorList n → Call (MotorList n)
  | [], ml => .ret ml
  | c :: cs, ml => do
    let (ml, _) ← c.run atof ml
    tableCalls atof cs ml

/-- A run of calls without negative ids returns, and changes only the motors that it names. -/
theorem tableCalls_frame {atof : Text → ℚ} {cs : List TableCall}
    (h : ∀ c ∈ cs, ∀ id ∈ c.id, 0 ≤ id) (ml : MotorList n) :
    ∃ ml', tableCalls atof cs ml = .ret ml' ∧
      ∀ i : Fin n, (∀ c ∈ cs, c.id ≠ some (i : ℤ)) → ml' i = ml i := by
  induction cs generalizing ml with
  | nil => exact ⟨ml, rfl, fun _ _ => rfl⟩
  | cons c cs ih =>
    have hkeeps : KeepsTo c.id (fun ml : MotorList n => c.run atof ml) :=
      TableCall.keepsTo (h c List.mem_cons_self)
    obtain ⟨⟨ml₁, log⟩, hc⟩ := hkeeps.returns ml
    obtain ⟨ml', hrun, hframe⟩ := ih (fun d hd => h d (List.mem_cons_of_mem c hd)) ml₁
    refine ⟨ml', ?_, ?_⟩
    · simp only [tableCalls]
      rw [hc]
      exact hrun
    · intro i hi
      rw [hframe i fun d hd => hi d (List.mem_cons_of_mem c hd)]
      exact hkeeps.writes ml _ hc i (hi c List.mem_cons_self)

end Robot
