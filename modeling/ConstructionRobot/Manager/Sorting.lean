import ConstructionRobot.Lib.Trace
import ConstructionRobot.Manager.Basic

/-!
# The colours (`robotmanager.c`, `color_com.c`)

`uart_rx_ind` keeps the last byte in `color[0]` and sets `color_flag`; the handshake and
`put_action` clear the flag; `take_action` classifies the byte if the flag is set; `put_action`
delivers to the place of the colour and counts it.

* `Sampled`: what entitles `put_action` to deliver to a place.
* `SortInv`: the invariant, in terms of the history. Before the first `take_action` reads a byte,
  `color_type` is the initial 0, which is `RED`.
* `sorted_of_firstSampled`: every delivery of a run is entitled to, if the first `take_action` finds
  a byte.
-/

namespace Robot

variable {F : Type}

/-- No byte is received, and `color_flag` is not cleared. -/
def RbmgObs.keepsByte : RbmgObs F → Bool
  | .received _ | .clear => false
  | _ => true

/-- `take_action` reads no byte, and `color_flag` is not cleared. -/
def RbmgObs.keepsSample : RbmgObs F → Bool
  | .sample | .clear => false
  | _ => true

/-- The current byte is `byte`, and it was received since `color_flag` was cleared. -/
def Fresh (log : List (RbmgObs F)) (byte : UInt8) : Prop :=
  ∃ before after, log = before ++ .received byte :: after ∧ ∀ o ∈ after, o.keepsByte

/-- `take_action` has read a byte of the colour `c` that was received since `color_flag` was
cleared, and the flag was not cleared since. -/
def Sampled (log : List (RbmgObs F)) (c : ColorType) : Prop :=
  ∃ before after byte, log = before ++ .sample :: after ∧ Fresh before byte ∧
    (∀ o ∈ after, o.keepsSample) ∧ c = classifyColor byte

/-- A colour with a place. -/
def ColorType.isBin : ColorType → Bool
  | .red | .blue | .yellow => true
  | _ => false

/-- A delivery to the place of the colour `c`. -/
def RbmgObs.isDeliver (c : ColorType) : RbmgObs F → Bool
  | .deliver c' => c' = c
  | _ => false

/-- The number of deliveries to the place of the colour `c`. -/
def delivered (c : ColorType) (log : List (RbmgObs F)) : ℕ := log.countP (RbmgObs.isDeliver c)

/-- Every delivery is one of an object whose colour was sampled, and the counters count the
deliveries. -/
structure Sorted (s : RbmgState F) (log : List (RbmgObs F)) : Prop where
  sampled : Guarded (fun before o => ∀ c, o = .deliver c → Sampled before c) log
  red : s.redCnt = UInt8.ofNat (delivered .red log)
  blue : s.blueCnt = UInt8.ofNat (delivered .blue log)
  yellow : s.yellowCnt = UInt8.ofNat (delivered .yellow log)

/-- The condition: the first `take_action` finds `color_flag` set. -/
def FirstSampled (s : RbmgState F) (e : RbmgEv F) : Prop :=
  match e with
  | .manager _ =>
    s.move = none → s.calls.head? = some .sampleFlag → s.takeCnt = 1 → s.colorFlag = true
  | _ => True

instance decidableFirstSampled (s : RbmgState F) (e : RbmgEv F) : Decidable (FirstSampled s e) :=
  match e with
  | .manager _ => inferInstanceAs (Decidable (_ → _))
  | .lineError _ | .specialPoint | .line | .colorByte _ | .armReady => isTrue trivial

/-! ## The history -/

section History

variable {log l : List (RbmgObs F)} {byte : UInt8} {c : ColorType} {s s₁ : RbmgState F}

theorem Fresh.append (h : Fresh log byte) (hl : ∀ o ∈ l, o.keepsByte) : Fresh (log ++ l) byte := by
  obtain ⟨before, after, rfl, hafter⟩ := h
  exact ⟨before, after ++ l, by simp, List.forall_mem_append.mpr ⟨hafter, hl⟩⟩

theorem fresh_received (log : List (RbmgObs F)) (byte : UInt8) :
    Fresh (log ++ [.received byte]) byte :=
  ⟨log, [], rfl, by simp⟩

theorem Sampled.append (h : Sampled log c) (hl : ∀ o ∈ l, o.keepsSample) :
    Sampled (log ++ l) c := by
  obtain ⟨before, after, byte, rfl, hfresh, hafter, hc⟩ := h
  exact ⟨before, after ++ l, byte, by simp, hfresh, List.forall_mem_append.mpr ⟨hafter, hl⟩, hc⟩

theorem Fresh.sampled (h : Fresh log byte) : Sampled (log ++ [.sample]) (classifyColor byte) :=
  ⟨log, [], byte, rfl, h, by simp, rfl⟩

/-- The counters are the same. -/
structure SameCounts (s s₁ : RbmgState F) : Prop where
  red : s₁.redCnt = s.redCnt
  blue : s₁.blueCnt = s.blueCnt
  yellow : s₁.yellowCnt = s.yellowCnt

/-- A step without a delivery. -/
theorem Sorted.append (h : Sorted s log) (hsame : SameCounts s s₁)
    (hl : ∀ o ∈ l, ∀ c, o ≠ .deliver c) : Sorted s₁ (log ++ l) := by
  have hcount : ∀ c, delivered c (log ++ l) = delivered c log := by
    intro c
    rw [delivered, delivered, List.countP_append, Nat.add_eq_left, List.countP_eq_zero]
    intro o ho hdeliver
    cases o with
    | deliver c' => exact hl _ ho c' rfl
    | _ => simp [RbmgObs.isDeliver] at hdeliver
  refine ⟨h.sampled.append fun o ho _ c hc => absurd hc (hl o ho c), ?_, ?_, ?_⟩
  · rw [hcount, hsame.red, h.red]
  · rw [hcount, hsame.blue, h.blue]
  · rw [hcount, hsame.yellow, h.yellow]

theorem delivered_concat (log : List (RbmgObs F)) (c c' : ColorType) :
    delivered c (log ++ [.deliver c']) = delivered c log + if c' = c then 1 else 0 := by
  rw [delivered, delivered, List.countP_append, List.countP_singleton]
  simp [RbmgObs.isDeliver]

/-- A delivery. -/
theorem Sorted.count (h : Sorted s log) (hc : c.isBin → Sampled log c) :
    Sorted (s.count c).1 (log ++ (s.count c).2) := by
  have hguard : c.isBin → Guarded (fun before o => ∀ c, o = .deliver c → Sampled before c)
      (log ++ [RbmgObs.deliver c]) := by
    intro hbin
    refine guarded_concat.mpr ⟨h.sampled, fun c' hc' => ?_⟩
    obtain rfl := RbmgObs.deliver.inj hc'
    exact hc hbin
  cases c with
  | none | idle => simpa [RbmgState.count] using h
  | red | blue | yellow =>
    refine ⟨hguard rfl, ?_, ?_, ?_⟩ <;>
      simp [RbmgState.count, delivered_concat, h.red, h.blue, h.yellow]

end History

/-! ## Where the manager is -/

/-- The handshake at the start. -/
def HandlePc.isOpening : HandlePc → Bool
  | .waitFlag | .waitColor | .waitOpen | .waitOpened | .waitClear | .waitMode | .cabMode
  | .cabColor | .cabLine => true
  | _ => false

/-- The commands `cs` are those of a turn, or of a `take_action` that has not read a byte. -/
def BeforeSample : List TurnCmd → Prop
  | [] => True
  | .actionMode :: cs => BeforeSample cs
  | .lineMode :: cs => BeforeSample cs
  | .move _ :: cs => BeforeSample cs
  | .act .take :: _ => True
  | .sampleFlag :: _ => True
  | .sampleColor :: _ => True
  | _ => False

/-- The first `take_action` has not read a byte. -/
structure Unsampled (s : RbmgState F) : Prop where
  takeCnt : s.takeCnt = 1
  thisTable : s.thisTable = .init
  calls : BeforeSample s.calls

/-- Where the manager is: the handshake is at the start only, and `take_action` reads a byte only
after it has seen the flag. -/
structure Control (s : RbmgState F) : Prop where
  opening : s.rbmgMode = .cab ∨ s.loop.isOpening →
    (s.loop = .cabTest ∨ s.loop.isOpening) ∧ s.calls = [] ∧ s.takeCnt = 1 ∧ s.thisTable = .init
  flag : s.calls.head? = some .sampleColor → s.colorFlag
  tail : .sampleColor ∉ s.calls.tail

section Step

variable {fl : FloatOps F} {s s₁ : RbmgState F} {l l₁ : List (RbmgObs F)} {c : TurnCmd}
  {cs : List TurnCmd}

theorem AllMoves.not_mem_sampleColor {ms : List TurnCmd} (h : AllMoves ms) : .sampleColor ∉ ms := by
  intro hmem
  obtain ⟨d, hd⟩ := h _ hmem
  cases hd

theorem actBody_not_mem_sampleColor (takeCnt : UInt8) (a : Act) :
    .sampleColor ∉ actBody takeCnt a := by
  cases a with
  | take =>
    have h₁ := (allMoves_takeApproach takeCnt).not_mem_sampleColor
    have h₂ := (allMoves_takeReturn takeCnt).not_mem_sampleColor
    simp [actBody, takeAction, h₁, h₂]
  | put => simp [actBody, putAction, TurnCmd.go]
  | approach => simp [actBody, TurnCmd.go]

theorem turnActions_not_mem_sampleColor (thisTable : TableId) (dir : Dir) :
    .sampleColor ∉ turnActions thisTable dir := by
  cases dir <;> cases thisTable <;> simp [turnActions, TurnCmd.go]

/-- The handshake is over when a command of `turn_actions` is next. -/
theorem Control.opened (h : Control s) (hcalls : s.calls = c :: cs) :
    s.rbmgMode ≠ .cab ∧ s.loop.isOpening = false := by
  constructor
  · intro hmode
    simpa [hcalls] using (h.opening (.inl hmode)).2.1
  · by_contra hloop
    simpa [hcalls] using (h.opening (.inr (by simpa using hloop))).2.1

/-- The commands `new` in place of `c`. -/
theorem Control.replace (h : Control s) (hcalls : s.calls = c :: cs) (new : List TurnCmd)
    (hnew : .sampleColor ∉ new) (hcs : s₁.calls = new ++ cs) (hloop : s₁.loop = s.loop)
    (hmode : s₁.rbmgMode = s.rbmgMode ∨ s₁.rbmgMode ≠ .cab) : Control s₁ := by
  obtain ⟨hcab, hopen⟩ := h.opened hcalls
  have htail : .sampleColor ∉ cs := by simpa [hcalls] using h.tail
  have hmem : .sampleColor ∉ s₁.calls := by simp [hcs, hnew, htail]
  refine ⟨?_, fun hhead => absurd (List.mem_of_mem_head? hhead) hmem,
    fun hm => hmem (List.mem_of_mem_tail hm)⟩
  rintro (hm | ho)
  · rcases hmode with hmode | hmode
    · exact absurd (hmode ▸ hm) hcab
    · exact absurd hm hmode
  · simp [hloop, hopen] at ho

theorem Control.execCmd (h : Control s) (hcalls : s.calls = c :: cs) :
    Control (execCmd s cs c).1 := by
  cases c with
  | actionMode | lineMode | takeEnd | putEnd =>
    exact h.replace hcalls [] (by simp) rfl rfl (.inr (by simp [Robot.execCmd]))
  | move | sampleColor | clear =>
    exact h.replace hcalls [] (by simp) rfl rfl (.inl rfl)
  | act a => exact h.replace hcalls _ (actBody_not_mem_sampleColor _ a) rfl rfl (.inl rfl)
  | sampleFlag =>
    obtain ⟨hcab, hopen⟩ := h.opened hcalls
    have htail : .sampleColor ∉ cs := by simpa [hcalls] using h.tail
    rw [Robot.execCmd]
    by_cases hflag : s.colorFlag
    · refine ⟨?_, fun _ => hflag, by simpa [hflag] using htail⟩
      rintro (hm | ho)
      · exact absurd hm hcab
      · simp [hopen] at ho
    · exact h.replace hcalls [] (by simp) (by simp [hflag]) rfl (.inl rfl)
  | deliver =>
    have hmoves := (allMoves_deliverMoves s.colorType).not_mem_sampleColor
    rw [Robot.execCmd]
    cases hcolor : s.colorType <;> rw [hcolor] at hmoves <;>
      exact h.replace hcalls _ hmoves rfl rfl (.inl rfl)
  | retreat =>
    exact h.replace hcalls _ (allMoves_retreatMoves s.colorType).not_mem_sampleColor rfl rfl
      (.inl rfl)
  | switchTable a =>
    cases a <;> exact h.replace hcalls [] (by simp) rfl rfl (.inl rfl)
  | finished => exact h.replace hcalls [.finished] (by simp) rfl rfl (.inl rfl)

/-- A step of the loop without a call. -/
theorem Control.idle (hcalls : s₁.calls = [])
    (hopening : s₁.rbmgMode = .cab ∨ s₁.loop.isOpening →
      (s₁.loop = .cabTest ∨ s₁.loop.isOpening) ∧ s₁.takeCnt = 1 ∧ s₁.thisTable = .init) :
    Control s₁ := by
  refine ⟨fun hopen => ?_, by simp [hcalls], by simp [hcalls]⟩
  obtain ⟨hloop, htake, htable⟩ := hopening hopen
  exact ⟨hloop, hcalls, htake, htable⟩

theorem Control.rbmgHandle (h : Control s) (hcalls : s.calls = []) :
    Control (rbmgHandle s s.loop).1 := by
  -- in `CAB_MODE` the loop is at its beginning or in the handshake
  have hcab : s.rbmgMode = .cab → s.loop = .cabTest ∨ s.loop.isOpening :=
    fun hmode => (h.opening (.inl hmode)).1
  cases hloop : s.loop with
  | cabTest =>
    by_cases hmode : s.rbmgMode = .cab
    · obtain ⟨-, -, htake, htable⟩ := h.opening (.inl hmode)
      exact .idle hcalls fun _ => ⟨by simp [Robot.rbmgHandle, hmode, HandlePc.isOpening], htake,
        htable⟩
    · refine .idle hcalls fun hopen => ?_
      simp [Robot.rbmgHandle, hmode, HandlePc.isOpening] at hopen
  | waitFlag | waitColor | waitMode | cabMode | cabColor =>
    obtain ⟨-, -, htake, htable⟩ := h.opening (.inr (by rw [hloop]; rfl))
    refine .idle hcalls fun _ => ⟨?_, htake, htable⟩
    simp only [Robot.rbmgHandle]
    split <;> simp [HandlePc.isOpening]
  | waitOpen | waitOpened | waitClear | cabLine =>
    obtain ⟨-, -, htake, htable⟩ := h.opening (.inr (by rw [hloop]; rfl))
    exact .idle hcalls fun _ => ⟨.inr rfl, htake, htable⟩
  | lineTest | actionTest =>
    have hmode : s.rbmgMode ≠ .cab := fun hm => by simpa [hloop, HandlePc.isOpening] using hcab hm
    refine .idle hcalls fun hopen => ?_
    simp only [Robot.rbmgHandle, hmode, false_or] at hopen
    split at hopen <;> simp [HandlePc.isOpening] at hopen
  | actionEnd =>
    refine .idle hcalls fun hopen => ?_
    simp [Robot.rbmgHandle, HandlePc.isOpening] at hopen
  | nextDir =>
    have hmode : s.rbmgMode ≠ .cab := fun hm => by simpa [hloop, HandlePc.isOpening] using hcab hm
    rw [Robot.rbmgHandle]
    split
    · rename_i dir table _
      have hmem := turnActions_not_mem_sampleColor s.thisTable dir
      refine ⟨?_, fun hhead => absurd (List.mem_of_mem_head? hhead) hmem,
        fun hm => hmem (List.mem_of_mem_tail hm)⟩
      rintro (hm | ho)
      · exact absurd hm hmode
      · simp [HandlePc.isOpening] at ho
    · exact h

theorem Control.managerStep (h : Control s) (fl : FloatOps F) (nowpos : ChassisPos F) :
    Control (managerStep fl nowpos s).1 := by
  rw [Robot.managerStep]
  split
  · rename_i pc _
    cases pc <;> exact ⟨h.opening, h.flag, h.tail⟩
  · exact h.execCmd (by assumption)
  · exact h.rbmgHandle (by assumption)

theorem Control.step {e : RbmgEv F} (h : Control s) (hstep : rbmgStep fl s e = some (s₁, l₁)) :
    Control s₁ := by
  rcases rbmgStep_cases hstep with ⟨nowpos, rfl, hmanager⟩ | henv
  · have := h.managerStep fl nowpos
    rwa [hmanager] at this
  · cases henv with
    | received byte => exact ⟨h.opening, fun _ => rfl, h.tail⟩
    | action | ready =>
      exact ⟨fun hopen => h.opening (.inr (hopen.resolve_left (by simp))), h.flag, h.tail⟩
    | _ => exact ⟨h.opening, h.flag, h.tail⟩

end Step

/-! ## The invariant -/

/-- The invariant. -/
structure SortInv (s : RbmgState F) (log : List (RbmgObs F)) : Prop where
  sorted : Sorted s log
  fresh : s.colorFlag → Fresh log s.color
  bin : (s.colorType.isBin → Sampled log s.colorType) ∨ Unsampled s
  control : Control s

/-- Neither a byte nor a delivery, and nothing happens to `color_flag`. -/
def RbmgObs.isQuiet : RbmgObs F → Bool
  | .received _ | .clear | .sample | .deliver _ => false
  | _ => true

section Inv

variable {fl : FloatOps F} {s s₁ : RbmgState F} {log l₁ : List (RbmgObs F)} {c : TurnCmd}
  {cs : List TurnCmd}

/-- A step that leaves the colours as they are. -/
theorem SortInv.carry (h : SortInv s log) (hcontrol : Control s₁) (hsorted : Sorted s₁ (log ++ l₁))
    (hcolor : s₁.color = s.color) (hflag : s₁.colorFlag = s.colorFlag)
    (htype : s₁.colorType = s.colorType) (hbyte : ∀ o ∈ l₁, o.keepsByte)
    (hsample : ∀ o ∈ l₁, o.keepsSample) (hun : Unsampled s → Unsampled s₁) :
    SortInv s₁ (log ++ l₁) := by
  refine ⟨hsorted, ?_, ?_, hcontrol⟩
  · rw [hflag, hcolor]
    exact fun hf => (h.fresh hf).append hbyte
  · rw [htype]
    exact h.bin.imp (fun hs hbin => (hs hbin).append hsample) hun

/-- The colours and the counters are the same. -/
structure SameColors (s s₁ : RbmgState F) : Prop extends SameCounts s s₁ where
  color : s₁.color = s.color
  colorFlag : s₁.colorFlag = s.colorFlag
  colorType : s₁.colorType = s.colorType

/-- A step that shows nothing about the colours. -/
theorem SortInv.quiet (h : SortInv s log) (hcontrol : Control s₁) (hsame : SameColors s s₁)
    (hquiet : ∀ o ∈ l₁, o.isQuiet) (hun : Unsampled s → Unsampled s₁) :
    SortInv s₁ (log ++ l₁) := by
  refine h.carry hcontrol (h.sorted.append hsame.toSameCounts ?_) hsame.color hsame.colorFlag
    hsame.colorType ?_ ?_ hun <;> intro o ho <;> have := hquiet o ho
  · rintro c rfl
    simp [RbmgObs.isQuiet] at this
  · cases o <;> simp_all [RbmgObs.isQuiet, RbmgObs.keepsByte]
  · cases o <;> simp_all [RbmgObs.isQuiet, RbmgObs.keepsSample]

theorem beforeSample_append_moves {ms : List TurnCmd} (hm : AllMoves ms) :
    BeforeSample (ms ++ cs) ↔ BeforeSample cs := by
  induction ms with
  | nil => rfl
  | cons c ms ih =>
    obtain ⟨⟨d, rfl⟩, hms⟩ := allMoves_cons.mp hm
    exact ih hms

theorem beforeSample_takeAction (takeCnt : UInt8) (cs : List TurnCmd) :
    BeforeSample (takeAction takeCnt ++ cs) := by
  rw [takeAction, List.append_assoc, List.append_assoc,
    beforeSample_append_moves (allMoves_takeApproach takeCnt)]
  trivial

theorem beforeSample_turnActions (dir : Dir) : BeforeSample (turnActions .init dir) := by
  cases dir <;> trivial

theorem count_colors (s : RbmgState F) (c : ColorType) : (s.count c).1.color = s.color ∧
    (s.count c).1.colorFlag = s.colorFlag ∧ (s.count c).1.colorType = s.colorType := by
  cases c <;> exact ⟨rfl, rfl, rfl⟩

theorem count_keeps (s : RbmgState F) (c : ColorType) :
    ∀ o ∈ (s.count c).2, o.keepsByte ∧ o.keepsSample := by
  cases c <;> simp [RbmgState.count, RbmgObs.keepsByte, RbmgObs.keepsSample]

/-- A command of `turn_actions`. -/
theorem SortInv.execCmd (h : SortInv s log) (hcalls : s.calls = c :: cs)
    (hfirst : c = .sampleFlag → s.takeCnt = 1 → s.colorFlag = true) :
    SortInv (execCmd s cs c).1 (log ++ (execCmd s cs c).2) := by
  have hcontrol := h.control.execCmd hcalls
  -- the commands behind the reading of the byte
  have hnot : ¬BeforeSample (c :: cs) → ¬Unsampled s := fun hb hu => hb (hcalls ▸ hu.calls)
  cases c with
  | actionMode | lineMode | move =>
    refine h.quiet hcontrol ⟨⟨rfl, rfl, rfl⟩, rfl, rfl, rfl⟩ (by simp [Robot.execCmd]) fun hu => ?_
    have := hu.calls
    rw [hcalls] at this
    exact ⟨hu.takeCnt, hu.thisTable, this⟩
  | act a =>
    refine h.quiet hcontrol ⟨⟨rfl, rfl, rfl⟩, rfl, rfl, rfl⟩
      (by simp [Robot.execCmd, RbmgObs.isQuiet]) fun hu => ?_
    cases a with
    | take => exact ⟨hu.takeCnt, hu.thisTable, beforeSample_takeAction _ _⟩
    | put | approach => exact absurd hu (hnot (by simp [BeforeSample]))
  | sampleFlag =>
    refine h.quiet hcontrol ⟨⟨rfl, rfl, rfl⟩, rfl, rfl, rfl⟩ (by simp [Robot.execCmd]) fun hu => ?_
    refine ⟨hu.takeCnt, hu.thisTable, ?_⟩
    simp only [Robot.execCmd, hfirst rfl hu.takeCnt, ↓reduceIte]
    trivial
  | sampleColor =>
    have hflag := h.control.flag (by rw [hcalls]; rfl)
    have hsorted : Sorted (Robot.execCmd s cs .sampleColor).1 (log ++ [.sample]) :=
      h.sorted.append ⟨rfl, rfl, rfl⟩ (by simp)
    refine ⟨hsorted, fun _ => ?_, .inl fun _ => (h.fresh hflag).sampled, hcontrol⟩
    exact (h.fresh hflag).append (by simp [Robot.execCmd, RbmgObs.keepsByte])
  | takeEnd | retreat | putEnd | finished =>
    exact h.quiet hcontrol ⟨⟨rfl, rfl, rfl⟩, rfl, rfl, rfl⟩
      (by simp [Robot.execCmd, RbmgObs.isQuiet])
      fun hu => absurd hu (hnot (by simp [BeforeSample]))
  | switchTable a =>
    cases a <;> exact h.quiet hcontrol ⟨⟨rfl, rfl, rfl⟩, rfl, rfl, rfl⟩ (by simp [Robot.execCmd])
      fun hu => absurd hu (hnot (by simp [BeforeSample]))
  | deliver =>
    have hbin := h.bin.resolve_right (hnot (by simp [BeforeSample]))
    have hsorted : Sorted { s with calls := deliverMoves s.colorType ++ cs } log :=
      ⟨h.sorted.sampled, h.sorted.red, h.sorted.blue, h.sorted.yellow⟩
    obtain ⟨hcolor, hflag, htype⟩ :=
      count_colors { s with calls := deliverMoves s.colorType ++ cs } s.colorType
    have hkeeps := count_keeps { s with calls := deliverMoves s.colorType ++ cs } s.colorType
    exact h.carry hcontrol (hsorted.count hbin) hcolor hflag htype (fun o ho => (hkeeps o ho).1)
      (fun o ho => (hkeeps o ho).2) fun hu => absurd hu (hnot (by simp [BeforeSample]))
  | clear =>
    have hsorted : Sorted (Robot.execCmd s cs .clear).1 (log ++ [.clear]) :=
      h.sorted.append ⟨rfl, rfl, rfl⟩ (by simp)
    exact ⟨hsorted, fun hflag => by simp [Robot.execCmd] at hflag, .inl fun hbin => by
      simp [Robot.execCmd, ColorType.isBin] at hbin, hcontrol⟩

/-- `color_flag=0` in the handshake. -/
theorem SortInv.openingClear (h : SortInv s log) (hcontrol : Control s₁)
    (hopening : s.loop.isOpening) (hcounts : SameCounts s s₁) (hflag : s₁.colorFlag = false)
    (htakeCnt : s₁.takeCnt = s.takeCnt) (hthisTable : s₁.thisTable = s.thisTable)
    (hcalls : s₁.calls = s.calls) : SortInv s₁ (log ++ [.clear]) := by
  obtain ⟨-, hnil, htake, htable⟩ := h.control.opening (.inr hopening)
  refine ⟨h.sorted.append hcounts (by simp), fun hf => ?_, .inr ⟨?_, ?_, ?_⟩, hcontrol⟩
  · simp [hflag] at hf
  · rw [htakeCnt, htake]
  · rw [hthisTable, htable]
  · rw [hcalls, hnil]
    trivial

/-- The loop of `rbmg_handle`. -/
theorem SortInv.rbmgHandle (h : SortInv s log) (hcalls : s.calls = []) :
    SortInv (rbmgHandle s s.loop).1 (log ++ (rbmgHandle s s.loop).2) := by
  have hcontrol := h.control.rbmgHandle hcalls
  cases hloop : s.loop with
  | waitOpened | waitClear =>
    rw [hloop] at hcontrol
    exact h.openingClear hcontrol (by rw [hloop]; rfl) ⟨rfl, rfl, rfl⟩ rfl rfl rfl rfl
  | nextDir =>
    rw [hloop] at hcontrol
    rw [Robot.rbmgHandle] at hcontrol ⊢
    split at hcontrol
    · refine h.quiet hcontrol ⟨⟨rfl, rfl, rfl⟩, rfl, rfl, rfl⟩ (by simp [RbmgObs.isQuiet])
        fun hu => ⟨hu.takeCnt, hu.thisTable, ?_⟩
      rw [hu.thisTable]
      exact beforeSample_turnActions _
    · exact h.quiet hcontrol ⟨⟨rfl, rfl, rfl⟩, rfl, rfl, rfl⟩ (by simp [RbmgObs.isQuiet]) id
  | _ =>
    rw [hloop] at hcontrol
    exact h.quiet hcontrol ⟨⟨rfl, rfl, rfl⟩, rfl, rfl, rfl⟩ (by simp [Robot.rbmgHandle])
      fun hu => ⟨hu.takeCnt, hu.thisTable, hu.calls⟩

/-- The manager thread. -/
theorem SortInv.managerStep (h : SortInv s log) (fl : FloatOps F) (nowpos : ChassisPos F)
    (hfirst : FirstSampled s (.manager nowpos)) :
    SortInv (managerStep fl nowpos s).1 (log ++ (managerStep fl nowpos s).2) := by
  have hcontrol := h.control.managerStep fl nowpos
  rw [Robot.managerStep] at hcontrol ⊢
  split at hcontrol
  · rename_i pc _
    refine h.quiet hcontrol ?_ ?_ ?_
    · cases pc <;> exact ⟨⟨rfl, rfl, rfl⟩, rfl, rfl, rfl⟩
    · cases pc <;> simp [actionRelativeMovementCar, RbmgObs.isQuiet]
    · cases pc <;> exact fun hu => ⟨hu.takeCnt, hu.thisTable, hu.calls⟩
  · rename_i hmove hcalls
    exact h.execCmd hcalls fun hc => hfirst hmove (by rw [hcalls, hc]; rfl)
  · rename_i hcalls
    exact h.rbmgHandle hcalls

/-- Every step that meets the condition keeps the invariant. -/
theorem SortInv.step {e : RbmgEv F} (h : SortInv s log) (hfirst : FirstSampled s e)
    (hstep : rbmgStep fl s e = some (s₁, l₁)) : SortInv s₁ (log ++ l₁) := by
  have hcontrol := h.control.step hstep
  rcases rbmgStep_cases hstep with ⟨nowpos, rfl, hmanager⟩ | henv
  · have := h.managerStep fl nowpos hfirst
    rwa [hmanager] at this
  · cases henv with
    | received byte =>
      refine ⟨h.sorted.append ⟨rfl, rfl, rfl⟩ (by simp), fun _ => fresh_received log byte, ?_,
        hcontrol⟩
      exact h.bin.imp (fun hs hbin => (hs hbin).append (by simp [RbmgObs.keepsSample]))
        fun hu => ⟨hu.takeCnt, hu.thisTable, hu.calls⟩
    | _ =>
      exact h.quiet hcontrol ⟨⟨rfl, rfl, rfl⟩, rfl, rfl, rfl⟩ (by simp [RbmgObs.isQuiet])
        fun hu => ⟨hu.takeCnt, hu.thisTable, hu.calls⟩

end Inv

theorem rbmgInit_control (fl : FloatOps F) : Control (rbmgInit fl) :=
  ⟨fun _ => ⟨.inl rfl, rfl, rfl, rfl⟩, by simp [rbmgInit], by simp [rbmgInit]⟩

theorem rbmgInit_sortInv (fl : FloatOps F) : SortInv (rbmgInit fl) [] :=
  ⟨⟨guarded_nil, rfl, rfl, rfl⟩, by simp [rbmgInit], .inr ⟨rfl, rfl, trivial⟩, rbmgInit_control fl⟩

/-- Every delivery of a run is one of an object whose colour was sampled, if the first
`take_action` finds a byte. -/
theorem sorted_of_firstSampled {fl : FloatOps F} {es : List (RbmgEv F)} {s : RbmgState F}
    {l : List (RbmgObs F)} (hall : AllSteps (rbmgStep fl) FirstSampled (rbmgInit fl) es)
    (hrun : runLog (rbmgStep fl) (rbmgInit fl) es = some (s, l)) : Sorted s l := by
  have hinv : SortInv s ([] ++ l) := runLog_history
    (fun _ _ _ _ _ h hfirst hstep => SortInv.step h hfirst hstep) (rbmgInit_sortInv fl) hall hrun
  exact hinv.sorted

/-- A blue object. -/
theorem sorted_of_firstSampled_blue : ∃ s l,
    runLog (rbmgStep .exact) (rbmgInit .exact) (firstPutRun (some 98)) = some (s, l) ∧
    s.blueCnt = 1 ∧ Sorted s l := by
  have hblue : (runLog (rbmgStep .exact) (rbmgInit .exact) (firstPutRun (some 98))).map
      (·.1.blueCnt) = some 1 := by decide +kernel
  obtain ⟨⟨s, l⟩, hrun, hcnt⟩ := Option.map_eq_some_iff.mp hblue
  exact ⟨s, l, hrun, hcnt, sorted_of_firstSampled (by decide +kernel) hrun⟩

theorem Sampled.mem {log : List (RbmgObs F)} {c : ColorType} (h : Sampled log c) :
    .sample ∈ log := by
  obtain ⟨before, after, _, rfl, -⟩ := h
  simp

/-- No colour byte follows the one of the handshake: the first `put_action` delivers a red
object. -/
theorem unsampled_delivery : ∃ s l,
    runLog (rbmgStep .exact) (rbmgInit .exact) (firstPutRun none) = some (s, l) ∧
    s.redCnt = 1 ∧ .sample ∉ l ∧ ¬Sorted s l := by
  have hred : (runLog (rbmgStep .exact) (rbmgInit .exact) (firstPutRun none)).map
      (fun r => (r.1.redCnt, decide (.sample ∈ r.2), r.2.getLast?)) =
      some (1, false, some (.deliver .red)) := by decide +kernel
  obtain ⟨⟨s, l⟩, hrun, hl⟩ := Option.map_eq_some_iff.mp hred
  simp only [Prod.mk.injEq, decide_eq_false_iff_not] at hl
  obtain ⟨hcnt, hsample, hlast⟩ := hl
  refine ⟨s, l, hrun, hcnt, hsample, fun hsorted => ?_⟩
  obtain ⟨before, rfl⟩ := List.getLast?_eq_some_iff.mp hlast
  have := hsorted.sampled before (.deliver .red) [] rfl .red rfl
  exact hsample (List.mem_append_left _ this.mem)

end Robot
