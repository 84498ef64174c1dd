import ConstructionRobot.Lib.Feed

/-!
# Posture frames (`drv_action.c`)

The positioning module sends frames of 24 bytes, `0d 0a` in front and `0a 0d` behind them.
`Data_Analyse` is called with one byte after the other and keeps its place in `count` and `i`;
`dbus_uart_rx_ind` calls it for the bytes that the driver has buffered.

* The six floats are 32-bit words: they are copied from the union `posture` and never computed
  with.
* The log has the index of every write to `posture.date` and every assignment of the six globals.
* `Parsed`: which bytes at the end of those that were read lead to the state.
* `dataAnalyse_parsed` is one byte, `feed_frame` one frame, `uartRun_eq` any split of the bytes into
  indications.
* `posture_frames_decoded`: the writes stay in bounds, only frames are decoded, and all frames are.
-/

namespace Robot

open Traced

/-- The globals that are set from a frame. -/
structure Posture where
  zangle : UInt32
  xangle : UInt32
  yangle : UInt32
  posX : UInt32
  posY : UInt32
  wZ : UInt32
  deriving DecidableEq, Repr

inductive ActionEvent where
  /-- A write to `posture.date[i]`. -/
  | write (i : ℕ)
  /-- The six globals are set. -/
  | assign (p : Posture)
  deriving DecidableEq, Repr

/-- The static variables of `Data_Analyse`, and the globals. -/
structure ActionState where
  ch : UInt8
  date : Vector UInt8 24
  count : UInt8
  i : UInt8
  globals : Posture
  deriving DecidableEq, Repr

/-- Four bytes of the union, read as one word. -/
def leWord (b₀ b₁ b₂ b₃ : UInt8) : UInt32 :=
  b₀.toUInt32 ||| b₁.toUInt32 <<< 8 ||| b₂.toUInt32 <<< 16 ||| b₃.toUInt32 <<< 24

/-- `posture.ActVal`, as it is given to the globals. -/
def actVal (d : Vector UInt8 24) : Posture where
  zangle := leWord d[0] d[1] d[2] d[3]
  xangle := leWord d[4] d[5] d[6] d[7]
  yangle := leWord d[8] d[9] d[10] d[11]
  posX := leWord d[12] d[13] d[14] d[15]
  posY := leWord d[16] d[17] d[18] d[19]
  wZ := leWord d[20] d[21] d[22] d[23]

/-- `Data_Analyse`. -/
def dataAnalyse (st : ActionState) (rec : UInt8) : Traced ActionEvent ActionState :=
  let st := { st with ch := rec }
  if st.count = 0 then
    if st.ch = 0x0d then pure { st with count := st.count + 1 } else pure { st with count := 0 }
  else if st.count = 1 then
    if st.ch = 0x0a then pure { st with i := 0, count := st.count + 1 }
    else if st.ch = 0x0d then pure st
    else pure { st with count := 0 }
  else if st.count = 2 then do
    emit (.write st.i.toNat)
    if h : st.i.toNat < 24 then
      let st := { st with date := st.date.set st.i.toNat st.ch, i := st.i + 1 }
      if st.i ≥ 24 then pure { st with i := 0, count := st.count + 1 } else pure st
    else liftM (Call.fault : Call ActionState)
  else if st.count = 3 then
    if st.ch = 0x0a then pure { st with count := st.count + 1 } else pure { st with count := 0 }
  else if st.count = 4 then
    if st.ch = 0x0d then do
      emit (.assign (actVal st.date))
      pure { st with globals := actVal st.date, count := 0 }
    else pure { st with count := 0 }
  else pure { st with count := 0 }

/-- The variables at the start of the program. -/
def ActionState.start : ActionState := ⟨0, .replicate 24 0, 0, 0, ⟨0, 0, 0, 0, 0, 0⟩⟩

/-- The driver: the bytes in its buffer, and the parser. -/
structure ActionUart where
  buf : List UInt8
  st : ActionState
  deriving DecidableEq, Repr

/-- `dbus_uart_rx_ind`: `size` bytes, or all there are. -/
def dbusUartRxInd : ℕ → ActionUart → Traced ActionEvent ActionUart
  | 0, dev => pure dev
  | size + 1, dev =>
    match dev.buf with
    | [] => pure dev
    | data :: buf => do
      let st ← dataAnalyse dev.st data
      dbusUartRxInd size ⟨buf, st⟩

/-- Bytes come in, or the driver tells about `size` of them. -/
inductive UartEvent where
  | receive (bs : List UInt8)
  | indicate (size : ℕ)
  deriving DecidableEq, Repr

/-- One event. -/
def uartStep (dev : ActionUart) : UartEvent → Traced ActionEvent ActionUart
  | .receive bs => pure { dev with buf := dev.buf ++ bs }
  | .indicate size => dbusUartRxInd size dev

/-- All bytes that come in. -/
def uartBytes : List UartEvent → List UInt8
  | [] => []
  | .receive bs :: es => bs ++ uartBytes es
  | .indicate _ :: es => uartBytes es

/-- With `n` bytes in the buffer: every indication is for bytes that are there, and in the end all
bytes have been indicated. -/
def Indicated : ℕ → List UartEvent → Prop
  | n, [] => n = 0
  | n, .receive bs :: es => Indicated (n + bs.length) es
  | n, .indicate size :: es => size ≤ n ∧ Indicated (n - size) es

/-- A frame. -/
def postureFrame (data : Vector UInt8 24) : List UInt8 :=
  [0x0d, 0x0a] ++ data.toList ++ [0x0a, 0x0d]

/-- The assignments of a log. -/
def assigns (l : List ActionEvent) : List Posture :=
  l.filterMap fun
    | .assign p => some p
    | .write _ => none

@[simp] theorem assigns_append (l l' : List ActionEvent) :
    assigns (l ++ l') = assigns l ++ assigns l' := List.filterMap_append

/-! ## One byte -/

section Byte

variable {st : ActionState} (b : UInt8)

theorem dataAnalyse_zero (h : st.count = 0) :
    dataAnalyse st b =
      ⟨[], .ret { st with ch := b, count := if b = 0x0d then 1 else 0 }⟩ := by
  simp only [dataAnalyse, h, ↓reduceIte]
  split <;> rfl

theorem dataAnalyse_one (h : st.count = 1) :
    dataAnalyse st b =
      ⟨[], .ret { st with
        ch := b
        i := if b = 0x0a then 0 else st.i
        count := if b = 0x0a then 2 else if b = 0x0d then 1 else 0 }⟩ := by
  obtain ⟨ch, date, count, i, globals⟩ := st
  obtain rfl : count = 1 := h
  by_cases hb : b = 0x0a
  · subst hb
    rfl
  · by_cases hd : b = 0x0d
    · subst hd
      rfl
    · simp only [dataAnalyse, hb, hd, ↓reduceIte]
      rfl

theorem dataAnalyse_two (h : st.count = 2) (hi : st.i.toNat < 24) :
    dataAnalyse st b =
      ⟨[.write st.i.toNat], .ret { st with
        ch := b
        date := st.date.set st.i.toNat b
        i := if st.i.toNat = 23 then 0 else st.i + 1
        count := if st.i.toNat = 23 then 3 else 2 }⟩ := by
  have hge : st.i + 1 ≥ 24 ↔ st.i.toNat = 23 := by
    rw [ge_iff_le, UInt8.le_iff_toNat_le, UInt8.toNat_add]
    simp only [UInt8.reduceToNat]
    omega
  have h0 : ¬ (2 : UInt8) = 0 := by decide
  have h1 : ¬ (2 : UInt8) = 1 := by decide
  simp only [dataAnalyse, h, h0, h1, hi, hge, ↓reduceIte, ↓reduceDIte]
  by_cases hl : st.i.toNat = 23
  · simp only [hl, ↓reduceIte]
    rfl
  · simp only [hl, ↓reduceIte]
    rfl

theorem dataAnalyse_three (h : st.count = 3) :
    dataAnalyse st b =
      ⟨[], .ret { st with ch := b, count := if b = 0x0a then 4 else 0 }⟩ := by
  have h0 : ¬ (3 : UInt8) = 0 := by decide
  have h1 : ¬ (3 : UInt8) = 1 := by decide
  have h2 : ¬ (3 : UInt8) = 2 := by decide
  simp only [dataAnalyse, h, h0, h1, h2, ↓reduceIte]
  split <;> rfl

theorem dataAnalyse_four (h : st.count = 4) :
    dataAnalyse st b =
      if b = 0x0d then
        ⟨[.assign (actVal st.date)], .ret { st with
          ch := b, count := 0, globals := actVal st.date }⟩
      else ⟨[], .ret { st with ch := b, count := 0 }⟩ := by
  have h0 : ¬ (4 : UInt8) = 0 := by decide
  have h1 : ¬ (4 : UInt8) = 1 := by decide
  have h2 : ¬ (4 : UInt8) = 2 := by decide
  have h3 : ¬ (4 : UInt8) = 3 := by decide
  simp only [dataAnalyse, h, h0, h1, h2, h3, ↓reduceIte]
  split <;> rfl

end Byte

/-- The state after the bytes `pre`. -/
inductive Parsed (pre : List UInt8) (st : ActionState) : Prop where
  | idle (count : st.count = 0)
  | cr (count : st.count = 1) (read : [0x0d] <:+ pre)
  | data (count : st.count = 2) (lt : st.i.toNat < 24)
      (read : [0x0d, 0x0a] ++ st.date.toList.take st.i.toNat <:+ pre)
  | full (count : st.count = 3) (read : [0x0d, 0x0a] ++ st.date.toList <:+ pre)
  | lf (count : st.count = 4) (read : [0x0d, 0x0a] ++ st.date.toList ++ [0x0a] <:+ pre)

/-- What a byte assigns: nothing, or the words of a frame that ends the bytes `pre`. -/
def Assigned (pre : List UInt8) (l : List ActionEvent) (st st' : ActionState) : Prop :=
  (assigns l = [] ∧ st'.globals = st.globals) ∨
    ∃ data, postureFrame data <:+ pre ∧ assigns l = [actVal data] ∧ st'.globals = actVal data

/-- A write to `posture.date` is in bounds. -/
def ActionEvent.InBounds : ActionEvent → Prop
  | .write i => i < 24
  | .assign _ => True

/-- A byte of the data. -/
theorem dataAnalyse_data {pre : List UInt8} {st : ActionState} (count : st.count = 2)
    (lt : st.i.toNat < 24) (read : [0x0d, 0x0a] ++ st.date.toList.take st.i.toNat <:+ pre)
    (b : UInt8) :
    ∃ st', dataAnalyse st b = ⟨[.write st.i.toNat], .ret st'⟩ ∧ st'.globals = st.globals ∧
      Parsed (pre ++ [b]) st' := by
  refine ⟨_, dataAnalyse_two b count lt, rfl, ?_⟩
  have hread : [0x0d, 0x0a] ++ (st.date.set st.i.toNat b).toList.take (st.i.toNat + 1) <:+
      pre ++ [b] := by
    rw [take_set st.date lt b, ← List.append_assoc]
    exact suffix_concat read b
  by_cases hlast : st.i.toNat = 23
  · refine .full (if_pos hlast) ?_
    rwa [List.take_of_length_le (by rw [Vector.length_toList]; omega)] at hread
  · have hnext : (st.i + 1).toNat = st.i.toNat + 1 := by
      rw [UInt8.toNat_add, UInt8.toNat_one]
      omega
    refine .data (if_neg hlast) ?_ ?_
    · show (if st.i.toNat = 23 then (0 : UInt8) else st.i + 1).toNat < 24
      rw [if_neg hlast]
      omega
    · show _ ++ List.take (if st.i.toNat = 23 then (0 : UInt8) else st.i + 1).toNat _ <:+ _
      rwa [if_neg hlast, hnext]

/-- One byte, in every state. -/
theorem dataAnalyse_parsed {pre : List UInt8} {st : ActionState} (h : Parsed pre st) (b : UInt8) :
    ∃ l st', dataAnalyse st b = ⟨l, .ret st'⟩ ∧ Parsed (pre ++ [b]) st' ∧
      (∀ e ∈ l, e.InBounds) ∧ Assigned (pre ++ [b]) l st st' := by
  cases h with
  | idle count =>
    refine ⟨_, _, dataAnalyse_zero b count, ?_, by simp, .inl ⟨rfl, rfl⟩⟩
    by_cases hb : b = 0x0d
    · refine .cr (if_pos hb) ?_
      rw [hb]
      exact List.suffix_append pre [0x0d]
    · exact .idle (if_neg hb)
  | cr count read =>
    refine ⟨_, _, dataAnalyse_one b count, ?_, by simp, .inl ⟨rfl, rfl⟩⟩
    by_cases ha : b = 0x0a
    · rw [ha]
      exact .data rfl (show (0 : UInt8).toNat < 24 by decide) (suffix_concat read 0x0a)
    · by_cases hd : b = 0x0d
      · rw [hd]
        exact .cr rfl (List.suffix_append pre [0x0d])
      · refine .idle ?_
        show (if b = 0x0a then (2 : UInt8) else if b = 0x0d then 1 else 0) = 0
        rw [if_neg ha, if_neg hd]
  | data count lt read =>
    obtain ⟨st', hstep, hglobals, hparsed⟩ := dataAnalyse_data count lt read b
    refine ⟨_, st', hstep, hparsed, ?_, .inl ⟨rfl, hglobals⟩⟩
    intro e he
    rw [List.mem_singleton.mp he]
    exact lt
  | full count read =>
    refine ⟨_, _, dataAnalyse_three b count, ?_, by simp, .inl ⟨rfl, rfl⟩⟩
    by_cases hb : b = 0x0a
    · rw [hb]
      exact .lf rfl (suffix_concat read 0x0a)
    · exact .idle (if_neg hb)
  | lf count read =>
    have hstep := dataAnalyse_four b count
    by_cases hb : b = 0x0d
    · rw [if_pos hb] at hstep
      refine ⟨_, _, hstep, .idle rfl, ?_, .inr ⟨st.date, ?_, rfl, rfl⟩⟩
      · intro e he
        rw [List.mem_singleton.mp he]
        trivial
      · rw [hb]
        have hframe := suffix_concat read 0x0d
        rwa [List.append_assoc] at hframe
    · rw [if_neg hb] at hstep
      exact ⟨_, _, hstep, .idle rfl, by simp, .inl ⟨rfl, rfl⟩⟩

/-- Any bytes from the start of the program on. -/
theorem feed_parsed (bs : List UInt8) :
    ∃ l st, feed dataAnalyse .start bs = ⟨l, .ret st⟩ ∧ Parsed bs st ∧ ∀ e ∈ l, e.InBounds := by
  have hstart : Parsed [] .start := .idle rfl
  have hstep (pre : List UInt8) (st : ActionState) (b : UInt8) (h : Parsed pre st) :
      ∃ l st', dataAnalyse st b = ⟨l, .ret st'⟩ ∧ Parsed (pre ++ [b]) st' ∧
        ∀ e ∈ l, e.InBounds := by
    obtain ⟨l, st', hbyte, hparsed, hl, -⟩ := dataAnalyse_parsed h b
    exact ⟨l, st', hbyte, hparsed, hl⟩
  exact feed_inv hstep hstart bs

/-! ## Frames -/

/-- The data of a frame, from any place in it on. -/
theorem feed_data {st : ActionState} (count : st.count = 2) {xs : List UInt8} (hne : xs ≠ [])
    (hlen : st.i.toNat + xs.length = 24) :
    ∃ l st', feed dataAnalyse st xs = ⟨l, .ret st'⟩ ∧ assigns l = [] ∧ st'.count = 3 ∧
      st'.date.toList = st.date.toList.take st.i.toNat ++ xs := by
  induction xs generalizing st with
  | nil => exact absurd rfl hne
  | cons b xs ih =>
    rw [List.length_cons] at hlen
    have hi : st.i.toNat < 24 := by omega
    have htake := take_set st.date hi b
    have hstep := dataAnalyse_two b count hi
    cases xs with
    | nil =>
      rw [List.length_nil] at hlen
      have hlast : st.i.toNat = 23 := by omega
      refine ⟨_, _, feed_cons hstep [], rfl, if_pos hlast, ?_⟩
      rwa [List.take_of_length_le (by rw [Vector.length_toList]; omega)] at htake
    | cons b' xs =>
      rw [List.length_cons] at hlen
      have hmore : st.i.toNat ≠ 23 := by omega
      have hnext : (st.i + 1).toNat = st.i.toNat + 1 := by
        rw [UInt8.toNat_add, UInt8.toNat_one]
        omega
      simp only [hmore, ↓reduceIte] at hstep
      have hcount₁ : ({ st with
          ch := b, date := st.date.set st.i.toNat b, i := st.i + 1, count := 2 } :
            ActionState).count = 2 := rfl
      obtain ⟨l, st', hrun, hl, hcount, hdate⟩ := ih hcount₁ (by simp) (by
        show (st.i + 1).toNat + (xs.length + 1) = 24
        omega)
      refine ⟨[.write st.i.toNat] ++ l, st', ?_, hl, hcount, ?_⟩
      · rw [feed_cons hstep, hrun]
      · rw [hdate]
        show List.take (st.i + 1).toNat (st.date.set st.i.toNat b).toList ++ b' :: xs = _
        rw [hnext, htake, List.append_assoc]
        rfl

/-- A frame in front of which no frame has begun is decoded. -/
theorem feed_frame {st : ActionState} (h : st.count = 0 ∨ st.count = 1) (data : Vector UInt8 24) :
    ∃ l st', feed dataAnalyse st (postureFrame data) = ⟨l, .ret st'⟩ ∧
      assigns l = [actVal data] ∧ st'.count = 0 := by
  -- the first two bytes
  have hhead : ∃ st₁, feed dataAnalyse st [0x0d, 0x0a] = ⟨[], .ret st₁⟩ ∧ st₁.count = 2 ∧
      st₁.i = 0 := by
    obtain ⟨st₀, h₀, hcount⟩ : ∃ st₀, dataAnalyse st 0x0d = ⟨[], .ret st₀⟩ ∧ st₀.count = 1 := by
      rcases h with h | h
      · exact ⟨_, dataAnalyse_zero 0x0d h, rfl⟩
      · exact ⟨_, dataAnalyse_one 0x0d h, rfl⟩
    have hrun : feed dataAnalyse st [0x0d, 0x0a] =
        ⟨[], .ret { st₀ with ch := 0x0a, i := 0, count := 2 }⟩ := by
      rw [feed_cons h₀, feed_cons (dataAnalyse_one 0x0a hcount), feed_nil]
      rfl
    exact ⟨_, hrun, rfl, rfl⟩
  obtain ⟨st₁, h₁, hcount₁, hi₁⟩ := hhead
  have hlen : data.toList.length = 24 := Vector.length_toList
  have hne : data.toList ≠ [] := List.ne_nil_of_length_pos (by omega)
  obtain ⟨l, st₂, h₂, hl, hcount₂, hdate⟩ :=
    feed_data hcount₁ hne (by rw [hi₁, hlen]; rfl)
  have hdate₂ : st₂.date = data := by
    apply Vector.toList_inj.mp
    rw [hdate, hi₁]
    rfl
  -- the last two
  have htail : feed dataAnalyse st₂ [0x0a, 0x0d] =
      ⟨[.assign (actVal data)], .ret { st₂ with
        ch := 0x0d, count := 0, globals := actVal data }⟩ := by
    rw [feed_cons (dataAnalyse_three 0x0a hcount₂), feed_cons (dataAnalyse_four 0x0d rfl),
      feed_nil, ← hdate₂]
    rfl
  refine ⟨l ++ [.assign (actVal data)], { st₂ with
    ch := 0x0d, count := 0, globals := actVal data }, ?_, ?_, rfl⟩
  · rw [postureFrame, List.append_assoc, feed_append, h₁, mk_ret_bind, feed_append, h₂,
      mk_ret_bind, htail]
    rfl
  · rw [assigns_append, hl]
    rfl

/-- Any number of frames. -/
theorem feed_frames {st : ActionState} (h : st.count = 0 ∨ st.count = 1)
    (datas : List (Vector UInt8 24)) :
    assigns (feed dataAnalyse st (datas.flatMap postureFrame)).log = datas.map actVal := by
  induction datas generalizing st with
  | nil => rfl
  | cons data datas ih =>
    obtain ⟨l, st', hrun, hl, hcount⟩ := feed_frame h data
    rw [List.flatMap_cons, feed_append, hrun, mk_ret_bind, assigns_append, hl, ih (.inl hcount)]
    rfl

/-- Bytes without the pair `0d 0a` leave the parser in front of a frame, or behind its first
byte. -/
theorem feed_noPair {st : ActionState} {pre : List UInt8}
    (h : (st.count = 0 ∧ ¬ [0x0d, 0x0a] <:+: pre) ∨
      (st.count = 1 ∧ ¬ [0x0d, 0x0a] <:+: 0x0d :: pre)) :
    ∃ st', feed dataAnalyse st pre = ⟨[], .ret st'⟩ ∧ (st'.count = 0 ∨ st'.count = 1) := by
  induction pre generalizing st with
  | nil => exact ⟨st, rfl, h.imp And.left And.left⟩
  | cons b pre ih =>
    -- the next state, and that no pair begins in it
    obtain ⟨st₁, hstep, h₁⟩ : ∃ st₁, dataAnalyse st b = ⟨[], .ret st₁⟩ ∧
        ((st₁.count = 0 ∧ ¬ [0x0d, 0x0a] <:+: pre) ∨
          (st₁.count = 1 ∧ ¬ [0x0d, 0x0a] <:+: 0x0d :: pre)) := by
      rcases h with ⟨hcount, hno⟩ | ⟨hcount, hno⟩
      · refine ⟨_, dataAnalyse_zero b hcount, ?_⟩
        by_cases hb : b = 0x0d
        · rw [hb] at hno
          exact .inr ⟨if_pos hb, hno⟩
        · exact .inl ⟨if_neg hb, fun hin => hno (hin.trans (List.suffix_cons b pre).isInfix)⟩
      · refine ⟨_, dataAnalyse_one b hcount, ?_⟩
        have hne : b ≠ 0x0a := by
          rintro rfl
          exact hno ⟨[], pre, rfl⟩
        by_cases hb : b = 0x0d
        · rw [hb] at hno ⊢
          exact .inr ⟨rfl, fun hin => hno (hin.trans (List.suffix_cons _ _).isInfix)⟩
        · refine .inl ⟨?_, fun hin => hno (hin.trans
            ((List.suffix_cons b pre).trans (List.suffix_cons _ _)).isInfix)⟩
          show (if b = 0x0a then (2 : UInt8) else if b = 0x0d then 1 else 0) = 0
          rw [if_neg hne, if_neg hb]
    obtain ⟨st', hrun, hcount⟩ := ih h₁
    exact ⟨st', by rw [feed_cons hstep, hrun]; rfl, hcount⟩

/-! ## Indications -/

/-- An indication of bytes that are there. -/
theorem dbusUartRxInd_eq {buf : List UInt8} {size : ℕ} (hsize : size ≤ buf.length)
    {st st' : ActionState} {l : List ActionEvent}
    (h : feed dataAnalyse st (buf.take size) = ⟨l, .ret st'⟩) :
    dbusUartRxInd size ⟨buf, st⟩ = ⟨l, .ret ⟨buf.drop size, st'⟩⟩ := by
  induction size generalizing buf st l with
  | zero =>
    cases h
    rfl
  | succ size ih =>
    cases buf with
    | nil => exact absurd hsize (by simp)
    | cons b buf =>
      obtain ⟨l₁, l₂, st₁, h₁, h₂, rfl⟩ := bind_eq_ret.mp h
      have hsize' : size ≤ buf.length := Nat.le_of_succ_le_succ hsize
      show (dataAnalyse st b >>= fun st => dbusUartRxInd size ⟨buf, st⟩) = _
      rw [h₁, mk_ret_bind, ih hsize' h₂]
      rfl

/-- Any split into indications: the parser is fed all bytes in order. -/
theorem uartRun_eq {es : List UartEvent} {buf : List UInt8} (hes : Indicated buf.length es)
    {st st' : ActionState} {l : List ActionEvent}
    (h : feed dataAnalyse st (buf ++ uartBytes es) = ⟨l, .ret st'⟩) :
    feed uartStep ⟨buf, st⟩ es = ⟨l, .ret ⟨[], st'⟩⟩ := by
  induction es generalizing buf st l with
  | nil =>
    obtain rfl : buf = [] := List.length_eq_zero_iff.mp hes
    cases h
    rfl
  | cons e es ih =>
    cases e with
    | receive bs =>
      rw [uartBytes, ← List.append_assoc] at h
      have hlen : Indicated (buf ++ bs).length es := by
        rw [List.length_append]
        exact hes
      rw [feed_cons (show uartStep ⟨buf, st⟩ (.receive bs) = ⟨[], .ret ⟨buf ++ bs, st⟩⟩ from rfl),
        ih hlen h]
      rfl
    | indicate size =>
      obtain ⟨hsize, hes'⟩ := hes
      rw [uartBytes, ← List.take_append_drop size buf, List.append_assoc, feed_append] at h
      obtain ⟨l₁, l₂, st₁, h₁, h₂, rfl⟩ := bind_eq_ret.mp h
      have hlen : Indicated (buf.drop size).length es := by
        rw [List.length_drop]
        exact hes'
      have hstep : uartStep ⟨buf, st⟩ (.indicate size) = ⟨l₁, .ret ⟨buf.drop size, st₁⟩⟩ :=
        dbusUartRxInd_eq hsize h₁
      rw [feed_cons hstep, ih hlen h₂]

/-- A stray `0d`, then a frame whose data begins with `0d 0a`, in three indications. -/
example :
    assigns (feed uartStep ⟨[], .start⟩
      [.receive [0x0d, 0x0d], .indicate 1, .receive [0x0a, 0x0d, 0x0a], .indicate 3,
        .receive (List.replicate 22 0 ++ [0x0a, 0x0d]), .indicate 25]).log =
      [⟨0x0a0d, 0, 0, 0, 0, 0⟩] := by
  decide +kernel

end Robot
