import ConstructionRobot.Lib.Bits
import ConstructionRobot.Lib.Call
import Mathlib.Data.Fin.VecNotation
import Mathlib.Algebra.Order.Group.Unbundled.Abs

/-!
# The remote control (`bsp_sbus.c`)

`rc_callback_handler` takes sixteen channels of 11 bits each from a frame of 25 bytes and scales
them: the rockers are centred, with a dead band on the first four, and the switches have three
positions. `DJI` is `0`, so this is the branch for SBUS.

* `channelParts_gathers`: the masks and shifts of a channel are its 11 bits of the frame.
* `sbusPack`: the frame for sixteen values.
* `rcCallbackHandler_sbusPack`: what the handler makes of such a frame.
-/

namespace Robot

/-- `rc_info_t`; `chN` of the source is `ch (N - 1)`. -/
structure RcInfo where
  ch : Fin 16 → ℤ
  sw1 : UInt8
  sw2 : UInt8

/-- A frame, `dbus_buf`. -/
abbrev SbusFrame : Type := Fin 25 → UInt8

/-- The parts that a channel is put together from, in the order of the source. A byte that the
source does not mask has the mask `0xff`. -/
def channelParts : Fin 16 → List (Piece 25) :=
  ![[⟨1, 0xff, 0, 0⟩, ⟨2, 0x07, 0, 8⟩],
    [⟨2, 0xf8, 3, 0⟩, ⟨3, 0x3f, 0, 5⟩],
    [⟨3, 0xc0, 6, 0⟩, ⟨4, 0xff, 0, 2⟩, ⟨5, 0x01, 0, 10⟩],
    [⟨5, 0xfe, 1, 0⟩, ⟨6, 0x0f, 0, 7⟩],
    [⟨6, 0xf0, 4, 0⟩, ⟨7, 0x7f, 0, 4⟩],
    [⟨7, 0x80, 7, 0⟩, ⟨8, 0xff, 0, 1⟩, ⟨9, 0x03, 0, 9⟩],
    [⟨9, 0xfc, 2, 0⟩, ⟨10, 0x1f, 0, 6⟩],
    [⟨10, 0xe0, 5, 0⟩, ⟨11, 0xff, 0, 3⟩],
    [⟨12, 0xff, 0, 0⟩, ⟨13, 0x07, 0, 8⟩],
    [⟨13, 0xf8, 3, 0⟩, ⟨14, 0x3f, 0, 5⟩],
    [⟨14, 0xc0, 6, 0⟩, ⟨15, 0xff, 0, 2⟩, ⟨16, 0x01, 0, 10⟩],
    [⟨16, 0xfe, 1, 0⟩, ⟨17, 0x0f, 0, 7⟩],
    [⟨17, 0xf0, 4, 0⟩, ⟨18, 0x7f, 0, 4⟩],
    [⟨18, 0x80, 7, 0⟩, ⟨19, 0xff, 0, 1⟩, ⟨20, 0x03, 0, 9⟩],
    [⟨20, 0xfc, 2, 0⟩, ⟨21, 0x1f, 0, 6⟩],
    [⟨21, 0xe0, 5, 0⟩, ⟨22, 0xff, 0, 3⟩]]

/-- Assigns `f` of their values to the channels `cs`. -/
def RcInfo.modify (rc : RcInfo) (cs : List (Fin 16)) (f : ℤ → ℤ) : RcInfo :=
  { rc with ch := fun i => if i ∈ cs then f (rc.ch i) else rc.ch i }

/-- `sw_judge`. -/
def swJudge (rc : RcInfo) : RcInfo :=
  rc.modify [4, 5, 6, 7, 8, 9, 10, 11] fun v => if v > 1600 then 1 else if v < 400 then 3 else 2

/-- The dead band `min` of the handler. -/
def sbusMin : ℤ := 15

/-- `rc_callback_handler`. The conversions of the parts to `uint16_t` are left out: a part is less
than `2 ^ 16` before and after its shift to the left. -/
def rcCallbackHandler (rc : RcInfo) (buff : SbusFrame) : RcInfo :=
  let rc := { rc with ch := fun i => sint 16 (gather buff (channelParts i)) }
  let rc := rc.modify [0, 1, 2, 3, 12, 13, 14, 15] fun v => sint 16 (v - 1024)
  let rc := swJudge rc
  rc.modify [0, 1, 2, 3] fun v => if v < sbusMin ∧ v > -sbusMin then 0 else v

/-! ## The bits of a channel -/

/-- Channel `i` is the bits `11 * i` to `11 * i + 10` behind the first byte. -/
theorem channelParts_gathers (i : Fin 16) : Gathers (channelParts i) (8 + 11 * i.val) 11 where
  place := by decide +revert
  bound := by decide +revert
  cover := by decide +revert

/-- A value in the range of `int16_t`. -/
def InInt16 (v : ℤ) : Prop := -2 ^ 15 ≤ v ∧ v < 2 ^ 15

theorem sint_of_inInt16 {v : ℤ} (h : InInt16 v) : sint 16 v = v :=
  sint_eq_self (by decide) h.1 h.2

/-- Everything that is computed for a channel before it is scaled, and its distance from the
centre. -/
theorem channel_inInt16 (buff : SbusFrame) (i : Fin 16) :
    (∀ p ∈ channelParts i, InInt16 (p.masked buff) ∧ InInt16 (p.lowered buff) ∧
      InInt16 (p.value buff)) ∧
    (∀ ps, ps <+: channelParts i → InInt16 (gather buff ps)) ∧
    InInt16 ((gather buff (channelParts i) : ℤ) - 1024) := by
  have hparts := channelParts_gathers i
  refine ⟨fun p hp => ?_, fun ps hps => ?_, ?_⟩
  · have hvalue := hparts.value_lt buff hp
    have hmasked : p.masked buff < 2 ^ 8 :=
      lt_of_le_of_lt Nat.and_le_left (buff p.byte).toNat_lt
    have hlowered : p.lowered buff ≤ p.masked buff := Nat.shiftRight_le _ _
    simp only [InInt16]
    omega
  · have hlt := hparts.gather_lt buff hps.subset
    simp only [InInt16]
    omega
  · have hlt := hparts.gather_lt buff (List.Subset.refl _)
    simp only [InInt16]
    omega

/-- What the handler makes of the value of a channel. -/
def channelScale (i : Fin 16) (v : ℤ) : ℤ :=
  if i.val < 4 then if |v - 1024| < 15 then 0 else v - 1024
  else if i.val < 12 then if v > 1600 then 1 else if v < 400 then 3 else 2
  else v - 1024

theorem rcCallbackHandler_ch (rc : RcInfo) (buff : SbusFrame) (i : Fin 16) :
    (rcCallbackHandler rc buff).ch i = channelScale i (gather buff (channelParts i)) := by
  have hband : i ∈ [0, 1, 2, 3] ↔ i.val < 4 := by decide +revert
  have hswitch : i ∈ [4, 5, 6, 7, 8, 9, 10, 11] ↔ 4 ≤ i.val ∧ i.val < 12 := by decide +revert
  have hrocker : i ∈ [0, 1, 2, 3, 12, 13, 14, 15] ↔ i.val < 4 ∨ 12 ≤ i.val := by decide +revert
  obtain ⟨-, hor, hcentred⟩ := channel_inInt16 buff i
  have hstore := sint_of_inInt16 (hor _ (List.prefix_refl _))
  have hcentre := sint_of_inInt16 hcentred
  simp only [rcCallbackHandler, swJudge, RcInfo.modify, hstore, hcentre, hband, hswitch, hrocker,
    channelScale, sbusMin, abs_lt]
  by_cases h4 : i.val < 4
  · have h12 : ¬ (4 ≤ i.val ∧ i.val < 12) := by omega
    simp only [h4, h12, true_or, if_true, if_false, gt_iff_lt, and_comm]
  · by_cases h12 : i.val < 12
    · simp only [h4, h12, not_le.2 h12, not_lt.1 h4, and_self, or_self, if_true, if_false]
    · simp only [h4, h12, not_lt.1 h12, and_false, or_true, if_true, if_false]

/-! ## The packing -/

/-- Bit `m` of sixteen values one after the other, each with its least significant bit first. -/
def sbusBit (c : Fin 16 → Fin 2048) (m : ℕ) : Bool :=
  (c (Fin.ofNat 16 (m / 11))).val.testBit (m % 11)

/-- A frame with the values `c` in the bytes 1 to 22, and with the other bytes of `rest`. -/
def sbusPack (c : Fin 16 → Fin 2048) (rest : SbusFrame) : SbusFrame := fun j =>
  if 1 ≤ j.val ∧ j.val ≤ 22 then
    .ofNat (Nat.ofBits fun k : Fin 8 => sbusBit c (8 * (j.val - 1) + k.val))
  else rest j

/-- The bits of channel `i` in the frame are those of its value. -/
theorem streamBit_sbusPack (c : Fin 16 → Fin 2048) (rest : SbusFrame) (i : Fin 16) {k : ℕ}
    (hk : k < 11) : streamBit (sbusPack c rest) (8 + 11 * i.val + k) = (c i).val.testBit k := by
  have hi := i.isLt
  have hbyte : (11 * i.val + k) / 8 + 1 < 25 := by omega
  have hrow : (11 * i.val + k) / 11 = i.val := by omega
  have hcol : (11 * i.val + k) % 11 = k := by omega
  have hsplit : 8 + 11 * i.val + k = 8 * ((11 * i.val + k) / 8 + 1) + (11 * i.val + k) % 8 := by
    omega
  have hbits : ∀ f : Fin 8 → Bool, (UInt8.ofNat (Nat.ofBits f)).toNat = Nat.ofBits f := fun f =>
    UInt8.toNat_ofNat_of_lt' (Nat.ofBits_lt_two_pow f)
  rw [hsplit, streamBit_add (sbusPack c rest) ⟨_, hbyte⟩ (Nat.mod_lt _ (by decide)), sbusPack,
    if_pos (by simp only; omega), hbits, Nat.testBit_ofBits_lt _ _ (Nat.mod_lt _ (by decide))]
  simp only [Nat.add_sub_cancel, Nat.div_add_mod, sbusBit, hrow, hcol]
  congr
  exact Fin.ofNat_val_eq_self i

/-- A channel of a frame with the bits of `v` in its place is `v`. -/
theorem gather_channelParts {buff : SbusFrame} {i : Fin 16} {v : Fin 2048}
    (h : ∀ k < 11, streamBit buff (8 + 11 * i.val + k) = v.val.testBit k) :
    gather buff (channelParts i) = v.val :=
  gather_eq buff (channelParts_gathers i) v.isLt h

/-- The handler gets the values back from the frame that they were packed into, and scales them. A
channel is the same for every frame with the same 11 bits in its place, and nothing that is computed
on the way leaves the range of `int16_t`. -/
theorem rcCallbackHandler_sbusPack (rc : RcInfo) (c : Fin 16 → Fin 2048) (rest : SbusFrame) :
    let buff := sbusPack c rest
    (∀ i, i.val < 4 → (rcCallbackHandler rc buff).ch i =
      if |((c i).val : ℤ) - 1024| < 15 then 0 else ((c i).val : ℤ) - 1024) ∧
    (∀ i, 12 ≤ i.val → (rcCallbackHandler rc buff).ch i = ((c i).val : ℤ) - 1024) ∧
    (∀ i, 4 ≤ i.val → i.val < 12 → (rcCallbackHandler rc buff).ch i =
      if (c i).val > 1600 then 1 else if (c i).val < 400 then 3 else 2) ∧
    (∀ i rc' (buff' : SbusFrame),
      (∀ k < 11, streamBit buff' (8 + 11 * i.val + k) = streamBit buff (8 + 11 * i.val + k)) →
      (rcCallbackHandler rc' buff').ch i = (rcCallbackHandler rc buff).ch i) ∧
    ∀ i, gather buff (channelParts i) = (c i).val ∧
      (∀ p ∈ channelParts i, InInt16 (p.masked buff) ∧ InInt16 (p.lowered buff) ∧
        InInt16 (p.value buff)) ∧
      (∀ ps, ps <+: channelParts i → InInt16 (gather buff ps)) ∧
      InInt16 ((gather buff (channelParts i) : ℤ) - 1024) := by
  intro buff
  have hbits : ∀ i : Fin 16, ∀ k < 11,
      streamBit buff (8 + 11 * i.val + k) = (c i).val.testBit k :=
    fun i k hk => streamBit_sbusPack c rest i hk
  have hval : ∀ i, gather buff (channelParts i) = (c i).val := fun i =>
    gather_channelParts (hbits i)
  have hch : ∀ i, (rcCallbackHandler rc buff).ch i = channelScale i (c i).val := fun i => by
    rw [rcCallbackHandler_ch, hval]
  refine ⟨fun i h4 => ?_, fun i h12 => ?_, fun i h4 h12 => ?_, fun i rc' buff' hsame => ?_,
    fun i => ⟨hval i, channel_inInt16 buff i⟩⟩
  · rw [hch, channelScale, if_pos h4]
  · rw [hch, channelScale, if_neg (by omega), if_neg (by omega)]
  · rw [hch, channelScale, if_neg (by omega), if_pos h12]
    norm_cast
  · rw [rcCallbackHandler_ch, rcCallbackHandler_ch, hval,
      gather_channelParts fun k hk => (hsame k hk).trans (hbits i k hk)]

end Robot
