import ConstructionRobot.Lib.Ring

/-!
# Blocks of memory

Allocation, a copy inside one block, and a block as a table of slots of equal size, over any
element type.

* `Alloc.realloc`: a block of another size; the common part stays, the rest is what the allocator
  found there.
* `moveForward_ret`, `moveForward_fault`: a copy inside a block, element after element, to a place
  before its source. It returns exactly if the source is inside the block.
* `slots size n block`: the first `n` slots. `slots_write` is a new slot behind them, `slots_insert`
  one between them, `slots_move` the removal of one of them, and `slots_realloc` a change of the
  block's size.
-/

namespace Robot

variable {α : Type}

/-- What the allocator does in one call: if it succeeds, and what it finds in new memory. -/
structure Alloc (α : Type) where
  ok : Bool
  junk : ℕ → α

/-- `realloc`; `malloc` is `realloc` of an empty block. -/
def Alloc.realloc (mem : Alloc α) (old : List α) (n : ℕ) : Option (List α) :=
  if mem.ok then some ((List.range n).map fun i => old.getD i (mem.junk i)) else none

/-- `memcpy (buf + i, buf + j, n)` inside one object, for a `memcpy` that copies one element after
the other, the first one first. A copy that leaves the object is a fault. -/
def moveForward (buf : List α) (i j : ℕ) : ℕ → Call (List α)
  | 0 => pure buf
  | n + 1 =>
    match buf[j]? with
    | some x => if i < buf.length then moveForward (buf.set i x) (i + 1) (j + 1) n else .fault
    | none => .fault

/-- The slot number `k` of a block. -/
def slot (size : ℕ) (block : List α) (k : ℕ) : List α := (block.drop (k * size)).take size

/-- The first `n` slots of a block. -/
def slots (size n : ℕ) (block : List α) : List (List α) := (List.range n).map (slot size block)

/-! ## Copies inside a block -/

/-- A copy to a place before its source gives the elements that stood there before the copy. -/
theorem moveForward_ret (buf : List α) {i j : ℕ} (n : ℕ) (hij : i ≤ j) (hj : j + n ≤ buf.length) :
    ∃ b, moveForward buf i j n = .ret b ∧ b.length = buf.length ∧
      ∀ x, b[x]? = if i ≤ x ∧ x < i + n then buf[j + (x - i)]? else buf[x]? := by
  induction n generalizing buf i j with
  | zero => exact ⟨buf, rfl, rfl, fun x => by rw [if_neg (by omega)]⟩
  | succ n ih =>
    have hlt : j < buf.length := by omega
    obtain ⟨b, hb, hlen, hget⟩ := ih (buf.set i buf[j]) (show i + 1 ≤ j + 1 by omega)
      (by rw [List.length_set]; omega)
    refine ⟨b, ?_, by rw [hlen, List.length_set], fun x => ?_⟩
    · rw [moveForward, List.getElem?_eq_getElem hlt]
      simp only
      rw [if_pos (by omega), hb]
    · rw [hget x]
      by_cases hx : x = i
      · subst hx
        rw [if_neg (by omega), if_pos (by omega), List.getElem?_set_self (by omega), Nat.sub_self,
          Nat.add_zero, List.getElem?_eq_getElem hlt]
      · rw [List.getElem?_set_ne (Ne.symm hx)]
        by_cases hin : i ≤ x ∧ x < i + (n + 1)
        · -- the rest of the copy reads behind the element that was just written
          rw [if_pos (by omega), if_pos hin, List.getElem?_set_ne (by omega)]
          congr 1
          omega
        · rw [if_neg (by omega), if_neg hin]

/-- A copy whose source is not all inside the block is a fault. -/
theorem moveForward_fault (buf : List α) {i j : ℕ} (n : ℕ) (hn : 0 < n)
    (hj : buf.length < j + n) : moveForward buf i j n = .fault := by
  induction n generalizing buf i j with
  | zero => omega
  | succ n ih =>
    rw [moveForward]
    cases hx : buf[j]? with
    | none => rfl
    | some x =>
      have hlt : j < buf.length := (List.getElem?_eq_some_iff.mp hx).1
      simp only
      split
      · exact ih _ (by omega) (by rw [List.length_set]; omega)
      · rfl

/-! ## Slots -/

@[simp] theorem slots_length (size n : ℕ) (block : List α) : (slots size n block).length = n := by
  simp [slots]

theorem slots_getElem? (size : ℕ) {n k : ℕ} (block : List α) (h : k < n) :
    (slots size n block)[k]? = some (slot size block k) := by
  rw [slots, List.getElem?_map, List.getElem?_range h, Option.map_some]

theorem slots_succ (size n : ℕ) (block : List α) :
    slots size (n + 1) block = slots size n block ++ [slot size block n] := by
  rw [slots, List.range_succ, List.map_append]
  rfl

/-- Slots of two blocks with the same elements at their places. -/
theorem slot_congr {size : ℕ} {b b' : List α} {k k' : ℕ}
    (h : ∀ y, y < size → b'[k' * size + y]? = b[k * size + y]?) :
    slot size b' k' = slot size b k := by
  apply List.ext_getElem?
  intro y
  by_cases hy : y < size
  · rw [slot, slot, List.getElem?_take_of_lt hy, List.getElem?_take_of_lt hy, List.getElem?_drop,
      List.getElem?_drop, h y hy]
  · rw [slot, slot, List.getElem?_eq_none (by rw [List.length_take]; omega),
      List.getElem?_eq_none (by rw [List.length_take]; omega)]

/-- A slot with the elements of an object of its size. -/
theorem slot_eq {size k : ℕ} {b src : List α} (hs : src.length = size)
    (h : ∀ y, y < size → b[k * size + y]? = src[y]?) : slot size b k = src := by
  apply List.ext_getElem?
  intro y
  by_cases hy : y < size
  · rw [slot, List.getElem?_take_of_lt hy, List.getElem?_drop, h y hy]
  · rw [slot, List.getElem?_eq_none (by rw [List.length_take]; omega),
      List.getElem?_eq_none (by omega)]

/-- A place in slot `k` comes before every later slot. -/
theorem slot_place_lt {size k m y : ℕ} (hk : k < m) (hy : y < size) : k * size + y < m * size := by
  have h : (k + 1) * size ≤ m * size := Nat.mul_le_mul_right size hk
  rw [Nat.succ_mul] at h
  omega

/-- Blocks that agree on the first `n` slots. -/
theorem slots_congr {size n : ℕ} {b b' : List α}
    (h : ∀ x, x < n * size → b'[x]? = b[x]?) : slots size n b' = slots size n b := by
  refine List.map_congr_left fun k hk => ?_
  have hk : k < n := List.mem_range.mp hk
  exact slot_congr fun y hy => h _ (slot_place_lt hk hy)

/-- A slot is read into an object of its size. -/
theorem memcpy_slot {size k : ℕ} {block dst : List α} (hd : dst.length = size)
    (hb : (k + 1) * size ≤ block.length) :
    memcpy dst 0 block (k * size) size = .ret (slot size block k) := by
  rw [Nat.succ_mul] at hb
  rw [memcpy, if_pos ⟨by omega, hb⟩, List.take_zero, List.nil_append,
    List.drop_of_length_le (show dst.length ≤ 0 + size by omega), List.append_nil, slot]

/-- One more slot is written behind the first `n`. -/
theorem slots_write {size n : ℕ} {block src : List α} (hs : src.length = size)
    (hb : (n + 1) * size ≤ block.length) :
    ∃ b, memcpy block (n * size) src 0 size = .ret b ∧ b.length = block.length ∧
      slots size (n + 1) b = slots size n block ++ [src] := by
  have hb' := hb
  rw [Nat.succ_mul] at hb'
  obtain ⟨b, hr, hlen, hget⟩ := memcpy_ret block (n * size) src 0 size hb' (by omega)
  refine ⟨b, hr, hlen, ?_⟩
  rw [slots_succ]
  congr 1
  · exact slots_congr fun x hx => by rw [hget, if_neg (by omega)]
  · rw [slot_eq hs fun y hy => ?_]
    rw [hget, if_pos (by omega)]
    congr 1
    omega

/-- The slots from slot `k` on move up by one, and a new one takes its place. -/
theorem slots_insert {size n k : ℕ} {block b src : List α} (hk : k ≤ n) (hs : src.length = size)
    (hlow : ∀ x, x < k * size → b[x]? = block[x]?)
    (hnew : ∀ y, y < size → b[k * size + y]? = src[y]?)
    (hhigh : ∀ x, k * size ≤ x → x < n * size → b[x + size]? = block[x]?) :
    slots size (n + 1) b = (slots size n block).insertIdx k src := by
  apply List.ext_getElem?
  intro m
  rw [List.getElem?_insertIdx, slots_length]
  by_cases hm : m < n + 1
  · rw [slots_getElem? size b hm]
    split
    · case isTrue hmk =>
      rw [slots_getElem? size block (by omega)]
      congr 1
      exact slot_congr fun y hy => hlow _ (slot_place_lt hmk hy)
    · case isFalse hmk =>
      split
      · case isTrue heq =>
        rw [if_pos (by omega), heq, slot_eq hs hnew]
      · case isFalse hne =>
        -- slot `m` was slot `m - 1`
        obtain ⟨j, rfl⟩ : ∃ j, m = j + 1 := ⟨m - 1, by omega⟩
        have hplace : k * size ≤ j * size := Nat.mul_le_mul_right size (by omega)
        rw [Nat.add_sub_cancel, slots_getElem? size block (by omega)]
        congr 1
        refine slot_congr fun y hy => ?_
        rw [Nat.succ_mul, show j * size + size + y = j * size + y + size by omega]
        exact hhigh _ (by omega) (slot_place_lt (by omega) hy)
  · rw [List.getElem?_eq_none (by rw [slots_length]; omega), if_neg (by omega), if_neg (by omega),
      List.getElem?_eq_none (by rw [slots_length]; omega)]

/-- The slots behind slot `k` move down by one, together with the one behind the last: slot `k` is
gone. -/
theorem slots_move {size n k : ℕ} {block : List α} (hk : k < n)
    (hb : (n + 1) * size ≤ block.length) :
    ∃ b, moveForward block (k * size) (k * size + size) ((n - k) * size) = .ret b ∧
      b.length = block.length ∧ slots size (n - 1) b = (slots size n block).eraseIdx k := by
  have hsub : k * size + (n - k) * size = n * size := by
    rw [← Nat.add_mul]
    congr 1
    omega
  have hb' := hb
  rw [Nat.succ_mul] at hb'
  obtain ⟨b, hr, hlen, hget⟩ := moveForward_ret block ((n - k) * size)
    (Nat.le_add_right (k * size) size) (by omega)
  refine ⟨b, hr, hlen, ?_⟩
  apply List.ext_getElem?
  intro m
  rw [List.getElem?_eraseIdx]
  by_cases hm : m < n - 1
  · rw [slots_getElem? size b hm]
    split
    · case isTrue hmk =>
      rw [slots_getElem? size block (by omega)]
      congr 1
      refine slot_congr fun y hy => ?_
      rw [hget, if_neg (by have := slot_place_lt hmk hy; omega)]
    · case isFalse hmk =>
      rw [slots_getElem? size block (by omega)]
      congr 1
      refine slot_congr fun y hy => ?_
      have hlow : k * size ≤ m * size := Nat.mul_le_mul_right size (by omega)
      have hhigh := slot_place_lt (show m < n by omega) hy
      rw [hget, if_pos (by omega), Nat.succ_mul]
      congr 1
      omega
  · rw [List.getElem?_eq_none (by rw [slots_length]; omega)]
    symm
    split <;> exact List.getElem?_eq_none (by rw [slots_length]; omega)

/-- A block of another size has the slots that both blocks have. -/
theorem slots_realloc {mem : Alloc α} {old new : List α} {size n m : ℕ}
    (h : mem.realloc old m = some new) (hold : n * size ≤ old.length) (hm : n * size ≤ m) :
    slots size n new = slots size n old := by
  unfold Alloc.realloc at h
  split at h
  · rw [Option.some.injEq] at h
    refine slots_congr fun x hx => ?_
    rw [← h, List.getElem?_map, List.getElem?_range (by omega), Option.map_some,
      List.getD_eq_getElem?_getD, List.getElem?_eq_getElem (by omega)]
    rfl
  · cases h

theorem Alloc.realloc_length {mem : Alloc α} {old new : List α} {m : ℕ}
    (h : mem.realloc old m = some new) : new.length = m := by
  unfold Alloc.realloc at h
  split at h
  · rw [Option.some.injEq] at h
    rw [← h, List.length_map, List.length_range]
  · cases h

end Robot
