import ConstructionRobot.Lib.Call
import Mathlib.Data.List.Basic
import Mathlib.Data.Nat.ModEq

/-!
# Circular buffers

Copies inside objects (`memcpy`) and the two-part copies of a circular buffer, over any element
type. The elements from position `s` on, around the end of the buffer, are `window buf s n`.

* `ringWrite_ret`: `n` elements written from position `p` on are in bounds, stand in the window at
  `p`, and leave every other place alone.
* `ringRead_ret`: `n` elements read from position `p` on are the window at `p`.
* `window_write`: a write behind a window extends it; `window_add`: a window in two parts.
-/

namespace Robot

variable {α : Type}

/-- `memcpy (dst + i, src + j, n)`: a copy that leaves one of the objects is a fault. -/
def memcpy (dst : List α) (i : ℕ) (src : List α) (j n : ℕ) : Call (List α) :=
  if i + n ≤ dst.length ∧ j + n ≤ src.length then
    .ret (dst.take i ++ ((src.drop j).take n ++ dst.drop (i + n)))
  else .fault

/-- Write `n` elements of `src` from position `p` on: up to the end of the buffer, then at its
beginning. -/
def ringWrite (buf : List α) (p : ℕ) (src : List α) (n : ℕ) : Call (List α) := do
  let l := min n (buf.length - p)
  let buf ← memcpy buf p src 0 l
  memcpy buf 0 src l (n - l)

/-- Read `n` elements from position `p` on into `dst`. -/
def ringRead (dst buf : List α) (p n : ℕ) : Call (List α) := do
  let l := min n (buf.length - p)
  let dst ← memcpy dst 0 buf p l
  memcpy dst l buf 0 (n - l)

/-- The `n` elements from position `s` on. -/
def window [Inhabited α] (buf : List α) (s n : ℕ) : List α :=
  (List.range n).map fun i => buf[(s + i) % buf.length]!

/-! ## One copy -/

/-- A copy in bounds: the elements of `src` in the range, the old ones elsewhere. -/
theorem memcpy_ret (dst : List α) (i : ℕ) (src : List α) (j n : ℕ) (hd : i + n ≤ dst.length)
    (hs : j + n ≤ src.length) :
    ∃ d, memcpy dst i src j n = .ret d ∧ d.length = dst.length ∧
      ∀ x, d[x]? = if i ≤ x ∧ x < i + n then src[j + (x - i)]? else dst[x]? := by
  refine ⟨_, by rw [memcpy, if_pos ⟨hd, hs⟩], ?_, fun x => ?_⟩
  · simp only [List.length_append, List.length_take, List.length_drop]
    omega
  · by_cases h1 : x < i
    · rw [List.getElem?_append_left (by rw [List.length_take]; omega), List.getElem?_take_of_lt h1,
        if_neg (by omega)]
    · rw [List.getElem?_append_right (by rw [List.length_take]; omega), List.length_take,
        Nat.min_eq_left (by omega)]
      by_cases h2 : x < i + n
      · rw [List.getElem?_append_left (by simp only [List.length_take, List.length_drop]; omega),
          List.getElem?_take_of_lt (by omega), List.getElem?_drop, if_pos ⟨by omega, h2⟩]
      · have hlen : ((src.drop j).take n).length = n := by
          simp only [List.length_take, List.length_drop]
          omega
        rw [List.getElem?_append_right (by omega), hlen, List.getElem?_drop,
          show i + n + (x - i - n) = x by omega, if_neg (by omega)]

/-- A copy that returns was in bounds. -/
theorem memcpy_inv {dst src d : List α} {i j n : ℕ} (h : memcpy dst i src j n = .ret d) :
    i + n ≤ dst.length ∧ j + n ≤ src.length ∧ d.length = dst.length := by
  unfold memcpy at h
  split at h
  case isTrue hin =>
    cases h
    refine ⟨hin.1, hin.2, ?_⟩
    simp only [List.length_append, List.length_take, List.length_drop]
    omega
  case isFalse => cases h

/-- A copy behind the part of the object that is already written. -/
theorem memcpy_behind (front back src : List α) (i n : ℕ) (hi : front.length = i)
    (hd : n ≤ back.length) (hs : n ≤ src.length) :
    memcpy (front ++ back) i src 0 n = .ret (front ++ src.take n ++ back.drop n) := by
  subst hi
  unfold memcpy
  rw [if_pos ⟨by rw [List.length_append]; omega, by omega⟩, List.take_left, List.drop_zero,
    List.drop_append, List.drop_of_length_le (show front.length ≤ front.length + n by omega),
    Nat.add_sub_cancel_left, List.nil_append, List.append_assoc]

/-! ## Positions -/

/-- A position `p` in the buffer and a step of less than a turn, across the end. -/
theorem add_mod_ring {p i N : ℕ} (hp : p < N) (hi : i < N) (h : N ≤ p + i) :
    (p + i) % N = p + i - N := by
  rw [Nat.mod_eq_sub_mod h, Nat.mod_eq_of_lt (by omega)]

/-- A write of `n` elements behind `u` used ones, with room for both and not across the end, does
not meet a used place. -/
theorem place_not_behind {o u n i N : ℕ} (hun : u + n ≤ N) (hp : (o + u) % N + n ≤ N) (hi : i < u) :
    ¬((o + u) % N ≤ (o + i) % N ∧ (o + i) % N < (o + u) % N + n) := by
  rintro ⟨h1, h2⟩
  obtain ⟨d, hd⟩ := Nat.exists_eq_add_of_le h1
  have hsame : (o + (u + d)) % N = (o + i) % N := by
    rw [← Nat.add_assoc, Nat.add_mod, Nat.mod_eq_of_lt (show d < N by omega), hd]
    exact Nat.mod_eq_of_lt (by omega)
  have hud : u + d ≡ i [MOD N] := Nat.ModEq.add_left_cancel' o hsame
  have := Nat.ModEq.eq_of_lt_of_lt hud (by omega) (by omega)
  omega

/-! ## Writes and reads -/

theorem ringWrite_ret {buf src : List α} {p n : ℕ} (hp : p < buf.length) (hn : n ≤ buf.length)
    (hs : n ≤ src.length) :
    ∃ b, ringWrite buf p src n = .ret b ∧ b.length = buf.length ∧
      (∀ i, i < n → b[(p + i) % buf.length]? = src[i]?) ∧
      ∀ i, n ≤ i → i < buf.length →
        b[(p + i) % buf.length]? = buf[(p + i) % buf.length]? := by
  have hl : min n (buf.length - p) = n ∨
      (min n (buf.length - p) = buf.length - p ∧ buf.length - p < n) := by omega
  have hle : min n (buf.length - p) ≤ buf.length - p := Nat.min_le_right _ _
  simp only [ringWrite]
  generalize min n (buf.length - p) = l at *
  obtain ⟨b₁, h₁, hlen₁, hb₁⟩ := memcpy_ret buf p src 0 l (by omega) (by omega)
  obtain ⟨b₂, h₂, hlen₂, hb₂⟩ := memcpy_ret b₁ 0 src l (n - l) (by omega) (by omega)
  refine ⟨b₂, by rw [h₁, Call.ret_bind, h₂], by omega, fun i hi => ?_, fun i hi hN => ?_⟩
  · by_cases hil : i < l
    · rw [Nat.mod_eq_of_lt (by omega), hb₂, if_neg (by omega), hb₁, if_pos (by omega)]
      congr 1
      omega
    · rw [add_mod_ring hp (by omega) (by omega), hb₂, if_pos (by omega)]
      congr 1
      omega
  · by_cases hpi : p + i < buf.length
    · rw [Nat.mod_eq_of_lt hpi, hb₂, if_neg (by omega), hb₁, if_neg (by omega)]
    · rw [add_mod_ring hp hN (by omega), hb₂, if_neg (by omega), hb₁, if_neg (by omega)]

/-- A write that does not reach the end of the buffer is one copy. -/
theorem ringWrite_flat {buf src : List α} {p n : ℕ} (hp : p + n ≤ buf.length)
    (hs : n ≤ src.length) : ringWrite buf p src n = memcpy buf p src 0 n := by
  have hl : min n (buf.length - p) = n := by omega
  obtain ⟨b, hb, hlen, -⟩ := memcpy_ret buf p src 0 n hp (by omega)
  simp only [ringWrite, hl, hb, Call.ret_bind, Nat.sub_self]
  rw [memcpy, if_pos ⟨by omega, by omega⟩]
  simp

theorem ringRead_ret [Inhabited α] {dst buf : List α} {p n : ℕ} (hp : p < buf.length)
    (hn : n ≤ buf.length) (hd : n ≤ dst.length) :
    ringRead dst buf p n = .ret (window buf p n ++ dst.drop n) := by
  have hl : min n (buf.length - p) = n ∨
      (min n (buf.length - p) = buf.length - p ∧ buf.length - p < n) := by omega
  have hle : min n (buf.length - p) ≤ buf.length - p := Nat.min_le_right _ _
  simp only [ringRead]
  generalize min n (buf.length - p) = l at *
  obtain ⟨d₁, h₁, hlen₁, hd₁⟩ := memcpy_ret dst 0 buf p l (by omega) (by omega)
  obtain ⟨d₂, h₂, hlen₂, hd₂⟩ := memcpy_ret d₁ l buf 0 (n - l) (by omega) (by omega)
  have hw : (window buf p n).length = n := by simp [window]
  have hwin (x : ℕ) (hx : x < n) : (window buf p n)[x]? = buf[(p + x) % buf.length]? := by
    have hlt : (p + x) % buf.length < buf.length := Nat.mod_lt _ (by omega)
    rw [window, List.getElem?_map, List.getElem?_range hx, Option.map_some,
      getElem!_pos buf _ hlt, List.getElem?_eq_getElem hlt]
  rw [h₁, Call.ret_bind, h₂]
  congr 1
  apply List.ext_getElem?
  intro x
  rw [hd₂, hd₁]
  by_cases hx : x < n
  · rw [List.getElem?_append_left (by omega), hwin x hx]
    by_cases hxl : x < l
    · rw [Nat.mod_eq_of_lt (by omega), if_neg (by omega), if_pos (by omega)]
      congr 1
    · rw [add_mod_ring hp (by omega) (by omega), if_pos (by omega)]
      congr 1
      omega
  · rw [if_neg (by omega), if_neg (by omega), List.getElem?_append_right (by omega), hw,
      List.getElem?_drop]
    congr 1
    omega

/-! ## Windows -/

section Window

variable [Inhabited α]

@[simp] theorem window_length (buf : List α) (s n : ℕ) : (window buf s n).length = n := by
  simp [window]

/-- Positions that agree modulo the size of the buffer have the same windows. -/
theorem window_congr {buf : List α} {s t : ℕ} (h : s % buf.length = t % buf.length) (n : ℕ) :
    window buf s n = window buf t n := by
  unfold window
  refine List.map_congr_left fun i _ => ?_
  rw [Nat.add_mod, h, ← Nat.add_mod]

theorem window_add (buf : List α) (s n k : ℕ) :
    window buf s (n + k) = window buf s n ++ window buf (s + n) k := by
  unfold window
  rw [List.range_add, List.map_append, List.map_map]
  congr 1
  refine List.map_congr_left fun i _ => ?_
  rw [Function.comp_apply, Nat.add_assoc]

theorem window_take (buf : List α) (s n k : ℕ) :
    (window buf s n).take k = window buf s (min k n) := by
  by_cases h : k ≤ n
  · obtain ⟨d, rfl⟩ := Nat.exists_eq_add_of_le h
    rw [window_add, Nat.min_eq_left (by omega), List.take_left' (window_length _ _ _)]
  · rw [List.take_of_length_le (by rw [window_length]; omega), Nat.min_eq_right (by omega)]

theorem window_drop (buf : List α) (s n k : ℕ) :
    (window buf s n).drop k = window buf (s + k) (n - k) := by
  by_cases h : k ≤ n
  · obtain ⟨d, rfl⟩ := Nat.exists_eq_add_of_le h
    rw [window_add, Nat.add_sub_cancel_left, List.drop_left' (window_length _ _ _)]
  · rw [List.drop_of_length_le (by rw [window_length]; omega), Nat.sub_eq_zero_of_le (by omega)]
    rfl

/-- A write behind the `u` used elements: they stay, and the new elements follow. -/
theorem window_write (buf src : List α) (o u n : ℕ) (hN : 0 < buf.length)
    (hun : u + n ≤ buf.length) (hs : n ≤ src.length) :
    ∃ b, ringWrite buf ((o + u) % buf.length) src n = .ret b ∧ b.length = buf.length ∧
      window b o (u + n) = window buf o u ++ src.take n := by
  obtain ⟨b, hb, hlen, hnew, hold⟩ := ringWrite_ret (Nat.mod_lt (o + u) hN)
    (show n ≤ buf.length by omega) hs
  refine ⟨b, hb, hlen, ?_⟩
  rw [window_add]
  congr 1
  · refine List.map_congr_left fun i hi => ?_
    have hiu : i < u := List.mem_range.mp hi
    -- counted from the write position, place `i` is the place `size - u + i`
    have hpos : ((o + u) % buf.length + (buf.length - u + i)) % buf.length =
        (o + i) % buf.length := by
      rw [Nat.mod_add_mod, show o + u + (buf.length - u + i) = o + i + buf.length by omega,
        Nat.add_mod_right]
    have h := hold (buf.length - u + i) (by omega) (by omega)
    rw [hpos] at h
    rw [hlen, List.getElem!_eq_getElem?_getD, List.getElem!_eq_getElem?_getD, h]
  · refine List.ext_getElem (by simp only [window_length, List.length_take]; omega) ?_
    intro i h1 h2
    rw [window_length] at h1
    have h := hnew i h1
    rw [Nat.mod_add_mod] at h
    simp only [window, List.getElem_map, List.getElem_range, List.getElem_take]
    rw [hlen, List.getElem!_eq_getElem?_getD, h, List.getElem?_eq_getElem (by omega)]
    rfl

end Window

end Robot
