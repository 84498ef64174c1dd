import ConstructionRobot.Dj.Driver

/-!
# Lookup by can id (`motor_get_by_canid`)

The binary search over a table with increasing can ids. Its bounds are bytes. `left = mid + 1` does
not wrap in a table of up to 255 entries; `right = mid - 1` wraps if the id is below that of the
first entry, and the search starts again with `right = 255`.

* `Between`: what the bounds say about the table.
* `searchCanid_some`: what is found has the id.
* `searchCanid_ret`: the search with an id that is not below the first one.
* `searchCanid_below`: the search with an id below the first one does not return.
* `canid_lookup_iff`: the lookup works exactly for the ids from the first one on.
-/

namespace Robot

variable {m : ℕ}

/-- The entries before `left` have smaller ids than `canId`, those behind `right` larger ones. -/
structure Between (ids : Fin m → UInt16) (canId : UInt16) (left right : UInt8) : Prop where
  before : ∀ k, k.val < left.toNat → ids k < canId
  behind : ∀ k, right.toNat < k.val → canId < ids k
  le : left.toNat ≤ right.toNat + 1
  bound : right.toNat < m

/-- The middle of two bytes is a byte. -/
theorem mid_toNat (left right : UInt8) :
    (UInt8.ofNat ((left.toNat + right.toNat) / 2)).toNat = (left.toNat + right.toNat) / 2 := by
  have hl := left.toNat_lt
  have hr := right.toNat_lt
  rw [UInt8.toNat_ofNat']
  omega

section Search

variable {ids : Fin m → UInt16}

/-- What the search finds has the id. -/
theorem searchCanid_some {canId : UInt16} {fuel : ℕ} {left right : UInt8} {k : Fin m}
    (h : searchCanid ids canId fuel left right = .ret (some k)) : ids k = canId := by
  induction fuel generalizing left right with
  | zero => simp [searchCanid] at h
  | succ fuel ih =>
    rw [searchCanid] at h
    by_cases hle : left ≤ right
    · simp only [if_pos hle] at h
      split at h
      · next hlt =>
        split at h
        · next heq =>
          rw [← Option.some.inj (Call.ret.inj h)]
          exact heq
        · split at h
          · exact ih h
          · exact ih h
      · simp at h
    · rw [if_neg hle] at h
      simp at h

variable (hinc : ∀ i j, i < j → ids i < ids j) {canId : UInt16}

include hinc in
theorem ids_le {i j : Fin m} (h : i ≤ j) : ids i ≤ ids j := by
  rcases Fin.lt_or_eq_of_le h with hlt | rfl
  · exact UInt16.le_of_lt (hinc i j hlt)
  · exact UInt16.le_refl _

include hinc in
theorem ids_inj {i j : Fin m} (h : ids i = ids j) : i = j := by
  rcases Nat.lt_trichotomy i.val j.val with hlt | heq | hgt
  · exact absurd (hinc i j hlt) (by rw [h]; exact UInt16.lt_irrefl _)
  · exact Fin.ext heq
  · exact absurd (hinc j i hgt) (by rw [h]; exact UInt16.lt_irrefl _)

section Halves

variable {left right mid : UInt8} (h : Between ids canId left right) (hlt : mid.toNat < m)

include hinc h in
/-- The entry at `mid` is too small: the search goes on behind it. -/
theorem Between.behind_mid (hm : m ≤ 255) (hle : mid.toNat ≤ right.toNat)
    (hless : ids ⟨mid.toNat, hlt⟩ < canId) :
    (mid + 1).toNat = mid.toNat + 1 ∧ Between ids canId (mid + 1) right := by
  have hnext : (mid + 1).toNat = mid.toNat + 1 := by
    rw [UInt8.toNat_add, UInt8.toNat_one]
    omega
  refine ⟨hnext, fun k hk => ?_, h.behind, by omega, h.bound⟩
  refine UInt16.lt_of_le_of_lt (ids_le hinc (j := ⟨mid.toNat, hlt⟩) ?_) hless
  exact Fin.mk_le_mk.mpr (by omega)

include hinc h in
/-- The entry at `mid` is too large, and it is not the first one: the search goes on before it. -/
theorem Between.before_mid (hle : left.toNat ≤ mid.toNat) (hpos : mid.toNat ≠ 0)
    (hmore : canId < ids ⟨mid.toNat, hlt⟩) :
    (mid - 1).toNat = mid.toNat - 1 ∧ Between ids canId left (mid - 1) := by
  have hone : (1 : UInt8) ≤ mid := by
    rw [UInt8.le_iff_toNat_le, UInt8.toNat_one]
    omega
  have hprev : (mid - 1).toNat = mid.toNat - 1 := by
    rw [UInt8.toNat_sub_of_le _ _ hone, UInt8.toNat_one]
  refine ⟨hprev, h.before, fun k hk => ?_, by omega, by omega⟩
  refine UInt16.lt_of_lt_of_le hmore (ids_le hinc (i := ⟨mid.toNat, hlt⟩) ?_)
  exact Fin.mk_le_mk.mpr (by omega)

include h in
/-- The bounds have crossed: there is no entry with the id. -/
theorem Between.none_of_crossed (hgt : right.toNat < left.toNat) (k : Fin m) : ids k ≠ canId := by
  intro hk
  rcases Nat.lt_or_ge k.val left.toNat with hk' | hk'
  · exact absurd (h.before k hk') (by rw [hk]; exact UInt16.lt_irrefl _)
  · exact absurd (h.behind k (by omega)) (by rw [hk]; exact UInt16.lt_irrefl _)

end Halves

include hinc in
/-- An id from the first one on: the search returns the entry with the id, if there is one. -/
theorem searchCanid_ret (hm : m ≤ 255) (hfirst : ∀ k, k.val = 0 → ids k ≤ canId) (fuel : ℕ)
    {left right : UInt8} (h : Between ids canId left right)
    (hfuel : right.toNat + 1 < left.toNat + fuel) :
    ∃ r, searchCanid ids canId fuel left right = .ret r ∧ ∀ k, r = some k ↔ ids k = canId := by
  induction fuel generalizing left right with
  | zero => exact absurd h.le (by omega)
  | succ fuel ih =>
    have hbound := h.bound
    rw [searchCanid]
    by_cases hle : left ≤ right
    · have hle' := UInt8.le_iff_toNat_le.mp hle
      have hmid := mid_toNat left right
      generalize UInt8.ofNat ((left.toNat + right.toNat) / 2) = mid at hmid ⊢
      have hlt : mid.toNat < m := by omega
      simp only [if_pos hle, dif_pos hlt]
      by_cases heq : ids ⟨mid.toNat, hlt⟩ = canId
      · refine ⟨some ⟨mid.toNat, hlt⟩, by rw [if_pos heq], fun k => ⟨?_, fun hk => ?_⟩⟩
        · rintro ⟨⟩
          exact heq
        · rw [ids_inj hinc (heq.trans hk.symm)]
      · rw [if_neg heq]
        by_cases hless : ids ⟨mid.toNat, hlt⟩ < canId
        · obtain ⟨hnext, hright⟩ := h.behind_mid hinc hlt hm (by omega) hless
          rw [if_pos hless]
          exact ih hright (by omega)
        · have hmore : canId < ids ⟨mid.toNat, hlt⟩ :=
            UInt16.lt_of_le_of_ne (UInt16.not_lt.mp hless) fun h => heq h.symm
          -- the first entry is not too large, and so `mid - 1` does not wrap
          have hpos : mid.toNat ≠ 0 := fun h0 =>
            absurd (hfirst ⟨mid.toNat, hlt⟩ h0) (UInt16.not_le.mpr hmore)
          obtain ⟨hprev, hleft⟩ := h.before_mid hinc hlt (by omega) hpos hmore
          rw [if_neg hless]
          exact ih hleft (by omega)
    · have hgt : right.toNat < left.toNat := UInt8.lt_iff_toNat_lt.mp (UInt8.not_le.mp hle)
      refine ⟨none, if_neg hle, fun k => ⟨fun hk => by simp at hk, fun hk => ?_⟩⟩
      exact absurd hk (h.none_of_crossed hgt k)

include hinc in
/-- An id below the first one: from the bound on the left nothing is ever found and the bounds
never cross, whatever `right` is. The search leaves the table, or it does not end. -/
theorem searchCanid_below (hfirst : ∀ k, k.val = 0 → canId < ids k) (fuel : ℕ) (right : UInt8)
    (r : Option (Fin m)) : searchCanid ids canId fuel 0 right ≠ .ret r := by
  induction fuel generalizing right with
  | zero => simp [searchCanid]
  | succ fuel ih =>
    rw [searchCanid, if_pos (UInt8.le_iff_toNat_le.mpr (by rw [UInt8.toNat_zero]; omega))]
    dsimp only
    split
    · next hlt =>
      have hmore := UInt16.lt_of_lt_of_le (hfirst ⟨0, by omega⟩ rfl)
        (ids_le hinc (j := ⟨_, hlt⟩) (Fin.mk_le_mk.mpr (Nat.zero_le _)))
      rw [if_neg (UInt16.ne_of_lt hmore).symm, if_neg (UInt16.lt_asymm hmore)]
      exact ih _
    · simp

end Search

section Lookup

variable (h1 : 1 ≤ m) (h255 : m ≤ 255) {dj : Fin m → MotorMeasure}
  (hinc : ∀ i j, i < j → (dj i).canId < (dj j).canId) {canId : UInt16}

include h255 hinc in
/-- The lookup of an id from the first one on. -/
theorem motorGetByCanid_ret (hle : (dj ⟨0, h1⟩).canId ≤ canId) :
    ∃ r, motorGetByCanid dj canId = .ret r ∧ ∀ k, r = some k ↔ (dj k).canId = canId := by
  have hright : (UInt8.ofNat (m - 1)).toNat = m - 1 := by
    rw [UInt8.toNat_ofNat']
    omega
  refine searchCanid_ret (fun i j => hinc i j) h255 (fun k hk => ?_) 256
    ⟨fun k hk => ?_, fun k hk => ?_, ?_, ?_⟩ ?_
  · rw [show k = ⟨0, h1⟩ from Fin.ext hk]
    exact hle
  · rw [UInt8.toNat_zero] at hk
    omega
  · rw [hright] at hk
    have := k.isLt
    omega
  · rw [UInt8.toNat_zero]
    omega
  · rw [hright]
    omega
  · rw [hright, UInt8.toNat_zero]
    omega

include hinc in
/-- The lookup of an id below the first one, with any number of rounds. -/
theorem searchCanid_below_first (hlt : canId < (dj ⟨0, h1⟩).canId) (rounds : ℕ) (right : UInt8)
    (r : Option (Fin m)) : searchCanid (fun k => (dj k).canId) canId rounds 0 right ≠ .ret r := by
  refine searchCanid_below (fun i j => hinc i j) (fun k hk => ?_) rounds right r
  rw [show k = ⟨0, h1⟩ from Fin.ext hk]
  exact hlt

end Lookup

/-- In a table of 1 to 255 entries with increasing can ids, `motor_get_by_canid` returns the entry
with the id, or `NULL` if there is none, exactly for the ids that are not below the first one. For
an id below it, no number of rounds is enough. -/
theorem canid_lookup_iff (h1 : 1 ≤ m) (h255 : m ≤ 255) (dj : Fin m → MotorMeasure)
    (hinc : ∀ i j, i < j → (dj i).canId < (dj j).canId) (canId : UInt16) :
    ((∃ r, motorGetByCanid dj canId = .ret r ∧ ∀ k, r = some k ↔ (dj k).canId = canId) ↔
      (dj ⟨0, h1⟩).canId ≤ canId) ∧
    (canId < (dj ⟨0, h1⟩).canId → ∀ rounds r,
      searchCanid (fun k => (dj k).canId) canId rounds 0 (UInt8.ofNat (m - 1)) ≠ .ret r) := by
  refine ⟨⟨?_, motorGetByCanid_ret h1 h255 hinc⟩, fun hlt rounds r => ?_⟩
  · rintro ⟨r, hret, -⟩
    by_contra hlt
    exact searchCanid_below_first h1 hinc (UInt16.not_le.mp hlt) 256 _ r hret
  · exact searchCanid_below_first h1 hinc hlt rounds _ r

/-- The shipped table has the ids `0x201` to `0x204`. -/
theorem canid_lookup_iff_shipped :
    ((∃ r, motorGetByCanid shippedMotors 0x205 = .ret r ∧
        ∀ k, r = some k ↔ (shippedMotors k).canId = 0x205) ↔ (shippedMotors 0).canId ≤ 0x205) ∧
      (0x205 < (shippedMotors 0).canId → ∀ rounds r,
        searchCanid (fun k => (shippedMotors k).canId) 0x205 rounds 0 (UInt8.ofNat (4 - 1)) ≠
          .ret r) :=
  canid_lookup_iff (by decide) (by decide) shippedMotors (by decide) 0x205

/-- The id `0x200`, which the filter lets through: `right` wraps at the first entry, and the search
reads entry 127 of 4. -/
theorem canid_lookup_wraps :
    (∀ i j, i < j → (shippedMotors i).canId < (shippedMotors j).canId) ∧
      motorGetByCanid shippedMotors 0x200 = .fault := by
  decide

end Robot
