import Mathlib.Data.List.Basic

/-!
# Histories of a run

A run is described by the list of what was observed, oldest first.

* `Guarded P log`: every entry `x` of the history satisfied `P` of the entries before it.
* `guarded_concat`: one more entry. `Guarded.append`: more entries that satisfy `P` anyway.
* `findRev?_concat`: the last entry with a property, after one more entry.
-/

namespace Robot

variable {ε : Type}

/-- Every entry satisfied `P` of the history at its time. -/
def Guarded (P : List ε → ε → Prop) (log : List ε) : Prop :=
  ∀ l₁ x l₂, log = l₁ ++ x :: l₂ → P l₁ x

/-- The places of an entry in a history with one more entry `y`: the new one, or an old one. -/
theorem concat_eq_append_cons {log l₁ l₂ : List ε} {x y : ε} :
    log ++ [y] = l₁ ++ x :: l₂ ↔
      (l₂ = [] ∧ log = l₁ ∧ y = x) ∨ ∃ l, l₂ = l ++ [y] ∧ log = l₁ ++ x :: l := by
  constructor
  · intro h
    rcases List.eq_nil_or_concat l₂ with rfl | ⟨l, z, rfl⟩
    · left
      obtain ⟨hl, hx⟩ := List.append_inj' h rfl
      exact ⟨rfl, hl, by simpa using hx⟩
    · right
      rw [List.concat_eq_append, ← List.cons_append, ← List.append_assoc] at h
      obtain ⟨hl, hz⟩ := List.append_inj' h rfl
      refine ⟨l, ?_, hl⟩
      rw [List.concat_eq_append]
      simpa using hz.symm
  · rintro (⟨rfl, rfl, rfl⟩ | ⟨l, rfl, rfl⟩)
    · rfl
    · simp

theorem guarded_nil {P : List ε → ε → Prop} : Guarded P [] := by
  intro l₁ x l₂ h
  simp at h

theorem guarded_concat {P : List ε → ε → Prop} {log : List ε} {y : ε} :
    Guarded P (log ++ [y]) ↔ Guarded P log ∧ P log y := by
  constructor
  · intro h
    refine ⟨fun l₁ x l₂ hl => h l₁ x (l₂ ++ [y]) ?_, h log y [] rfl⟩
    rw [hl]
    simp
  · rintro ⟨h, hy⟩ l₁ x l₂ hl
    rcases concat_eq_append_cons.mp hl with ⟨-, rfl, rfl⟩ | ⟨l, -, hl'⟩
    · exact hy
    · exact h l₁ x l hl'

theorem Guarded.append {P : List ε → ε → Prop} {log l : List ε} (h : Guarded P log)
    (hl : ∀ x ∈ l, ∀ before, P before x) : Guarded P (log ++ l) := by
  induction l generalizing log with
  | nil => rwa [List.append_nil]
  | cons x l ih =>
    obtain ⟨hx, hl⟩ := List.forall_mem_cons.mp hl
    rw [List.append_cons]
    exact ih (guarded_concat.mpr ⟨h, hx log⟩) hl

theorem findRev?_concat (p : ε → Bool) (log : List ε) (x : ε) :
    (log ++ [x]).findRev? p = if p x then some x else log.findRev? p := by
  induction log with
  | nil => cases hp : p x <;> simp [List.findRev?, hp]
  | cons y log ih =>
    rw [List.cons_append, List.findRev?, ih]
    cases hp : p x <;> simp [List.findRev?]

end Robot
