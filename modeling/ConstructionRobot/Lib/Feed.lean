import ConstructionRobot.Lib.Traced
import Mathlib.Data.List.Infix

/-!
# Machines that are fed

A machine takes one symbol after the other and writes a log (`feed`). What its state knows about
the symbols it was fed is an invariant of the list of these symbols and the state.

* `feed_append`: a word in two parts.
* `feed_inv`: a step lemma gives the invariant, and a property of all events, for every word.
* `suffix_concat`, `take_set`: the two facts about lists that such invariants need: a symbol behind
  the end of what was read, and a symbol behind the part of an array that is filled.
-/

namespace Robot

open Traced

section Lists

variable {α : Type}

/-- One more symbol at both ends. -/
theorem suffix_concat {xs ys : List α} (h : xs <:+ ys) (a : α) : xs ++ [a] <:+ ys ++ [a] := by
  obtain ⟨front, rfl⟩ := h
  exact ⟨front, (List.append_assoc front xs [a]).symm⟩

/-- A symbol goes behind those that are there. -/
theorem take_set {n : ℕ} (v : Vector α n) {i : ℕ} (hi : i < n) (a : α) :
    (v.set i a).toList.take (i + 1) = v.toList.take i ++ [a] := by
  have hlen : i < v.toList.length := by rwa [Vector.length_toList]
  rw [Vector.toList_set, List.take_set, List.take_succ_eq_append_getElem hlen,
    List.set_append_right _ _ (by rw [List.length_take]; omega), List.length_take,
    Nat.min_eq_left (by omega), Nat.sub_self]
  rfl

end Lists

section Feed

variable {ε σ β : Type}

/-- The symbols one after the other. -/
def feed (step : σ → β → Traced ε σ) (s : σ) : List β → Traced ε σ
  | [] => pure s
  | b :: bs => step s b >>= fun s => feed step s bs

variable {step : σ → β → Traced ε σ} {s s' : σ} {b : β} {l : List ε}

theorem feed_nil : feed step s [] = ⟨[], .ret s⟩ := rfl

theorem feed_cons (h : step s b = ⟨l, .ret s'⟩) (bs : List β) :
    feed step s (b :: bs) = ⟨l ++ (feed step s' bs).log, (feed step s' bs).res⟩ := by
  rw [feed, h, mk_ret_bind]

/-- A word in two parts. -/
theorem feed_append (xs ys : List β) :
    feed step s (xs ++ ys) = feed step s xs >>= fun s => feed step s ys := by
  induction xs generalizing s with
  | nil => rfl
  | cons x xs ih =>
    rw [List.cons_append, feed, feed, Traced.bind_assoc]
    congr 1
    funext s
    exact ih

/-- What one symbol keeps and logs, every word does. -/
theorem feed_inv {Inv : List β → σ → Prop} {P : ε → Prop}
    (hstep : ∀ pre s b, Inv pre s →
      ∃ l s', step s b = ⟨l, .ret s'⟩ ∧ Inv (pre ++ [b]) s' ∧ ∀ e ∈ l, P e)
    {pre : List β} (h : Inv pre s) (bs : List β) :
    ∃ l s', feed step s bs = ⟨l, .ret s'⟩ ∧ Inv (pre ++ bs) s' ∧ ∀ e ∈ l, P e := by
  induction bs generalizing pre s with
  | nil => exact ⟨[], s, rfl, by rwa [List.append_nil], by simp⟩
  | cons b bs ih =>
    obtain ⟨l₁, s₁, h₁, hinv, hl₁⟩ := hstep pre s b h
    obtain ⟨l₂, s₂, h₂, hinv₂, hl₂⟩ := ih hinv
    refine ⟨l₁ ++ l₂, s₂, ?_, by rwa [List.append_cons], List.forall_mem_append.mpr ⟨hl₁, hl₂⟩⟩
    rw [feed_cons h₁, h₂]

end Feed

end Robot
