import Mathlib.Data.List.Basic
import Mathlib.Logic.Basic

/-!
# Systems of threads

A system is a function `step` that says, for a state and an event, if the event can happen there,
the state after it and what is observed. A run is a list of events, in any order.

* `runLog`: the state after a run, and all observations. `AllSteps C`: every step of the run
  starts in a state that meets the condition `C`; `AllSteps.and`: two conditions;
  `AllSteps.left`, `AllSteps.right`: the parts of a run.
* `runLog_total`: a run of events that can always happen. `runLog_safe`, `runLog_ret`: one of events
  that can happen if they meet `C`.
* `runLog_guarantee`: steps that meet `C` keep an invariant and give good observations, and so do
  runs.
* `runLog_history`: the same for an invariant that reads what was observed so far.
  `runLog_prefix_iff`: such an invariant, if steps keep it exactly if they meet `C`.
* `runLog_countdown`: steps of one kind count a number down, and the others keep it.
* `runLog_iff`: all observations of a run are good exactly if all of its steps meet `C`.
* `specRun`: a run on an abstract level, where every event can happen. `runLog_refines`: a run
  whose steps meet `C` agrees with the abstract one. `allSteps_of_runLog`: no other run can happen.
* `RelRun`: a run whose steps are a relation. `relRun_refines`: it goes on, and agrees with the
  abstract one.
* `iterLog`: a machine without events. `runLog_stutters`: a run whose steps are steps of the
  machine, or show nothing of it.
* `runLog_projects`: a run whose steps are steps of another system, or show nothing of it.
* `allSteps_of_inv`: an invariant of the steps that meet `C`, and what it says of each of them.
  `allSteps_iff`: two conditions that are the same where the invariant holds.
* `Mutex`: a mutex that its owner may take again, as a number of holds.
-/

namespace Robot

section Run

variable {σ ε ο : Type}

/-- The events one after the other; `none` if one of them cannot happen. -/
def runLog (step : σ → ε → Option (σ × List ο)) (s : σ) : List ε → Option (σ × List ο)
  | [] => some (s, [])
  | e :: es => do
    let (s₁, l₁) ← step s e
    let (s₂, l₂) ← runLog step s₁ es
    pure (s₂, l₁ ++ l₂)

/-- Every step of the run starts in a state that meets `C`. -/
def AllSteps (step : σ → ε → Option (σ × List ο)) (C : σ → ε → Prop) (s : σ) : List ε → Prop
  | [] => True
  | e :: es => C s e ∧ ∀ s₁ l₁, step s e = some (s₁, l₁) → AllSteps step C s₁ es

variable {step : σ → ε → Option (σ × List ο)} {s s' : σ} {e : ε} {es : List ε} {l : List ο}

theorem runLog_nil : runLog step s [] = some (s', l) ↔ s = s' ∧ l = [] := by
  rw [runLog, Option.some.injEq, Prod.mk.injEq]
  exact and_congr_right fun _ => eq_comm

theorem runLog_cons : runLog step s (e :: es) = some (s', l) ↔
    ∃ s₁ l₁ l₂, step s e = some (s₁, l₁) ∧ runLog step s₁ es = some (s', l₂) ∧ l = l₁ ++ l₂ := by
  simp only [runLog, Option.bind_eq_bind, Option.bind_eq_some_iff, Option.pure_def,
    Option.some.injEq, Prod.exists, Prod.mk.injEq]
  constructor
  · rintro ⟨s₁, l₁, h₁, s₂, l₂, h₂, rfl, rfl⟩
    exact ⟨s₁, l₁, l₂, h₁, h₂, rfl⟩
  · rintro ⟨s₁, l₁, l₂, h₁, h₂, rfl⟩
    exact ⟨s₁, l₁, h₁, s', l₂, h₂, rfl, rfl⟩

theorem runLog_append (es₁ es₂ : List ε) : runLog step s (es₁ ++ es₂) = some (s', l) ↔
    ∃ s₁ l₁ l₂, runLog step s es₁ = some (s₁, l₁) ∧ runLog step s₁ es₂ = some (s', l₂) ∧
      l = l₁ ++ l₂ := by
  induction es₁ generalizing s l with
  | nil =>
    constructor
    · intro h
      exact ⟨s, [], l, rfl, h, rfl⟩
    · rintro ⟨s₁, l₁, l₂, h₁, h₂, rfl⟩
      obtain ⟨rfl, rfl⟩ := runLog_nil.mp h₁
      exact h₂
  | cons e es₁ ih =>
    rw [List.cons_append, runLog_cons]
    constructor
    · rintro ⟨s₁, l₁, l₂, h₁, h₂, rfl⟩
      obtain ⟨s₂, l₃, l₄, h₃, h₄, rfl⟩ := ih.mp h₂
      exact ⟨s₂, l₁ ++ l₃, l₄, runLog_cons.mpr ⟨s₁, l₁, l₃, h₁, h₃, rfl⟩, h₄, by simp⟩
    · rintro ⟨s₂, l₃, l₄, h₃, h₄, rfl⟩
      obtain ⟨s₁, l₁, l₂, h₁, h₂, rfl⟩ := runLog_cons.mp h₃
      exact ⟨s₁, l₁, l₂ ++ l₄, h₁, ih.mpr ⟨s₂, l₂, l₄, h₂, h₄, rfl⟩, by simp⟩

/-- One more event. -/
theorem runLog_concat (es : List ε) : runLog step s (es ++ [e]) = some (s', l) ↔
    ∃ s₁ l₁ l₂, runLog step s es = some (s₁, l₁) ∧ step s₁ e = some (s', l₂) ∧ l = l₁ ++ l₂ := by
  rw [runLog_append]
  refine exists_congr fun s₁ => exists_congr fun l₁ => exists_congr fun l₂ =>
    and_congr_right fun _ => and_congr_left fun _ => ?_
  rw [runLog_cons]
  constructor
  · rintro ⟨s₂, l₃, l₄, h, hnil, rfl⟩
    obtain ⟨rfl, rfl⟩ := runLog_nil.mp hnil
    rwa [List.append_nil]
  · intro h
    exact ⟨s', l₂, [], h, rfl, (List.append_nil _).symm⟩

theorem allSteps_cons {C : σ → ε → Prop} {s₁ : σ} {l₁ : List ο}
    (h : step s e = some (s₁, l₁)) :
    AllSteps step C s (e :: es) ↔ C s e ∧ AllSteps step C s₁ es := by
  refine and_congr_right fun _ => ⟨fun hall => hall s₁ l₁ h, fun hall s₂ l₂ h₂ => ?_⟩
  rw [h, Option.some.injEq, Prod.mk.injEq] at h₂
  rwa [← h₂.1]

/-- A condition that can be evaluated can be evaluated along a run. -/
instance decidableAllSteps {C : σ → ε → Prop} [∀ s e, Decidable (C s e)] (s : σ) :
    (es : List ε) → Decidable (AllSteps step C s es)
  | [] => isTrue trivial
  | e :: es =>
    match h : step s e with
    | none => decidable_of_iff (C s e) ⟨fun hC => ⟨hC, fun _ _ h' => by simp [h] at h'⟩, And.left⟩
    | some (s₁, _) =>
      have := decidableAllSteps (C := C) s₁ es
      decidable_of_iff (C s e ∧ AllSteps step C s₁ es) (allSteps_cons h).symm

/-- A condition on the events only. -/
theorem allSteps_of_forall {C : ε → Prop} (h : ∀ e ∈ es, C e) :
    AllSteps step (fun _ e => C e) s es := by
  induction es generalizing s with
  | nil => trivial
  | cons e es ih =>
    obtain ⟨he, hes⟩ := List.forall_mem_cons.mp h
    exact ⟨he, fun s₁ _ _ => ih hes⟩

/-- A condition on a run is one on its beginning, and on the rest of it. -/
theorem AllSteps.left {C : σ → ε → Prop} {es₁ es₂ : List ε}
    (h : AllSteps step C s (es₁ ++ es₂)) : AllSteps step C s es₁ := by
  induction es₁ generalizing s with
  | nil => trivial
  | cons e es₁ ih => exact ⟨h.1, fun s₁ l₁ h₁ => ih (h.2 s₁ l₁ h₁)⟩

theorem AllSteps.right {C : σ → ε → Prop} {es₁ es₂ : List ε}
    (h : AllSteps step C s (es₁ ++ es₂)) (hrun : runLog step s es₁ = some (s', l)) :
    AllSteps step C s' es₂ := by
  induction es₁ generalizing s l with
  | nil =>
    obtain ⟨rfl, rfl⟩ := runLog_nil.mp hrun
    exact h
  | cons e es₁ ih =>
    obtain ⟨s₁, l₁, l₂, h₁, h₂, rfl⟩ := runLog_cons.mp hrun
    exact ih (h.2 s₁ l₁ h₁) h₂

/-- Two conditions. -/
theorem AllSteps.and {C D : σ → ε → Prop} (hC : AllSteps step C s es) (hD : AllSteps step D s es) :
    AllSteps step (fun s e => C s e ∧ D s e) s es := by
  induction es generalizing s with
  | nil => trivial
  | cons e es ih => exact ⟨⟨hC.1, hD.1⟩, fun s₁ l₁ h₁ => ih (hC.2 s₁ l₁ h₁) (hD.2 s₁ l₁ h₁)⟩

/-- If every event can happen and keeps `Inv`, every run can happen. -/
theorem runLog_total {Inv : σ → Prop}
    (hstep : ∀ s e, Inv s → ∃ s₁ l₁, step s e = some (s₁, l₁) ∧ Inv s₁)
    (hs : Inv s) (es : List ε) : ∃ s' l, runLog step s es = some (s', l) ∧ Inv s' := by
  induction es generalizing s with
  | nil => exact ⟨s, [], rfl, hs⟩
  | cons e es ih =>
    obtain ⟨s₁, l₁, h₁, hs₁⟩ := hstep s e hs
    obtain ⟨s', l, hrun, hs'⟩ := ih hs₁
    exact ⟨s', l₁ ++ l, runLog_cons.mpr ⟨s₁, l₁, l, h₁, hrun, rfl⟩, hs'⟩

/-- Steps that meet `C` keep `Inv` and give good observations: so do runs. -/
theorem runLog_guarantee {C : σ → ε → Prop} {Inv : σ → Prop} {Good : ο → Prop}
    (hstep : ∀ s e s₁ l₁, Inv s → C s e → step s e = some (s₁, l₁) →
      Inv s₁ ∧ ∀ o ∈ l₁, Good o)
    (hs : Inv s) (hall : AllSteps step C s es) (hrun : runLog step s es = some (s', l)) :
    Inv s' ∧ ∀ o ∈ l, Good o := by
  induction es generalizing s l with
  | nil =>
    obtain ⟨rfl, rfl⟩ := runLog_nil.mp hrun
    exact ⟨hs, by simp⟩
  | cons e es ih =>
    obtain ⟨s₁, l₁, l₂, h₁, h₂, rfl⟩ := runLog_cons.mp hrun
    obtain ⟨hC, hall₁⟩ := (allSteps_cons h₁).mp hall
    obtain ⟨hs₁, hl₁⟩ := hstep s e s₁ l₁ hs hC h₁
    obtain ⟨hs', hl₂⟩ := ih hs₁ hall₁ h₂
    refine ⟨hs', fun o ho => ?_⟩
    rcases List.mem_append.mp ho with ho | ho
    · exact hl₁ o ho
    · exact hl₂ o ho

/-- Steps that meet `C` can happen, keep `Inv` and give good observations: so do runs. -/
theorem runLog_safe {C : σ → ε → Prop} {Inv : σ → Prop} {Good : ο → Prop}
    (hstep : ∀ s e, Inv s → C s e →
      ∃ s₁ l₁, step s e = some (s₁, l₁) ∧ Inv s₁ ∧ ∀ o ∈ l₁, Good o)
    (hs : Inv s) (hall : AllSteps step C s es) :
    ∃ s' l, runLog step s es = some (s', l) ∧ Inv s' ∧ ∀ o ∈ l, Good o := by
  induction es generalizing s with
  | nil => exact ⟨s, [], rfl, hs, by simp⟩
  | cons e es ih =>
    obtain ⟨s₁, l₁, h₁, hs₁, hl₁⟩ := hstep s e hs hall.1
    obtain ⟨s', l, hrun, hs', hl⟩ := ih hs₁ (hall.2 s₁ l₁ h₁)
    exact ⟨s', l₁ ++ l, runLog_cons.mpr ⟨s₁, l₁, l, h₁, hrun, rfl⟩, hs',
      List.forall_mem_append.mpr ⟨hl₁, hl⟩⟩

/-- Steps that meet `C` can happen and keep `Inv`: so do runs. -/
theorem runLog_ret {C : σ → ε → Prop} {Inv : σ → Prop}
    (hstep : ∀ s e, Inv s → C s e → ∃ s₁ l₁, step s e = some (s₁, l₁) ∧ Inv s₁)
    (hs : Inv s) (hall : AllSteps step C s es) :
    ∃ s' l, runLog step s es = some (s', l) ∧ Inv s' := by
  have hsafe : ∀ s e, Inv s → C s e →
      ∃ s₁ l₁, step s e = some (s₁, l₁) ∧ Inv s₁ ∧ ∀ o ∈ l₁, True := by
    intro s e hs hC
    obtain ⟨s₁, l₁, h₁, hs₁⟩ := hstep s e hs hC
    exact ⟨s₁, l₁, h₁, hs₁, fun _ _ => trivial⟩
  obtain ⟨s', l, hrun, hs', -⟩ := runLog_safe hsafe hs hall
  exact ⟨s', l, hrun, hs'⟩

/-- Steps that meet `C` keep an invariant of the state and of what was observed so far. -/
theorem runLog_history {C : σ → ε → Prop} {Inv : σ → List ο → Prop}
    (hstep : ∀ s l e s₁ l₁, Inv s l → C s e → step s e = some (s₁, l₁) → Inv s₁ (l ++ l₁))
    {l₀ : List ο} (hs : Inv s l₀) (hall : AllSteps step C s es)
    (hrun : runLog step s es = some (s', l)) : Inv s' (l₀ ++ l) := by
  induction es generalizing s l₀ l with
  | nil =>
    obtain ⟨rfl, rfl⟩ := runLog_nil.mp hrun
    rwa [List.append_nil]
  | cons e es ih =>
    obtain ⟨s₁, l₁, l₂, h₁, h₂, rfl⟩ := runLog_cons.mp hrun
    obtain ⟨hC, hall₁⟩ := (allSteps_cons h₁).mp hall
    rw [← List.append_assoc]
    exact ih (hstep s l₀ e s₁ l₁ hs hC h₁) hall₁ h₂

/-- A step keeps an invariant of the state and of what was observed so far exactly if it meets `C`:
the invariant holds after every part of a run exactly if all steps meet `C`. -/
theorem runLog_prefix_iff {C : σ → ε → Prop} {Inv : σ → List ο → Prop}
    (htotal : ∀ s e, ∃ s₁ l₁, step s e = some (s₁, l₁))
    (hstep : ∀ s l e s₁ l₁, Inv s l → step s e = some (s₁, l₁) → (Inv s₁ (l ++ l₁) ↔ C s e))
    {l₀ : List ο} (hs : Inv s l₀) :
    (∀ es₁, es₁ <+: es → ∀ s' l, runLog step s es₁ = some (s', l) → Inv s' (l₀ ++ l)) ↔
      AllSteps step C s es := by
  induction es generalizing s l₀ with
  | nil =>
    refine iff_of_true (fun es₁ hes s' l hrun => ?_) trivial
    rw [List.prefix_nil.mp hes] at hrun
    obtain ⟨rfl, rfl⟩ := runLog_nil.mp hrun
    rwa [List.append_nil]
  | cons e es ih =>
    obtain ⟨s₁, l₁, h₁⟩ := htotal s e
    rw [allSteps_cons h₁]
    constructor
    · intro hall
      have hfirst : Inv s₁ (l₀ ++ l₁) := hall [e] ⟨es, rfl⟩ s₁ l₁
        (runLog_cons.mpr ⟨s₁, l₁, [], h₁, rfl, (List.append_nil _).symm⟩)
      refine ⟨(hstep s l₀ e s₁ l₁ hs h₁).mp hfirst, (ih hfirst).mp fun es₁ hes s' l hrun => ?_⟩
      rw [List.append_assoc]
      exact hall (e :: es₁) (List.cons_prefix_cons.mpr ⟨rfl, hes⟩) s' (l₁ ++ l)
        (runLog_cons.mpr ⟨s₁, l₁, l, h₁, hrun, rfl⟩)
    · rintro ⟨hC, hall⟩ es₁ hes s' l hrun
      have hfirst := (hstep s l₀ e s₁ l₁ hs h₁).mpr hC
      cases es₁ with
      | nil =>
        obtain ⟨rfl, rfl⟩ := runLog_nil.mp hrun
        rwa [List.append_nil]
      | cons e' es₁ =>
        obtain ⟨rfl, hes₁⟩ := List.cons_prefix_cons.mp hes
        obtain ⟨s₂, l₂, l₃, h₂, hrun₁, rfl⟩ := runLog_cons.mp hrun
        obtain ⟨rfl, rfl⟩ := Prod.mk.inj (Option.some.inj (h₁.symm.trans h₂))
        rw [← List.append_assoc]
        exact (ih hfirst).mpr hall es₁ hes₁ s' l₃ hrun₁

/-- Steps of the kind `p` count a number down, and the others keep it, if they meet `C`. -/
theorem runLog_countdown {P : ℕ → σ → Prop} {p : ε → Bool} {C : σ → ε → Prop} {n : ℕ}
    (hstep : ∀ n s e s₁ l₁, P n s → C s e → step s e = some (s₁, l₁) →
      P (if p e then n - 1 else n) s₁)
    (hs : P n s) (hall : AllSteps step C s es) (hrun : runLog step s es = some (s', l)) :
    P (n - es.countP p) s' := by
  induction es generalizing s n l with
  | nil =>
    obtain ⟨rfl, rfl⟩ := runLog_nil.mp hrun
    exact hs
  | cons e es ih =>
    obtain ⟨s₁, l₁, l₂, h₁, h₂, rfl⟩ := runLog_cons.mp hrun
    obtain ⟨he, hall⟩ := (allSteps_cons h₁).mp hall
    have hrest := ih (hstep n s e s₁ l₁ hs he h₁) hall h₂
    cases hp : p e with
    | true =>
      rw [List.countP_cons_of_pos hp, Nat.add_comm, ← Nat.sub_sub]
      rwa [hp, if_pos rfl] at hrest
    | false =>
      rw [List.countP_cons_of_neg (by simp [hp])]
      rwa [hp, if_neg Bool.false_ne_true] at hrest

/-- A step gives good observations exactly if it meets `C`, up to what is still pending
(`Pend`): all observations of a run are good exactly if all of its steps meet `C`. -/
theorem runLog_iff {C : σ → ε → Prop} {Inv Pend : σ → Prop} {Good : ο → Prop}
    (hstep : ∀ s e s₁ l₁, Inv s → step s e = some (s₁, l₁) →
      Inv s₁ ∧ (((∀ o ∈ l₁, Good o) ∧ Pend s₁) ↔ (Pend s ∧ C s e)))
    (hs : Inv s) (hrun : runLog step s es = some (s', l)) :
    ((∀ o ∈ l, Good o) ∧ Pend s') ↔ (Pend s ∧ AllSteps step C s es) := by
  induction es generalizing s l with
  | nil =>
    obtain ⟨rfl, rfl⟩ := runLog_nil.mp hrun
    simp [AllSteps]
  | cons e es ih =>
    obtain ⟨s₁, l₁, l₂, h₁, h₂, rfl⟩ := runLog_cons.mp hrun
    obtain ⟨hs₁, hiff⟩ := hstep s e s₁ l₁ hs h₁
    rw [allSteps_cons h₁, ← and_assoc, ← hiff, and_assoc, ← ih hs₁ h₂, List.forall_mem_append,
      and_assoc]

/-- The events one after the other on an abstract level, with one observation each. -/
def specRun {α : Type} (f : α → ε → α × ο) (a : α) : List ε → α × List ο
  | [] => (a, [])
  | e :: es => ((specRun f (f a e).1 es).1, (f a e).2 :: (specRun f (f a e).1 es).2)

section Refine

variable {α : Type} {R : σ → α → Prop} {f : α → ε → α × ο} {P C : σ → ε → Prop} {a : α}

/-- Steps that meet `P` and `C` agree with the abstract level: so do runs. -/
theorem runLog_refines
    (hret : ∀ s a e, R s a → P s e → C s e →
      ∃ s₁, step s e = some (s₁, [(f a e).2]) ∧ R s₁ (f a e).1)
    (hR : R s a) (hP : AllSteps step P s es) (hC : AllSteps step C s es) :
    ∃ s', runLog step s es = some (s', (specRun f a es).2) ∧ R s' (specRun f a es).1 := by
  induction es generalizing s a with
  | nil => exact ⟨s, rfl, hR⟩
  | cons e es ih =>
    obtain ⟨s₁, h₁, hR₁⟩ := hret s a e hR hP.1 hC.1
    obtain ⟨s', hrun, hR'⟩ := ih hR₁ ((allSteps_cons h₁).mp hP).2 ((allSteps_cons h₁).mp hC).2
    exact ⟨s', runLog_cons.mpr ⟨s₁, _, _, h₁, hrun, rfl⟩, hR'⟩

/-- If moreover a step that meets `P` but not `C` cannot happen, all steps of a run meet `C`. -/
theorem allSteps_of_runLog
    (hret : ∀ s a e, R s a → P s e → C s e →
      ∃ s₁, step s e = some (s₁, [(f a e).2]) ∧ R s₁ (f a e).1)
    (hnone : ∀ s a e, R s a → P s e → ¬C s e → step s e = none)
    (hR : R s a) (hP : AllSteps step P s es) (hrun : runLog step s es = some (s', l)) :
    AllSteps step C s es := by
  induction es generalizing s a l with
  | nil => trivial
  | cons e es ih =>
    obtain ⟨s₁, l₁, l₂, h₁, hrun₁, rfl⟩ := runLog_cons.mp hrun
    have hC : C s e := by
      by_contra hC
      rw [hnone s a e hR hP.1 hC] at h₁
      cases h₁
    obtain ⟨s₂, h₂, hR₂⟩ := hret s a e hR hP.1 hC
    obtain ⟨rfl, -⟩ := Prod.mk.inj (Option.some.inj (h₁.symm.trans h₂))
    exact (allSteps_cons h₁).mpr ⟨hC, ih hR₂ ((allSteps_cons h₁).mp hP).2 hrun₁⟩

end Refine

/-- A run whose steps are a relation, with one observation each. -/
inductive RelRun (step : σ → ε → ο → σ → Prop) : σ → List ε → List ο → σ → Prop where
  | nil (s : σ) : RelRun step s [] [] s
  | cons {s s₁ s' : σ} {e : ε} {es : List ε} {o : ο} {os : List ο} (hstep : step s e o s₁)
      (hrest : RelRun step s₁ es os s') : RelRun step s (e :: es) (o :: os) s'

/-- If every step can happen, and agrees with the abstract level, so do runs. -/
theorem relRun_refines {α : Type} {step : σ → ε → ο → σ → Prop} {R : σ → α → Prop}
    {f : α → ε → α × ο} {a : α} (htotal : ∀ s a e, R s a → ∃ o s₁, step s e o s₁)
    (hstep : ∀ s a e o s₁, R s a → step s e o s₁ → o = (f a e).2 ∧ R s₁ (f a e).1) (hR : R s a) :
    (∃ os s', RelRun step s es os s') ∧
      ∀ os s', RelRun step s es os s' → os = (specRun f a es).2 ∧ R s' (specRun f a es).1 := by
  induction es generalizing s a with
  | nil =>
    refine ⟨⟨[], s, .nil s⟩, fun os s' hrun => ?_⟩
    cases hrun
    exact ⟨rfl, hR⟩
  | cons e es ih =>
    obtain ⟨o, s₁, h₁⟩ := htotal s a e hR
    obtain ⟨⟨os, s', hrest⟩, -⟩ := ih (hstep s a e o s₁ hR h₁).2
    refine ⟨⟨o :: os, s', .cons h₁ hrest⟩, fun os' s'' hrun => ?_⟩
    cases hrun with
    | cons h₂ hrest₂ =>
      obtain ⟨rfl, hR₂⟩ := hstep s a e _ _ hR h₂
      obtain ⟨rfl, hR'⟩ := (ih hR₂).2 _ _ hrest₂
      exact ⟨rfl, hR'⟩

/-- If every step is a step of the part `π` of the state, or leaves it alone, so that `f` shows
nothing, the run of the part is a run. -/
theorem runLog_projects {σ' ε' ο' : Type} {step' : σ' → ε' → Option (σ' × List ο')} (π : σ → σ')
    (f : ο → Option ο')
    (hstep : ∀ s e s₁ l₁, step s e = some (s₁, l₁) →
      (∃ e', step' (π s) e' = some (π s₁, l₁.filterMap f)) ∨ (π s₁ = π s ∧ l₁.filterMap f = []))
    (hrun : runLog step s es = some (s', l)) :
    ∃ es', runLog step' (π s) es' = some (π s', l.filterMap f) := by
  induction es generalizing s l with
  | nil =>
    obtain ⟨rfl, rfl⟩ := runLog_nil.mp hrun
    exact ⟨[], rfl⟩
  | cons e es ih =>
    obtain ⟨s₁, l₁, l₂, h₁, h₂, rfl⟩ := runLog_cons.mp hrun
    obtain ⟨es', hrun'⟩ := ih h₂
    rw [List.filterMap_append]
    rcases hstep s e s₁ l₁ h₁ with ⟨e', he'⟩ | ⟨hs, hl⟩
    · exact ⟨e' :: es', runLog_cons.mpr ⟨_, _, _, he', hrun', rfl⟩⟩
    · rw [hl, List.nil_append, ← hs]
      exact ⟨es', hrun'⟩

/-- If steps that meet `C` keep `Inv`, and `Inv` and `C` give `D`, all steps meet `D`. -/
theorem allSteps_of_inv {Inv : σ → Prop} {C D : σ → ε → Prop}
    (hstep : ∀ s e s₁ l₁, Inv s → C s e → step s e = some (s₁, l₁) → Inv s₁)
    (hD : ∀ s e, Inv s → C s e → D s e) (hs : Inv s) (hall : AllSteps step C s es) :
    AllSteps step D s es := by
  induction es generalizing s with
  | nil => trivial
  | cons e es ih =>
    refine ⟨hD s e hs hall.1, fun s₁ l₁ h₁ => ?_⟩
    exact ih (hstep s e s₁ l₁ hs hall.1 h₁) (hall.2 s₁ l₁ h₁)

/-- If `Inv` makes `D` and `C` the same for steps that meet `P`, and steps that meet `C` keep it,
`D` and `C` are the same for runs. -/
theorem allSteps_iff {Inv : σ → Prop} {P C D : σ → ε → Prop}
    (hstep : ∀ s e s₁ l₁, Inv s → P s e → C s e → step s e = some (s₁, l₁) → Inv s₁)
    (hiff : ∀ s e, Inv s → P s e → (D s e ↔ C s e)) (hs : Inv s) (hP : AllSteps step P s es) :
    AllSteps step D s es ↔ AllSteps step C s es := by
  induction es generalizing s with
  | nil => exact Iff.rfl
  | cons e es ih =>
    constructor
    · rintro ⟨hD, hall⟩
      have hC := (hiff s e hs hP.1).mp hD
      exact ⟨hC, fun s₁ l₁ h₁ =>
        (ih (hstep s e s₁ l₁ hs hP.1 hC h₁) (hP.2 s₁ l₁ h₁)).mp (hall s₁ l₁ h₁)⟩
    · rintro ⟨hC, hall⟩
      exact ⟨(hiff s e hs hP.1).mpr hC, fun s₁ l₁ h₁ =>
        (ih (hstep s e s₁ l₁ hs hP.1 hC h₁) (hP.2 s₁ l₁ h₁)).mpr (hall s₁ l₁ h₁)⟩

section Iter

variable {α β : Type}

/-- `k` steps of a machine without events, and all that they show. -/
def iterLog (f : α → α × List β) (a : α) : ℕ → α × List β
  | 0 => (a, [])
  | k + 1 => ((iterLog f (f a).1 k).1, (f a).2 ++ (iterLog f (f a).1 k).2)

variable {f : α → α × List β} {a : α}

theorem iterLog_add (j k : ℕ) : iterLog f a (j + k) =
    ((iterLog f (iterLog f a j).1 k).1,
      (iterLog f a j).2 ++ (iterLog f (iterLog f a j).1 k).2) := by
  induction j generalizing a with
  | zero => rw [Nat.zero_add]; rfl
  | succ j ih =>
    rw [Nat.succ_add, iterLog, ih, iterLog]
    simp only [List.append_assoc]

/-- A machine that stands still. -/
theorem iterLog_of_fixed (h : f a = (a, [])) (k : ℕ) : iterLog f a k = (a, []) := by
  induction k with
  | zero => rfl
  | succ k ih => rw [iterLog, h, ih, List.append_nil]

/-- A machine that stands still after `n` steps has shown a part of what these show. -/
theorem iterLog_prefix {n : ℕ} (h : f (iterLog f a n).1 = ((iterLog f a n).1, [])) (k : ℕ) :
    (iterLog f a k).2 <+: (iterLog f a n).2 := by
  rcases Nat.le_total k n with hk | hk
  · obtain ⟨j, rfl⟩ := Nat.exists_eq_add_of_le hk
    rw [iterLog_add]
    exact List.prefix_append _ _
  · obtain ⟨j, rfl⟩ := Nat.exists_eq_add_of_le hk
    have hsame : (iterLog f a (n + j)).2 = (iterLog f a n).2 := by
      rw [iterLog_add, iterLog_of_fixed h, List.append_nil]
    exact ⟨[], by rw [List.append_nil, hsame]⟩

/-- What every step of the machine keeps. -/
theorem iterLog_inv {P : α → List β → Prop} (h₀ : P a [])
    (hstep : ∀ b l, P b l → P (f b).1 (l ++ (f b).2)) (k : ℕ) :
    P (iterLog f a k).1 (iterLog f a k).2 := by
  induction k with
  | zero => exact h₀
  | succ k ih =>
    rw [iterLog_add]
    simpa only [iterLog, List.append_nil] using hstep _ _ ih

/-- Every step of a run is a step of the machine, or does not change what the machine sees
(`view`) and shows nothing (`g`) of it: the run shows what some steps of the machine show. -/
theorem runLog_stutters {view : σ → α} {g : ο → Option β}
    (hstep : ∀ s e s₁ l₁, step s e = some (s₁, l₁) →
      (view s₁, l₁.filterMap g) = (view s, []) ∨ (view s₁, l₁.filterMap g) = f (view s))
    (hrun : runLog step s es = some (s', l)) :
    ∃ k, iterLog f (view s) k = (view s', l.filterMap g) := by
  induction es generalizing s l with
  | nil =>
    obtain ⟨rfl, rfl⟩ := runLog_nil.mp hrun
    exact ⟨0, rfl⟩
  | cons e es ih =>
    obtain ⟨s₁, l₁, l₂, h₁, h₂, rfl⟩ := runLog_cons.mp hrun
    obtain ⟨k, hk⟩ := ih h₂
    rw [List.filterMap_append]
    rcases hstep s e s₁ l₁ h₁ with hview | hview
    · obtain ⟨hv, hl⟩ := Prod.mk.inj hview
      exact ⟨k, by rw [hl, List.nil_append, ← hv, hk]⟩
    · exact ⟨k + 1, by rw [iterLog, ← hview, hk]⟩

end Iter

end Run

/-! ## Mutexes -/

/-- A mutex that its owner may take again: the owner, and how often more than once it holds
it. -/
structure Mutex (τ : Type) where
  owner : Option (τ × ℕ)
  deriving DecidableEq, Repr

namespace Mutex

variable {τ : Type} [DecidableEq τ]

/-- Taken by nobody. -/
def free : Mutex τ := ⟨none⟩

/-- Thread `t` takes the mutex; `none` while another thread has it. -/
def take (m : Mutex τ) (t : τ) : Option (Mutex τ) :=
  match m.owner with
  | none => some ⟨some (t, 0)⟩
  | some (u, n) => if u = t then some ⟨some (t, n + 1)⟩ else none

/-- Thread `t` gives back one hold. A thread that is not the owner changes nothing. -/
def release (m : Mutex τ) (t : τ) : Mutex τ :=
  match m.owner with
  | none => m
  | some (u, n) =>
    if u = t then (match n with | 0 => ⟨none⟩ | n + 1 => ⟨some (t, n)⟩) else m

/-- The holds of thread `t`. -/
def held (m : Mutex τ) (t : τ) : ℕ :=
  match m.owner with
  | none => 0
  | some (u, n) => if u = t then n + 1 else 0

variable {m m' : Mutex τ} {t u : τ}

@[simp] theorem held_free (t : τ) : (free : Mutex τ).held t = 0 := rfl

theorem held_take (h : m.take t = some m') : m'.held t = m.held t + 1 := by
  obtain ⟨_ | ⟨u, n⟩⟩ := m
  · simp only [take, Option.some.injEq] at h
    simp [← h, held]
  · by_cases hu : u = t
    · simp only [take, hu, ↓reduceIte, Option.some.injEq] at h
      simp [← h, held, hu]
    · simp [take, hu] at h

theorem held_take_ne (h : m.take t = some m') (hu : u ≠ t) :
    m'.held u = 0 ∧ m.held u = 0 := by
  obtain ⟨_ | ⟨v, n⟩⟩ := m
  · simp only [take, Option.some.injEq] at h
    simp [← h, held, hu.symm]
  · by_cases hv : v = t
    · simp only [take, hv, ↓reduceIte, Option.some.injEq] at h
      simp [← h, held, hv, hu.symm]
    · simp [take, hv] at h

theorem held_release (m : Mutex τ) (t : τ) : (m.release t).held t = m.held t - 1 := by
  obtain ⟨_ | ⟨u, n⟩⟩ := m
  · rfl
  · by_cases hu : u = t
    · cases n <;> simp [release, held, hu]
    · simp [release, held, hu]

theorem held_release_ne (m : Mutex τ) (hu : u ≠ t) : (m.release t).held u = m.held u := by
  obtain ⟨_ | ⟨v, n⟩⟩ := m
  · rfl
  · by_cases hv : v = t
    · cases n <;> simp [release, held, hv, hu.symm]
    · simp [release, held, hv]

/-- No two threads hold the mutex. -/
theorem held_eq_zero_of_ne (m : Mutex τ) (h : 0 < m.held t) (hu : u ≠ t) : m.held u = 0 := by
  obtain ⟨_ | ⟨v, n⟩⟩ := m
  · rfl
  · by_cases hv : v = t
    · simp [held, hv, hu.symm]
    · simp [held, hv] at h

end Mutex

end Robot
