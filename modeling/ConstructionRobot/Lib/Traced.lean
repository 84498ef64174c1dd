import ConstructionRobot.Lib.Call
import Mathlib.Order.Filter.AtTopBot.Basic

/-!
# Calls with a log

A call that writes down events on the way. The log stays when the call does not return.

A function with a loop or a recursion is given fuel: a number that bounds them. `f n` is the call
with fuel `n`, which hangs if `n` is too small.

* `Ends f l a`: with enough fuel the call returns `a`, and its log is `l`.
* `Traced.Le`: more fuel changes nothing about a call that returns.
* `Traced.Confined P c`: every event is one that `P` allows, or the call ends with a fault.
* `Settles P f Q`: if every event is one that `P` allows, the call returns, and `Q` holds of its
  log and its result. The events are what the environment of the call is asked to respect.
* `settles_bind`, `settles_emit`, `settles_succ`: the rules for it.
-/

namespace Robot

open Filter

/-- The events of a call, and how it ends. -/
structure Traced (ε α : Type) where
  log : List ε
  res : Call α
  deriving DecidableEq, Repr

namespace Traced

variable {ε α β : Type}

/-- The rest of the program runs only if the call returned. -/
protected def bind (c : Traced ε α) (f : α → Traced ε β) : Traced ε β :=
  match c.res with
  | .ret a => ⟨c.log ++ (f a).log, (f a).res⟩
  | .hang => ⟨c.log, .hang⟩
  | .fault => ⟨c.log, .fault⟩

instance : Monad (Traced ε) where
  pure a := ⟨[], .ret a⟩
  bind := Traced.bind

instance : MonadLift Call (Traced ε) where
  monadLift c := ⟨[], c⟩

/-- Writes an event to the log. -/
def emit (e : ε) : Traced ε Unit := ⟨[e], .ret ()⟩

/-- No fuel left. -/
def diverge : Traced ε α := ⟨[], .hang⟩

theorem pure_def (a : α) : (pure a : Traced ε α) = ⟨[], .ret a⟩ := rfl

theorem mk_ret_bind (l : List ε) (a : α) (f : α → Traced ε β) :
    ((⟨l, .ret a⟩ : Traced ε α) >>= f) = ⟨l ++ (f a).log, (f a).res⟩ := rfl

@[simp] theorem liftM_ret_bind (a : α) (f : α → Traced ε β) :
    ((liftM (Call.ret a) : Traced ε α) >>= f) = f a := rfl

/-- The log of the first call starts the log of a sequence. -/
theorem mem_bind_log {c : Traced ε α} {f : α → Traced ε β} {e : ε} (h : e ∈ c.log) :
    e ∈ (c >>= f).log := by
  obtain ⟨l, r⟩ := c
  cases r with
  | ret a => exact List.mem_append_left _ h
  | hang => exact h
  | fault => exact h

theorem bind_eq_ret {c : Traced ε α} {f : α → Traced ε β} {l : List ε} {b : β} :
    (c >>= f) = ⟨l, .ret b⟩ ↔
      ∃ l₁ l₂ a, c = ⟨l₁, .ret a⟩ ∧ f a = ⟨l₂, .ret b⟩ ∧ l = l₁ ++ l₂ := by
  constructor
  · intro h
    obtain ⟨l₁, r⟩ := c
    cases r with
    | ret a =>
      rw [mk_ret_bind, Traced.mk.injEq] at h
      refine ⟨l₁, (f a).log, a, rfl, ?_, h.1.symm⟩
      rw [← h.2]
    | hang =>
      have hres : (Call.hang : Call β) = .ret b := congrArg Traced.res h
      cases hres
    | fault =>
      have hres : (Call.fault : Call β) = .ret b := congrArg Traced.res h
      cases hres
  · rintro ⟨l₁, l₂, a, rfl, h, rfl⟩
    rw [mk_ret_bind, h]

theorem bind_assoc {γ : Type} (c : Traced ε α) (f : α → Traced ε β) (g : β → Traced ε γ) :
    (c >>= f >>= g) = c >>= fun a => f a >>= g := by
  obtain ⟨l, r⟩ := c
  cases r with
  | ret a =>
    rw [mk_ret_bind, mk_ret_bind]
    rcases f a with ⟨l', b | _ | _⟩
    · rw [mk_ret_bind, mk_ret_bind, List.append_assoc]
    · rfl
    · rfl
  | hang => rfl
  | fault => rfl

/-- The events of a sequence are those of the first call, and those of the second one if the first
one returns. -/
theorem forall_bind_log {P : ε → Prop} {c : Traced ε α} {f : α → Traced ε β} :
    (∀ e ∈ (c >>= f).log, P e) ↔
      (∀ e ∈ c.log, P e) ∧ ∀ a, c.res = .ret a → ∀ e ∈ (f a).log, P e := by
  obtain ⟨l, r⟩ := c
  cases r with
  | ret a =>
    rw [mk_ret_bind, List.forall_mem_append]
    refine and_congr_right fun _ => ⟨?_, fun h => h a rfl⟩
    rintro h b hb
    cases hb
    exact h
  | hang => exact ⟨fun h => ⟨h, fun a ha => by cases ha⟩, And.left⟩
  | fault => exact ⟨fun h => ⟨h, fun a ha => by cases ha⟩, And.left⟩

/-- Without its log a sequence of calls is a sequence of calls. -/
theorem bind_res (c : Traced ε α) (f : α → Traced ε β) :
    (c >>= f).res = c.res >>= fun a => (f a).res := by
  obtain ⟨l, r⟩ := c
  cases r <;> rfl

/-- A call without a log. -/
@[simp] theorem liftM_bind_pure_log (c : Call α) (f : α → β) :
    ((liftM c : Traced ε α) >>= fun a => pure (f a)).log = [] := by
  cases c <;> rfl

/-- Only a call with a fault has an event that `P` does not allow. -/
def Confined (P : ε → Prop) (c : Traced ε α) : Prop := (∀ e ∈ c.log, P e) ∨ c.res = .fault

section Confined

variable {P : ε → Prop} {c : Traced ε α}

theorem confined_of_log_nil (h : c.log = []) : c.Confined P := by
  refine .inl fun e he => ?_
  rw [h] at he
  cases he

theorem confined_pure (a : α) : (pure a : Traced ε α).Confined P := confined_of_log_nil rfl

theorem Confined.bind {f : α → Traced ε β} (hc : c.Confined P)
    (hf : ∀ a, c.res = .ret a → (f a).Confined P) : (c >>= f).Confined P := by
  obtain hall | hfault := hc
  · cases hres : c.res with
    | ret a =>
      refine (hf a hres).imp (fun hlog => forall_bind_log.mpr ⟨hall, fun b hb => ?_⟩) fun hlog => ?_
      · cases hres.symm.trans hb
        exact hlog
      · rw [bind_res, hres]
        exact hlog
    | hang => exact .inl (forall_bind_log.mpr ⟨hall, fun b hb => by cases hres.symm.trans hb⟩)
    | fault =>
      refine .inr ?_
      rw [bind_res, hres]
      rfl
  · refine .inr ?_
    rw [bind_res, hfault]
    rfl

/-- Every event of a call that returns is allowed. -/
theorem Confined.of_ret {a : α} (h : c.Confined P) (hc : c.res = .ret a) : ∀ e ∈ c.log, P e := by
  refine h.resolve_right fun hfault => ?_
  rw [hc] at hfault
  cases hfault

end Confined

/-- If `c` returns, `d` is the same. -/
def Le (c d : Traced ε α) : Prop := ∀ l a, c = ⟨l, .ret a⟩ → d = ⟨l, .ret a⟩

theorem Le.refl (c : Traced ε α) : c.Le c := fun _ _ h => h

theorem diverge_le (c : Traced ε α) : diverge.Le c := by
  intro l a h
  exact absurd (congrArg Traced.res h) (by simp [diverge])

theorem Le.bind {c d : Traced ε α} {f g : α → Traced ε β} (h : c.Le d)
    (hf : ∀ a, (f a).Le (g a)) : (c >>= f).Le (d >>= g) := by
  intro l b hb
  obtain ⟨l₁, l₂, a, hc, ha, rfl⟩ := bind_eq_ret.mp hb
  exact bind_eq_ret.mpr ⟨l₁, l₂, a, h l₁ a hc, hf a l₂ b ha, rfl⟩

end Traced

open Traced

section Fuel

variable {ε α β : Type} {P : ε → Prop} {f F : ℕ → Traced ε α} {g : ℕ → α → Traced ε β}
  {Q Q' : List ε → α → Prop} {R : List ε → β → Prop}

/-- With enough fuel the call returns `a` and has the log `l`. -/
def Ends (f : ℕ → Traced ε α) (l : List ε) (a : α) : Prop := ∀ᶠ n in atTop, f n = ⟨l, .ret a⟩

theorem ends_iff {l : List ε} {a : α} :
    Ends f l a ↔ ∃ N, ∀ n, N ≤ n → f n = ⟨l, .ret a⟩ := by
  simp [Ends, eventually_atTop]

/-- If more fuel changes nothing, one run that returns is enough. -/
theorem ends_of_le {a : α} (hle : ∀ n, (f n).Le (f (n + 1))) (N : ℕ)
    (h : (f N).res.ret? = some a) : Ends f (f N).log a := by
  have h : f N = ⟨(f N).log, .ret a⟩ := by rw [← Call.ret?_eq_some.mp h]
  refine ends_iff.mpr ⟨N, fun n hn => ?_⟩
  induction n, hn using Nat.le_induction with
  | base => exact h
  | succ n _ ih => exact hle n _ a ih

/-- A call has one result and one log. -/
theorem Ends.unique {l l' : List ε} {a a' : α} (h : Ends f l a) (h' : Ends f l' a') :
    l = l' ∧ a = a' := by
  obtain ⟨n, h₁, h₂⟩ := (h.and h').exists
  rw [h₁] at h₂
  simpa using h₂

theorem Ends.forall_log {l : List ε} {a : α} (h : Ends f l a) (hl : ∀ e ∈ l, P e) :
    ∀ᶠ n in atTop, ∀ e ∈ (f n).log, P e :=
  h.mono fun n hn => by rwa [hn]

/-- A call whose events are all allowed by `P` returns, with `Q`. -/
def Settles (P : ε → Prop) (f : ℕ → Traced ε α) (Q : List ε → α → Prop) : Prop :=
  (∀ᶠ n in atTop, ∀ e ∈ (f n).log, P e) → ∃ l a, Ends f l a ∧ Q l a

theorem settles_pure {a : α} (h : Q [] a) : Settles P (fun _ => pure a) Q :=
  fun _ => ⟨[], a, Eventually.of_forall fun _ => rfl, h⟩

/-- What follows an event may use that it was allowed. -/
theorem settles_emit {e : ε} {Q : List ε → Unit → Prop} (h : P e → Q [e] ()) :
    Settles P (fun _ => emit e) Q := by
  intro hP
  refine ⟨[e], (), Eventually.of_forall fun _ => rfl, h ?_⟩
  obtain ⟨n, hn⟩ := hP.exists
  exact hn e List.mem_cons_self

theorem settles_mono (h : Settles P f Q) (hQ : ∀ l a, Q l a → Q' l a) : Settles P f Q' := by
  intro hP
  obtain ⟨l, a, he, hq⟩ := h hP
  exact ⟨l, a, he, hQ l a hq⟩

/-- One call after the other. -/
theorem settles_bind (hf : Settles P f Q)
    (hg : ∀ l a, Q l a → Settles P (fun n => g n a) fun l' b => R (l ++ l') b) :
    Settles P (fun n => f n >>= g n) R := by
  intro hP
  obtain ⟨l, a, he, hq⟩ := hf (hP.mono fun n hn e h => hn e (mem_bind_log h))
  -- from some fuel on the first call is over, and its log is followed by that of the second
  have hbind : ∀ᶠ n in atTop, (f n >>= g n) = ⟨l ++ (g n a).log, (g n a).res⟩ := by
    filter_upwards [he] with n hn
    rw [hn, mk_ret_bind]
  obtain ⟨l', b, he', hr⟩ := hg l a hq (by
    filter_upwards [hP, hbind] with n hn hb e h
    refine hn e ?_
    rw [hb]
    exact List.mem_append_right _ h)
  refine ⟨l ++ l', b, ?_, hr⟩
  filter_upwards [hbind, he'] with n hb hn
  rw [hb, hn]

/-- Calls that are the same with enough fuel. -/
theorem settles_congr (hF : ∀ᶠ n in atTop, F n = f n) (h : Settles P f Q) : Settles P F Q := by
  intro hP
  obtain ⟨l, a, he, hq⟩ := h (by
    filter_upwards [hP, hF] with n hn hFn
    rwa [← hFn])
  refine ⟨l, a, ?_, hq⟩
  filter_upwards [he, hF] with n hn hFn
  rw [hFn, hn]

/-- A recursive call has one less fuel. -/
theorem settles_succ (hF : ∀ n, F (n + 1) = f n) (h : Settles P f Q) : Settles P F Q := by
  intro hP
  obtain ⟨l, a, he, hq⟩ := h (by
    filter_upwards [(tendsto_add_atTop_nat 1).eventually hP] with n hn
    rwa [hF] at hn)
  refine ⟨l, a, ?_, hq⟩
  obtain ⟨N, hN⟩ := ends_iff.mp he
  refine ends_iff.mpr ⟨N + 1, fun n hn => ?_⟩
  obtain ⟨m, rfl⟩ : ∃ m, n = m + 1 := ⟨n - 1, by omega⟩
  rw [hF, hN m (by omega)]

end Fuel

end Robot
