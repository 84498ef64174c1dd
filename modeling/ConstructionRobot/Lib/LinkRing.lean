import ConstructionRobot.Lib.Call
import Mathlib.Data.List.Chain
import Mathlib.Data.List.Nodup
import Mathlib.Logic.Function.Basic

/-!
# Doubly linked rings

The links of a set of nodes, each with a `next` and a `prev` pointer that may be null, and the
three operations on them of a list that is threaded through its elements.

* `Ring l h xs`: from the head `h` the links lead through the nodes `xs` and back, both ways.
* `ring_init`, `ring_add`, `ring_del`: the operations on one ring, with what they leave alone.
* `ring_add_again`: a node of a ring that is added once more, to this ring or to another one.
* `Ring.frame`: a ring whose nodes keep their links stays.
-/

namespace Robot

/-- The value of a pointer; following a null pointer is a fault. -/
def deref {α : Type} : Option α → Call α
  | some a => .ret a
  | none => .fault

@[simp] theorem deref_some {α : Type} (a : α) : deref (some a) = .ret a := rfl

@[simp] theorem deref_none {α : Type} : deref (none : Option α) = .fault := rfl

/-- The pointers of all nodes. -/
structure Links (N : Type) where
  next : N → Option N
  prev : N → Option N

section Ops

variable {N : Type} [DecidableEq N]

namespace Links

/-- `a->next = b`. -/
def setNext (l : Links N) (a : N) (b : Option N) : Links N :=
  { l with next := Function.update l.next a b }

/-- `a->prev = b`. -/
def setPrev (l : Links N) (a : N) (b : Option N) : Links N :=
  { l with prev := Function.update l.prev a b }

@[simp] theorem setNext_next (l : Links N) (a : N) (b : Option N) (n : N) :
    (l.setNext a b).next n = if n = a then b else l.next n := Function.update_apply ..

@[simp] theorem setNext_prev (l : Links N) (a : N) (b : Option N) :
    (l.setNext a b).prev = l.prev := rfl

@[simp] theorem setPrev_prev (l : Links N) (a : N) (b : Option N) (n : N) :
    (l.setPrev a b).prev n = if n = a then b else l.prev n := Function.update_apply ..

@[simp] theorem setPrev_next (l : Links N) (a : N) (b : Option N) :
    (l.setPrev a b).next = l.next := rfl

end Links

/-- `INIT_LIST_HEAD`. -/
def initListHead (l : Links N) (list : N) : Links N :=
  (l.setNext list (some list)).setPrev list (some list)

/-- `__list_add`. -/
def listAddBetween (l : Links N) (new prev next : N) : Links N :=
  (((l.setPrev next (some new)).setNext new (some next)).setPrev new (some prev)).setNext prev
    (some new)

/-- `list_add`. -/
def listAdd (l : Links N) (new head : N) : Call (Links N) := do
  let next ← deref (l.next head)
  pure (listAddBetween l new head next)

/-- `__list_del`. -/
def listDelBetween (l : Links N) (prev next : N) : Links N :=
  (l.setNext prev (some next)).setPrev next (some prev)

/-- `list_del`; the poison values are null. -/
def listDel (l : Links N) (entry : N) : Call (Links N) := do
  let prev ← deref (l.prev entry)
  let next ← deref (l.next entry)
  pure (((listDelBetween l prev next).setNext entry none).setPrev entry none)

end Ops

/-! ## Rings -/

section Ring

variable {N : Type}

/-- `b` stands after `a`. -/
def Links.Link (l : Links N) (a b : N) : Prop := l.next a = some b ∧ l.prev b = some a

/-- The links lead from `h` through `xs` back to `h`, and no node stands twice. -/
structure Ring (l : Links N) (h : N) (xs : List N) : Prop where
  chain : List.IsChain l.Link (h :: (xs ++ [h]))
  nodup : (h :: xs).Nodup

variable {l l' : Links N} {h x : N} {xs : List N}

/-- A path stays if its nodes keep the links between them. -/
theorem isChain_frame {ys : List N} (hc : ys.IsChain l.Link)
    (hn : ∀ a ∈ ys.dropLast, l'.next a = l.next a) (hp : ∀ b ∈ ys.tail, l'.prev b = l.prev b) :
    ys.IsChain l'.Link := by
  induction ys with
  | nil => exact List.IsChain.nil
  | cons a ys ih =>
    cases ys with
    | nil => exact List.IsChain.singleton a
    | cons b ys =>
      rw [List.isChain_cons_cons] at hc ⊢
      obtain ⟨⟨hab, hba⟩, hc⟩ := hc
      refine ⟨⟨?_, ?_⟩, ih hc (fun c hc => hn c ?_) fun c hc => hp c ?_⟩
      · rw [hn a (by simp), hab]
      · rw [hp b (by simp), hba]
      · rw [List.dropLast_cons_of_ne_nil (by simp)]
        exact List.mem_cons_of_mem _ hc
      · exact List.mem_cons_of_mem _ hc

/-- A ring stays if its nodes keep their links. -/
theorem Ring.frame (hr : Ring l h xs)
    (hk : ∀ n ∈ h :: xs, l'.next n = l.next n ∧ l'.prev n = l.prev n) : Ring l' h xs := by
  have hmem : ∀ n ∈ h :: (xs ++ [h]), n ∈ h :: xs := by
    intro n hn
    simp only [List.mem_cons, List.mem_append, List.not_mem_nil, or_false] at hn ⊢
    tauto
  refine ⟨isChain_frame hr.chain (fun a ha => ?_) fun b hb => ?_, hr.nodup⟩
  · exact (hk a (hmem a (List.dropLast_subset _ ha))).1
  · exact (hk b (hmem b (List.mem_of_mem_tail hb))).2

/-- The node after the head. -/
theorem Ring.next_head (hr : Ring l h xs) : ∃ n vs, xs ++ [h] = n :: vs ∧ l.next h = some n ∧
    (n :: vs).IsChain l.Link := by
  obtain ⟨hc, -⟩ := hr
  cases hv : xs ++ [h] with
  | nil => simp at hv
  | cons n vs =>
    rw [hv, List.isChain_cons_cons] at hc
    exact ⟨n, vs, rfl, hc.1.1, hc.2⟩

variable [DecidableEq N]

theorem ring_init (l : Links N) (h : N) : Ring (initListHead l h) h [] := by
  refine ⟨?_, List.nodup_singleton h⟩
  rw [List.nil_append, List.isChain_pair]
  simp [Links.Link, initListHead]

theorem initListHead_frame {n : N} (hn : n ≠ h) :
    (initListHead l h).next n = l.next n ∧ (initListHead l h).prev n = l.prev n := by
  simp [initListHead, hn]

/-- `list_add` puts the node first. -/
theorem ring_add (hr : Ring l h xs) (hx : x ∉ h :: xs) :
    ∃ l', listAdd l x h = .ret l' ∧ Ring l' h (x :: xs) ∧
      ∀ n ∉ x :: h :: xs, l'.next n = l.next n ∧ l'.prev n = l.prev n := by
  obtain ⟨n, vs, hv, hn, hc⟩ := hr.next_head
  have hnd := hr.nodup
  have hxh : x ≠ h := fun he => hx (by simp [he])
  have hnmem : n ∈ h :: xs := by
    have : n ∈ xs ++ [h] := by rw [hv]; exact List.mem_cons_self
    simp only [List.mem_append, List.mem_cons, List.not_mem_nil, or_false] at this ⊢
    tauto
  have hxn : x ≠ n := fun he => hx (he ▸ hnmem)
  -- the rest of the path holds `n` only in front and the head only at the end
  have hxs : (n :: vs).dropLast = xs := by rw [← hv, List.dropLast_concat]
  have hndv : (n :: vs).Nodup := by
    rw [← hv]
    exact List.nodup_append_comm.mp hnd
  have hmemv : ∀ m ∈ vs, m ∈ h :: xs := by
    intro m hm
    have : m ∈ xs ++ [h] := by rw [hv]; exact List.mem_cons_of_mem _ hm
    simp only [List.mem_append, List.mem_cons, List.not_mem_nil, or_false] at this ⊢
    tauto
  refine ⟨listAddBetween l x h n, by simp [listAdd, hn], ⟨?_, ?_⟩, ?_⟩
  · rw [List.cons_append, hv, List.isChain_cons_cons, List.isChain_cons_cons]
    refine ⟨⟨?_, ?_⟩, ⟨?_, ?_⟩, isChain_frame hc ?_ ?_⟩
    · simp [listAddBetween]
    · simp [listAddBetween]
    · simp [listAddBetween, hxh]
    · simp [listAddBetween, hxn.symm]
    · intro a ha
      rw [hxs] at ha
      have hah : a ≠ h := fun he => (List.nodup_cons.mp hnd).1 (he ▸ ha)
      have hax : a ≠ x := fun he => hx (he ▸ List.mem_cons_of_mem _ ha)
      simp [listAddBetween, hah, hax]
    · intro b hb
      have hbn : b ≠ n := fun he => (List.nodup_cons.mp hndv).1 (he ▸ hb)
      have hbx : b ≠ x := fun he => hx (he ▸ hmemv b hb)
      simp [listAddBetween, hbn, hbx]
  · rw [List.nodup_cons] at hnd ⊢
    simp only [List.mem_cons, not_or] at hx ⊢
    exact ⟨⟨hxh.symm, hnd.1⟩, List.nodup_cons.mpr ⟨hx.2, hnd.2⟩⟩
  · intro m hm
    rw [List.mem_cons, not_or] at hm
    have hmh : m ≠ h := fun he => hm.2 (by simp [he])
    have hmn : m ≠ n := fun he => hm.2 (he ▸ hnmem)
    simp [listAddBetween, hmh, hm.1, hmn]

omit [DecidableEq N] in
/-- A ring with the nodes `ys` and `zs` around a hole: `p` ends the path to it and `n` begins the
path behind it. -/
theorem ring_path {us vs ys zs : List N} {p n : N} (hu : h :: ys = us ++ [p])
    (hv : zs ++ [h] = n :: vs) (ws : List N) :
    h :: (ys ++ ws ++ zs ++ [h]) = us ++ p :: (ws ++ n :: vs) := by
  calc h :: (ys ++ ws ++ zs ++ [h]) = (h :: ys) ++ (ws ++ (zs ++ [h])) := by simp
    _ = us ++ p :: (ws ++ n :: vs) := by rw [hu, hv]; simp

omit [DecidableEq N] in
/-- The nodes before and after a node. -/
theorem Ring.neighbours {ys zs : List N} (hr : Ring l h (ys ++ x :: zs)) :
    ∃ us p n vs, h :: ys = us ++ [p] ∧ zs ++ [h] = n :: vs ∧ l.Link p x ∧ l.Link x n ∧
      (us ++ [p]).IsChain l.Link ∧ (n :: vs).IsChain l.Link := by
  obtain ⟨us, p, hu⟩ : ∃ us p, h :: ys = us ++ [p] :=
    ⟨(h :: ys).dropLast, (h :: ys).getLast (by simp), (List.dropLast_append_getLast _).symm⟩
  obtain ⟨n, vs, hv⟩ : ∃ n vs, zs ++ [h] = n :: vs := List.exists_cons_of_ne_nil (by simp)
  have hpath : h :: (ys ++ x :: zs ++ [h]) = us ++ p :: x :: n :: vs := by
    simpa using ring_path hu hv [x]
  have hc := hr.chain
  rw [hpath, List.isChain_append_cons_cons, List.isChain_cons_cons] at hc
  obtain ⟨hcu, hpx, hxn, hcv⟩ := hc
  exact ⟨us, p, n, vs, hu, hv, hpx, hxn, hcu, hcv⟩

omit [DecidableEq N] in
/-- Every node of a ring is the node before its next one. -/
theorem Ring.prev_next {m n : N} (hr : Ring l h xs) (hn : n ∈ h :: xs) (hm : l.next n = some m) :
    l.prev m = some n := by
  have hlink : ∃ m', l.Link n m' := by
    rcases List.mem_cons.mp hn with rfl | hn
    · obtain ⟨m', vs, hv, -, -⟩ := hr.next_head
      have hc := hr.chain
      rw [hv, List.isChain_cons_cons] at hc
      exact ⟨m', hc.1⟩
    · obtain ⟨ys, zs, rfl⟩ := List.append_of_mem hn
      obtain ⟨-, -, m', -, -, -, -, hlink, -⟩ := hr.neighbours
      exact ⟨m', hlink⟩
  obtain ⟨m', hnext, hprev⟩ := hlink
  rwa [Option.some.inj (hm.symm.trans hnext)]

/-- `list_add` of a node that is in a ring already: some node of the ring leads to it, but is not
the one before it. -/
theorem ring_add_again {h' : N} (hr : Ring l h xs) (hx : x ∈ xs) (hadd : listAdd l x h' = .ret l') :
    ∃ q ∈ h :: xs, l'.next q = some x ∧ l'.prev x ≠ some q ∧ (q = x → h' ∈ h :: xs) := by
  obtain ⟨ys, zs, rfl⟩ := List.append_of_mem hx
  obtain ⟨us, p, -, -, hu, -, ⟨hpx, -⟩, -, -⟩ := hr.neighbours
  have hp : p ∈ h :: ys := by rw [hu]; simp
  have hmem : p ∈ h :: (ys ++ x :: zs) := by
    rw [← List.cons_append]
    exact List.mem_append_left _ hp
  have hne : p ≠ x := by
    have hnd := hr.nodup
    grind
  obtain ⟨n, hn, hret⟩ := Call.bind_eq_ret.mp hadd
  cases hret
  have hnext : l.next h' = some n := by
    cases hh : l.next h' with
    | none =>
      rw [hh] at hn
      cases hn
    | some n' =>
      rw [hh] at hn
      cases hn
      rfl
  have hprev : (listAddBetween l x h' n).prev x = some h' := by simp [listAddBetween]
  by_cases hph : p = h'
  · -- the node stands first in the ring that it is added to: it leads to itself
    obtain rfl : x = n := Option.some.inj (hpx.symm.trans (by rw [hph, hnext]))
    refine ⟨x, by simp, ?_, ?_, fun _ => hph ▸ hmem⟩
    · simp [listAddBetween, show x ≠ h' from fun he => hne (hph.trans he.symm)]
    · rw [hprev, ← hph]
      simpa using hne
  · refine ⟨p, hmem, ?_, ?_, fun he => absurd he hne⟩
    · simp [listAddBetween, hph, hne, hpx]
    · rw [hprev]
      simpa using Ne.symm hph

/-- `list_del` takes the node out. -/
theorem ring_del (hr : Ring l h xs) (hx : x ∈ xs) :
    ∃ l', listDel l x = .ret l' ∧ Ring l' h (xs.erase x) ∧
      ∀ n ∉ h :: xs, l'.next n = l.next n ∧ l'.prev n = l.prev n := by
  obtain ⟨ys, zs, rfl⟩ := List.append_of_mem hx
  have hnd := hr.nodup
  obtain ⟨us, p, n, vs, hu, hv, ⟨-, hxp⟩, ⟨hxn, -⟩, hcu, hcv⟩ := hr.neighbours
  have hys : x ∉ ys := by grind
  have herase : (ys ++ x :: zs).erase x = ys ++ zs := by
    rw [List.erase_append_right _ hys, List.erase_cons_head]
  have hp : p ∈ h :: ys := by rw [hu]; simp
  have hn : n ∈ zs ++ [h] := by rw [hv]; simp
  have hus : ∀ a ∈ us, a ≠ p ∧ a ≠ x := by
    intro a ha
    have hnd' : (us ++ [p]).Nodup := by rw [← hu]; grind
    have ha' : a ∈ h :: ys := by rw [hu]; simp [ha]
    grind
  have hvs : ∀ b ∈ vs, b ≠ n ∧ b ≠ x := by
    intro b hb
    have hnd' : (n :: vs).Nodup := by rw [← hv]; grind
    have hb' : b ∈ zs ++ [h] := by rw [hv]; simp [hb]
    grind
  refine ⟨((listDelBetween l p n).setNext x none).setPrev x none, by simp [listDel, hxp, hxn],
    ⟨?_, ?_⟩, ?_⟩
  · have hpath : h :: (ys ++ zs ++ [h]) = us ++ p :: n :: vs := by
      simpa using ring_path hu hv []
    rw [herase, hpath, List.isChain_append_cons_cons]
    refine ⟨isChain_frame hcu ?_ ?_, ⟨?_, ?_⟩, isChain_frame hcv ?_ ?_⟩
    · intro a ha
      rw [List.dropLast_concat] at ha
      simp [listDelBetween, hus a ha]
    · intro b hb
      have hb' : b ∈ ys := by
        have := hu ▸ hb
        simpa using this
      have hbn : b ≠ n := by grind
      have hbx : b ≠ x := by grind
      simp [listDelBetween, hbn, hbx]
    · have hpx : p ≠ x := by grind
      simp [listDelBetween, hpx]
    · have hnx : n ≠ x := by grind
      simp [listDelBetween, hnx]
    · intro a ha
      rw [← hv, List.dropLast_concat] at ha
      have hap : a ≠ p := by grind
      have hax : a ≠ x := by grind
      simp [listDelBetween, hap, hax]
    · intro b hb
      simp [listDelBetween, hvs b hb]
  · rw [herase]
    grind
  · intro m hm
    have hmp : m ≠ p := by grind
    have hmn : m ≠ n := by grind
    have hmx : m ≠ x := by grind
    simp [listDelBetween, hmp, hmn, hmx]

end Ring

end Robot
