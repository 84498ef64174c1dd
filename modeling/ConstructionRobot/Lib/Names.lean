import Mathlib.Data.List.Basic

/-!
# Names in memory

A name is a pointer to characters: two pointers may lead to the same text. Objects are looked up in
a list by the pointer of their name (`findName`), although a reader thinks of the text. `N` is the
type of the pointers, `text` gives the text at a pointer, and `name` the pointer that an object
keeps.

* `TextsDistinct`: objects with the same text are the same.
* `findName_of_text`: a name that spells that of an object finds it exactly if it is the pointer
  that the object keeps; else nothing is found.
* `findName_of_unknown`: a name that spells that of no object finds nothing.
-/

namespace Robot

variable {X N T : Type}

/-- The first object whose name is at `n`. -/
def findName [DecidableEq N] (name : X → N) (n : N) (xs : List X) : Option X :=
  xs.find? fun x => name x = n

/-- No two objects of the list have names with the same text. -/
def TextsDistinct (text : N → T) (name : X → N) (xs : List X) : Prop :=
  ∀ x ∈ xs, ∀ y ∈ xs, text (name x) = text (name y) → x = y

section Find

variable [DecidableEq N] (text : N → T) {name : X → N} {xs : List X} {n : N}

theorem findName_of_text (hd : TextsDistinct text name xs) {x : X} (hx : x ∈ xs)
    (hn : text n = text (name x)) : findName name n xs = if n = name x then some x else none := by
  split
  · case isTrue heq =>
    cases hf : findName name n xs with
    | some y =>
      have hy := List.find?_some hf
      rw [decide_eq_true_eq] at hy
      rw [hd y (List.mem_of_find?_eq_some hf) x hx (by rw [hy, hn])]
    | none =>
      have hne := List.find?_eq_none.mp hf x hx
      exact absurd (decide_eq_true heq.symm) hne
  · case isFalse hne =>
    -- another object at this pointer would have the same text
    refine List.find?_eq_none.mpr fun y hy hyn => hne ?_
    have hyn : name y = n := of_decide_eq_true hyn
    rw [← hd y hy x hx (by rw [hyn, hn]), hyn]

theorem findName_of_unknown (hn : ∀ x ∈ xs, text n ≠ text (name x)) :
    findName name n xs = none := by
  refine List.find?_eq_none.mpr fun x hx hxn => hn x hx ?_
  rw [of_decide_eq_true hxn]

end Find

end Robot
