import Mathlib.Data.List.Basic

/-!
# Codes

A code gives each message a word. Messages are sent by writing their words one behind the other.

* `PrefixFree encode`: no word is the beginning of another one. `prefixFree_of_size`: it is enough
  that the length of a word can be read from the word and anything behind it.
* `Begun encode t`: `t` is the beginning of a word, but not all of it.
* `stream_unique`: what was written so far is words and the beginning of one in one way only.
-/

namespace Robot

section Code

variable {α β : Type} {encode : α → List β}

/-- No word is the beginning of another one. -/
def PrefixFree (encode : α → List β) : Prop :=
  ∀ a b, encode a <+: encode b → encode a = encode b

/-- The beginning of a word. -/
def Begun (encode : α → List β) (t : List β) : Prop :=
  ∃ a, t <+: encode a ∧ t ≠ encode a

theorem prefixFree_of_size {size : List β → ℕ}
    (h : ∀ a rest, size (encode a ++ rest) = (encode a).length) : PrefixFree encode := by
  rintro a b ⟨rest, hb⟩
  have hlen : (encode b).length = (encode a).length := by
    rw [← h b [], List.append_nil, ← hb, h a rest]
  have hrest : rest.length = 0 := by
    rw [← hb, List.length_append] at hlen
    omega
  rw [← hb, List.length_eq_zero_iff.mp hrest, List.append_nil]

/-- Nothing that begins with a word is only the beginning of one. -/
theorem PrefixFree.not_begun (h : PrefixFree encode) (a : α) (rest : List β) :
    ¬ Begun encode (encode a ++ rest) := by
  rintro ⟨b, hpre, hne⟩
  have hab : encode a = encode b := h a b ((List.prefix_append _ _).trans hpre)
  have hlen := hpre.length_le
  rw [List.length_append, hab] at hlen
  have hrest : rest = [] := List.length_eq_zero_iff.mp (by omega)
  rw [hrest, List.append_nil] at hne
  exact hne hab

/-- Two words with something behind them. -/
theorem PrefixFree.append_inj (h : PrefixFree encode) {a b : α} {s t : List β}
    (heq : encode a ++ s = encode b ++ t) : encode a = encode b ∧ s = t := by
  have hab : encode a = encode b := by
    rcases List.prefix_or_prefix_of_prefix (List.prefix_append (encode a) s)
      (heq ▸ List.prefix_append (encode b) t) with hpre | hpre
    · exact h a b hpre
    · exact (h b a hpre).symm
  refine ⟨hab, ?_⟩
  rwa [hab, List.append_cancel_left_eq] at heq

theorem stream_unique (h : PrefixFree encode) {as bs : List α} {t u : List β}
    (ht : Begun encode t) (hu : Begun encode u)
    (heq : as.flatMap encode ++ t = bs.flatMap encode ++ u) :
    as.map encode = bs.map encode ∧ t = u := by
  induction as generalizing bs with
  | nil =>
    cases bs with
    | nil => exact ⟨rfl, by simpa using heq⟩
    | cons b bs =>
      rw [List.flatMap_nil, List.nil_append, List.flatMap_cons, List.append_assoc] at heq
      exact absurd (heq ▸ ht) (h.not_begun b _)
  | cons a as ih =>
    cases bs with
    | nil =>
      rw [List.flatMap_nil, List.nil_append, List.flatMap_cons, List.append_assoc] at heq
      exact absurd (heq ▸ hu) (h.not_begun a _)
    | cons b bs =>
      rw [List.flatMap_cons, List.flatMap_cons, List.append_assoc, List.append_assoc] at heq
      obtain ⟨hab, hrest⟩ := h.append_inj heq
      obtain ⟨hmap, htu⟩ := ih hrest
      exact ⟨by rw [List.map_cons, List.map_cons, hab, hmap], htu⟩

end Code

end Robot
