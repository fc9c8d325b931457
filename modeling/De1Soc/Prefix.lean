import Mathlib.Data.List.DropRight
import Mathlib.Data.List.Infix

/-!
# De1Soc.Prefix

Statements about every step of a list: a property of all pairs `pre`, `c`
with `pre ++ [c]` a prefix of the list, peeled off from the front; and folds
that start over at some of the steps.  Nothing here is about the blinker.
-/

namespace List

variable {α : Type*}

/-- A property of every step of `a :: l` is the property of the first step
and, shifted by `a`, of every step of `l`. -/
theorem forall_snoc_prefix_cons {R : List α → α → Prop} {a : α} {l : List α} :
    (∀ pre c, pre ++ [c] <+: a :: l → R pre c) ↔
      R [] a ∧ ∀ pre c, pre ++ [c] <+: l → R (a :: pre) c := by
  constructor
  · intro h
    refine ⟨h [] a (by simp), fun pre c hp => ?_⟩
    exact h (a :: pre) c (by simpa using hp)
  · rintro ⟨ha, hl⟩ pre c hp
    cases pre with
    | nil =>
        have hca : c = a := by simpa using hp
        rw [hca]
        exact ha
    | cons x pre =>
        obtain ⟨rfl, hp'⟩ : x = a ∧ pre ++ [c] <+: l := by simpa using hp
        exact hl pre c hp'

/-- A fold that is back at its start after every step outside `p` is the fold
over the steps since the last of them. -/
theorem foldl_eq_foldl_rtakeWhile {β : Type*} {f : β → α → β} {b : β} {p : α → Bool}
    (h : ∀ x a, p a = false → f x a = b) (l : List α) :
    l.foldl f b = (l.rtakeWhile p).foldl f b := by
  induction l using List.reverseRecOn with
  | nil => rfl
  | append_singleton l a ih =>
      rw [rtakeWhile_concat, foldl_append, foldl_cons, foldl_nil]
      cases hp : p a with
      | true => rw [if_pos rfl, foldl_append, foldl_cons, foldl_nil, ih]
      | false => rw [if_neg Bool.false_ne_true, h _ a hp, foldl_nil]

end List
