import Mathlib.Data.Int.Init

/-!
# De1Soc.Patch

Data that are written over a store with addresses in `Int`.

`patch f offset data` is the store `f` with `data` from `offset` on.  Patches that
follow one another without a gap are one patch (`patch_append`), and outside of its
range a patch changes nothing (`patch_of_not_within`).
-/

namespace Patch

variable {α : Type}

/-- `i` is one of the `n` addresses from `offset` on. -/
def Within (offset : Int) (n : Nat) (i : Int) : Prop := offset ≤ i ∧ i < offset + n

instance (offset : Int) (n : Nat) (i : Int) : Decidable (Within offset n i) :=
  inferInstanceAs (Decidable (offset ≤ i ∧ i < offset + n))

/-- The store `f` with `data` from `offset` on. -/
def patch (f : Int → α) (offset : Int) (data : List α) (i : Int) : α :=
  if offset ≤ i then data[(i - offset).toNat]?.getD (f i) else f i

theorem patch_nil (f : Int → α) (offset : Int) : patch f offset [] = f := by
  funext i
  simp [patch]

theorem patch_add (f : Int → α) (offset : Int) (data : List α) (k : Nat) :
    patch f offset data (offset + k) = data[k]?.getD (f (offset + k)) := by
  have hk : (offset + k - offset).toNat = k := by omega
  rw [patch, if_pos (by omega), hk]

theorem patch_of_not_within {f : Int → α} {offset : Int} {data : List α} {i : Int}
    (h : ¬ Within offset data.length i) : patch f offset data i = f i := by
  unfold patch
  split
  · next hle =>
      have hout : data.length ≤ (i - offset).toNat := by
        unfold Within at h
        omega
      rw [List.getElem?_eq_none hout, Option.getD_none]
  · rfl

/-- **Patches without a gap are one patch.** -/
theorem patch_append (f : Int → α) (offset : Int) (a b : List α) :
    patch (patch f offset a) (offset + a.length) b = patch f offset (a ++ b) := by
  funext i
  by_cases hle : offset ≤ i
  · obtain ⟨k, rfl⟩ := Int.le.dest hle
    rw [patch_add f offset (a ++ b) k]
    by_cases hk : k < a.length
    · rw [patch, if_neg (by omega), patch_add, List.getElem?_append_left hk]
    · have hsub : (offset + k - (offset + a.length)).toNat = k - a.length := by omega
      rw [patch, if_pos (by omega), hsub, patch_add, List.getElem?_append_right (by omega),
        List.getElem?_eq_none (by omega : a.length ≤ k), Option.getD_none]
  · rw [patch, if_neg (by omega), patch, if_neg hle, patch, if_neg hle]

end Patch
