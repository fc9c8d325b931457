import Mathlib.Data.List.TakeWhile

/-!
# De1Soc.Decimal

Decimal numerals as the kernel's string conversions take them: an optional
plus sign, digits, an optional newline at the end.  Nothing here is about the
blinker.
-/

namespace Decimal

/-- The value of a string of digits. -/
def digitsValue (ds : List Char) : Nat := ds.foldl (fun n d => 10 * n + (d.toNat - '0'.toNat)) 0

/-- `s` is a decimal numeral of value `v`. -/
def Numeral (s : List Char) (v : Nat) : Prop :=
  ∃ plus ds nl, (plus = [] ∨ plus = ['+']) ∧ ds ≠ [] ∧ (∀ d ∈ ds, d.isDigit = true) ∧
    (nl = [] ∨ nl = ['\n']) ∧ s = plus ++ (ds ++ nl) ∧ v = digitsValue ds

/-- The string behind its plus sign, if it has one. -/
def unsigned : List Char → List Char
  | '+' :: s => s
  | s => s

/-- The value of a numeral. -/
def parse (s : List Char) : Option Nat :=
  if (unsigned s).takeWhile Char.isDigit ≠ [] ∧
      ((unsigned s).dropWhile Char.isDigit = [] ∨ (unsigned s).dropWhile Char.isDigit = ['\n']) then
    some (digitsValue ((unsigned s).takeWhile Char.isDigit))
  else none

theorem exists_unsigned (s : List Char) :
    ∃ plus, (plus = [] ∨ plus = ['+']) ∧ s = plus ++ unsigned s := by
  unfold unsigned
  split
  · exact ⟨['+'], .inr rfl, rfl⟩
  · exact ⟨[], .inl rfl, rfl⟩

/-- A plus sign is no digit: it is stripped in front of digits, and only there. -/
theorem unsigned_append {plus ds nl : List Char} (hplus : plus = [] ∨ plus = ['+']) (hne : ds ≠ [])
    (hds : ∀ d ∈ ds, d.isDigit = true) : unsigned (plus ++ (ds ++ nl)) = ds ++ nl := by
  obtain rfl | rfl := hplus
  · obtain ⟨d, ds, rfl⟩ := List.exists_cons_of_ne_nil hne
    have hd : d ≠ '+' := by
      intro h
      have hdigit := hds d (by simp)
      rw [h] at hdigit
      contradiction
    rw [List.nil_append, List.cons_append]
    unfold unsigned
    split
    · next heq => exact absurd (List.cons.inj heq).1 hd
    · rfl
  · rfl

/-- **The parser accepts exactly the numerals.** -/
theorem parse_eq_some_iff (s : List Char) (v : Nat) : parse s = some v ↔ Numeral s v := by
  unfold parse
  constructor
  · intro h
    split at h
    · next hcond =>
        obtain ⟨plus, hplus, hs⟩ := exists_unsigned s
        have hsplit : unsigned s =
            (unsigned s).takeWhile Char.isDigit ++ (unsigned s).dropWhile Char.isDigit :=
          List.takeWhile_append_dropWhile.symm
        refine ⟨plus, _, _, hplus, hcond.1, fun d hd => List.mem_takeWhile_imp hd, hcond.2, ?_,
          (Option.some.inj h).symm⟩
        rw [← hsplit]
        exact hs
    · contradiction
  · rintro ⟨plus, ds, nl, hplus, hne, hds, hnl, rfl, rfl⟩
    have htake : (ds ++ nl).takeWhile Char.isDigit = ds := by
      rw [List.takeWhile_append_of_pos hds]
      obtain rfl | rfl := hnl <;> simp
    have hdrop : (ds ++ nl).dropWhile Char.isDigit = nl := by
      rw [List.dropWhile_append_of_pos hds]
      obtain rfl | rfl := hnl <;> simp
    rw [unsigned_append hplus hne hds, htake, hdrop, if_pos ⟨hne, hnl⟩]

end Decimal
