import De1Soc.Decimal
import De1Soc.Image
import De1Soc.Loops

/-!
# De1Soc.Image.Parse

What the image script accepts.

An option is a sequence of elements between commas; `Element` lists them with the
text of their values, and `Spells` is the grammar of an option and the entry it
makes.  The parser accepts exactly this grammar (`parseSinglePartArgs_eq_ok_iff`).
On top of it `plan_accepts_iff` says which command lines come to `create_image`, and
with which partitions.
-/

namespace De1Soc

namespace Image

open Decimal Loops

/-! ## Splitting at a separator -/

section Split

variable {α : Type} [BEq α] [LawfulBEq α] {a : α} {l : List α} {ls : List (List α)}

theorem not_mem_of_mem_splitOn {part : List α} (h : part ∈ l.splitOn a) : a ∉ part := by
  induction l generalizing part with
  | nil =>
      rw [List.splitOn_nil, List.mem_singleton] at h
      simp [h]
  | cons x l ih =>
      rw [List.splitOn_cons_eq_if_modifyHead] at h
      split at h
      · obtain rfl | h := List.mem_cons.mp h
        · simp
        · exact ih h
      · next hx =>
          -- the first part grows by `x`, the others are those of `l`
          obtain ⟨first, rest, hsplit⟩ := List.exists_cons_of_ne_nil (List.splitOn_ne_nil a l)
          rw [hsplit] at h ih
          obtain rfl | h := List.mem_cons.mp h
          · have hfirst := ih (List.mem_cons_self ..)
            rw [List.mem_cons, not_or]
            exact ⟨fun ha => hx (by simp [ha]), hfirst⟩
          · exact ih (List.mem_cons_of_mem _ h)

/-- **Splitting is the inverse of joining.** -/
theorem splitOn_eq_iff :
    l.splitOn a = ls ↔ ls ≠ [] ∧ (∀ part ∈ ls, a ∉ part) ∧ [a].intercalate ls = l := by
  constructor
  · rintro rfl
    exact ⟨List.splitOn_ne_nil a l, fun _ h => not_mem_of_mem_splitOn h, List.intercalate_splitOn a⟩
  · rintro ⟨hne, hno, rfl⟩
    exact List.splitOn_intercalate a hno hne

/-- Two parts. -/
theorem splitOn_eq_pair_iff {key value : List α} :
    l.splitOn a = [key, value] ↔ a ∉ key ∧ a ∉ value ∧ key ++ a :: value = l := by
  simp [splitOn_eq_iff, List.intercalate_cons_cons, and_assoc]

end Split

/-! ## Numbers -/

theorem endsLine_iff {s : Text} : endsLine s = true ↔ s = [] ∨ s = ['\n'] := by
  unfold endsLine
  split <;> simp_all

/-- A size: digits and perhaps a unit, with a newline allowed at the end. -/
def SizeText (py : Python) (s : Text) (n : Nat) : Prop :=
  ∃ (digits : Text) (unit : Option Char) (nl : Text),
    digits ≠ [] ∧ (∀ d ∈ digits, d.isDigit = true) ∧ py.converts digits.length = true ∧
    (∀ u ∈ unit, isUnit u = true) ∧ (nl = [] ∨ nl = ['\n']) ∧
    s = digits ++ (unit.toList ++ nl) ∧ n = digitsValue digits * unit.elim 1 factor

theorem isDigit_of_isUnit {c : Char} (h : isUnit c = true) : c.isDigit = false := by
  simp only [isUnit, List.mem_cons, List.not_mem_nil, or_false, decide_eq_true_eq] at h
  obtain rfl | rfl | rfl | rfl | rfl | rfl | rfl := h <;> decide

theorem endsLine_unit {u : Char} {rest : Text} (h : isUnit u = true) :
    endsLine (u :: rest) = false := by
  rw [Bool.eq_false_iff, ne_eq, endsLine_iff]
  rintro (h' | h')
  · contradiction
  · obtain rfl := (List.cons.inj h').1
    contradiction

/-- The expression takes a size apart in one way. -/
theorem matchSize_eq_some_iff {s digits : Text} {unit : Option Char} :
    matchSize s = some (digits, unit) ↔ digits ≠ [] ∧ (∀ d ∈ digits, d.isDigit = true) ∧
      (∀ u ∈ unit, isUnit u = true) ∧
      ∃ nl, (nl = [] ∨ nl = ['\n']) ∧ s = digits ++ (unit.toList ++ nl) := by
  have hsplit : s = s.takeWhile Char.isDigit ++ s.dropWhile Char.isDigit :=
    List.takeWhile_append_dropWhile.symm
  constructor
  · intro h
    unfold matchSize at h
    simp only at h
    split at h
    · contradiction
    · next hne =>
        have hdigits : ∀ d ∈ s.takeWhile Char.isDigit, d.isDigit = true :=
          fun d hd => List.mem_takeWhile_imp hd
        split at h
        · next hend =>
            obtain ⟨rfl, rfl⟩ := Prod.mk.inj (Option.some.inj h)
            exact ⟨hne, hdigits, by simp, _, endsLine_iff.mp hend, hsplit⟩
        · split at h
          · next u rest hrest =>
              split at h
              · next hunit =>
                  obtain ⟨rfl, rfl⟩ := Prod.mk.inj (Option.some.inj h)
                  rw [Bool.and_eq_true] at hunit
                  refine ⟨hne, hdigits, by simpa using hunit.1, rest, endsLine_iff.mp hunit.2, ?_⟩
                  rw [hrest] at hsplit
                  exact hsplit
              · contradiction
          · contradiction
  · rintro ⟨hne, hdigits, hunit, nl, hnl, rfl⟩
    have hrest : ∀ c ∈ (unit.toList ++ nl).head?, c.isDigit = false := by
      intro c hc
      cases unit with
      | none =>
          obtain rfl | rfl := hnl
          · simp at hc
          · obtain rfl : '\n' = c := by simpa using hc
            rfl
      | some u =>
          obtain rfl : u = c := by simpa using hc
          exact isDigit_of_isUnit (hunit u rfl)
    have htake : (unit.toList ++ nl).takeWhile Char.isDigit = [] := by
      cases hcs : unit.toList ++ nl with
      | nil => rfl
      | cons c cs => exact List.takeWhile_cons_of_neg (by simp [hrest c (by simp [hcs])])
    have hdrop : (unit.toList ++ nl).dropWhile Char.isDigit = unit.toList ++ nl := by
      cases hcs : unit.toList ++ nl with
      | nil => rfl
      | cons c cs => exact List.dropWhile_cons_of_neg (by simp [hrest c (by simp [hcs])])
    unfold matchSize
    simp only [List.takeWhile_append_of_pos hdigits, List.dropWhile_append_of_pos hdigits, htake,
      hdrop, List.append_nil, if_neg hne]
    cases unit with
    | none =>
        have hend : endsLine nl = true := endsLine_iff.mpr hnl
        simp [hend]
    | some u =>
        have hu := hunit u rfl
        have hend : endsLine nl = true := endsLine_iff.mpr hnl
        simp [endsLine_unit hu, hu, hend]

namespace Python

variable (py : Python) {ds : Text}

theorem mapM_decimal (hds : ∀ d ∈ ds, d.isDigit = true) :
    ds.mapM py.decimal = some (ds.map fun d => d.toNat - '0'.toNat) := by
  induction ds with
  | nil => rfl
  | cons d ds ih =>
      rw [List.forall_mem_cons] at hds
      rw [List.mapM_cons, py.decimal_of_isDigit d hds.1, ih hds.2]
      rfl

theorem magnitude_digits (hne : ds ≠ []) (hds : ∀ d ∈ ds, d.isDigit = true) :
    py.magnitude ds = if py.converts ds.length = true then some (digitsValue ds) else none := by
  have hsplit : ds.splitOn '_' = [ds] := by
    refine List.splitOn_eq_singleton fun hmem => ?_
    have hdigit := hds _ hmem
    contradiction
  unfold magnitude
  simp only [hsplit, List.mem_singleton, if_neg hne.symm, List.flatten_singleton,
    py.mapM_decimal hds]
  simp [digitsValue, List.foldl_map]

/-- **Python reads ASCII digits as their value.** -/
theorem int_digits (hne : ds ≠ []) (hds : ∀ d ∈ ds, d.isDigit = true) :
    py.int ds = if py.converts ds.length = true then some (digitsValue ds : Int) else none := by
  obtain ⟨d, rest, rfl⟩ := List.exists_cons_of_ne_nil hne
  have hd := hds d (List.mem_cons_self ..)
  have hleft : (d :: rest).dropWhile py.space = d :: rest :=
    List.dropWhile_cons_of_neg (by simp [py.space_of_isDigit d hd])
  have hright : (d :: rest).rdropWhile py.space = d :: rest := by
    rw [List.rdropWhile_eq_self_iff]
    intro _
    simp [py.space_of_isDigit _ (hds _ (List.getLast_mem hne))]
  have hmag : (py.magnitude (d :: rest)).map (fun n => (n : Int)) =
      if py.converts (d :: rest).length = true then some (digitsValue (d :: rest) : Int)
      else none := by
    rw [py.magnitude_digits hne hds]
    split <;> rfl
  rw [int, hleft, hright, ← hmag]
  split
  · next h =>
      obtain rfl := (List.cons.inj h).1
      contradiction
  · next h =>
      obtain rfl := (List.cons.inj h).1
      contradiction
  · rfl

end Python

/-- **The sizes that are accepted.** -/
theorem convertSizeFromUnit_eq_ok_iff {py : Python} {s : Text} {n : Nat} :
    convertSizeFromUnit py s = .ok n ↔ SizeText py s n := by
  constructor
  · intro h
    unfold convertSizeFromUnit at h
    cases hm : matchSize s with
    | none => simp [hm] at h
    | some x =>
        obtain ⟨digits, unit⟩ := x
        obtain ⟨hne, hdigits, hunit, nl, hnl, hs⟩ := matchSize_eq_some_iff.mp hm
        simp only [hm, bind_eq_ok] at h
        obtain ⟨size, hsize, hn⟩ := h
        rw [convertStrToInt, py.int_digits hne hdigits] at hsize
        by_cases hconv : py.converts digits.length = true
        · rw [if_pos hconv] at hsize
          obtain rfl := Except.ok.inj hsize
          exact ⟨digits, unit, nl, hne, hdigits, hconv, hunit, hnl, hs, (Except.ok.inj hn).symm⟩
        · simp [hconv] at hsize
  · rintro ⟨digits, unit, nl, hne, hdigits, hconv, hunit, hnl, hs, rfl⟩
    have hm := matchSize_eq_some_iff.mpr ⟨hne, hdigits, hunit, nl, hnl, hs⟩
    simp only [convertSizeFromUnit, hm, convertStrToInt, py.int_digits hne hdigits, if_pos hconv]
    rfl

/-! ## Elements -/

/-- An element of a `-P` option, with the text of its value. -/
inductive Element
  | file (name : Text)
  | num (value : Text) (n : Int)
  | size (value : Text) (n : Nat)
  | format (value : Text)
  | type (value : Text)

namespace Element

/-- What stands between the commas. -/
def text : Element → Text
  | .file name => name
  | .num value _ => "num=".toList ++ value
  | .size value _ => "size=".toList ++ value
  | .format value => "format=".toList ++ value
  | .type value => "type=".toList ++ value

/-- A file does not look like a key, a value holds no second `=`, and it is of
its kind. -/
def WellFormed (py : Python) : Element → Prop
  | .file name => isKeyed name = false
  | .num value n => '=' ∉ value ∧ py.int value = some n
  | .size value n => '=' ∉ value ∧ SizeText py value n
  | .format value => '=' ∉ value ∧ validateFormat value = true
  | .type value => '=' ∉ value

end Element

/-- What an element says about the partition; a later one of the same key
replaces an earlier one. -/
def PartEntry.add (entry : PartEntry) : Element → PartEntry
  | .file name => { entry with files := entry.files ++ [name] }
  | .num _ n => { entry with num := some n }
  | .size _ n => { entry with size := some n }
  | .format value => { entry with format := some value }
  | .type value => { entry with type := some value }

section Elements

variable {py : Python} {entry entry' : PartEntry}

/-- The keys that are known, and their values. -/
theorem setKey_eq_ok_iff {key value : Text} :
    setKey py entry key value = .ok entry' ↔
      (key = "num".toList ∧ ∃ n, py.int value = some n ∧ entry.add (.num value n) = entry') ∨
      (key = "size".toList ∧ ∃ n, SizeText py value n ∧ entry.add (.size value n) = entry') ∨
      (key = "format".toList ∧ validateFormat value = true ∧ entry.add (.format value) = entry') ∨
      (key = "type".toList ∧ entry.add (.type value) = entry') := by
  by_cases hnum : key = "num".toList
  · subst hnum
    cases hint : py.int value with
    | none => simp [setKey, convertStrToInt, hint]
    | some n => simp [setKey, convertStrToInt, hint, bind_eq_ok, pure, Except.pure, PartEntry.add]
  by_cases hsize : key = "size".toList
  · subst hsize
    simp [setKey, bind_eq_ok, convertSizeFromUnit_eq_ok_iff, pure, Except.pure, PartEntry.add]
  by_cases hformat : key = "format".toList
  · subst hformat
    by_cases hvalid : validateFormat value = true
    · simp [setKey, hvalid, PartEntry.add]
    · simp [setKey, hvalid]
  by_cases htype : key = "type".toList
  · subst htype
    simp [setKey, PartEntry.add]
  · rw [setKey, if_neg hnum, if_neg hsize, if_neg hformat, if_neg htype]
    simp only [hnum, hsize, hformat, htype, false_and, or_self, reduceCtorEq]

/-- A key in front of a value is taken for one. -/
theorem parseElement_key (key value : Text) (hne : key ≠ [])
    (hkey : ∀ c ∈ key, c.isAlphanum = true) (hvalue : '=' ∉ value) :
    parseElement py entry (key ++ '=' :: value) = setKey py entry key value := by
  have hkeyed : isKeyed (key ++ '=' :: value) = true := by
    rw [isKeyed, List.takeWhile_append_of_pos hkey, List.dropWhile_append_of_pos hkey]
    simp [hne]
  have heq : '=' ∉ key := by
    intro hmem
    have halnum := hkey _ hmem
    contradiction
  rw [parseElement, if_pos hkeyed, splitOn_eq_pair_iff.mpr ⟨heq, hvalue, rfl⟩]

/-- **The elements that are accepted.** -/
theorem parseElement_eq_ok_iff {el : Text} :
    parseElement py entry el = .ok entry' ↔
      ∃ e : Element, (e.WellFormed py ∧ e.text = el) ∧ entry.add e = entry' := by
  constructor
  · intro h
    cases hkeyed : isKeyed el with
    | false =>
        rw [parseElement, if_neg (by simp [hkeyed])] at h
        exact ⟨.file el, ⟨hkeyed, rfl⟩, Except.ok.inj h⟩
    | true =>
        rw [parseElement, if_pos hkeyed] at h
        split at h
        · next key value hsplit =>
            obtain ⟨_, hvalue, rfl⟩ := splitOn_eq_pair_iff.mp hsplit
            obtain ⟨rfl, n, hn, hadd⟩ | ⟨rfl, n, hn, hadd⟩ | ⟨rfl, hvalid, hadd⟩ | ⟨rfl, hadd⟩ :=
              setKey_eq_ok_iff.mp h
            · exact ⟨.num value n, ⟨⟨hvalue, hn⟩, rfl⟩, hadd⟩
            · exact ⟨.size value n, ⟨⟨hvalue, hn⟩, rfl⟩, hadd⟩
            · exact ⟨.format value, ⟨⟨hvalue, hvalid⟩, rfl⟩, hadd⟩
            · exact ⟨.type value, ⟨hvalue, rfl⟩, hadd⟩
        · contradiction
  · rintro ⟨e, ⟨hwf, rfl⟩, rfl⟩
    cases e with
    | file name =>
        have hkeyed : ¬ isKeyed name = true := by simp [show isKeyed name = false from hwf]
        exact if_neg hkeyed
    | num value n =>
        refine (parseElement_key "num".toList value (by simp) (by simp) hwf.1).trans ?_
        exact setKey_eq_ok_iff.mpr (.inl ⟨rfl, n, hwf.2, rfl⟩)
    | size value n =>
        refine (parseElement_key "size".toList value (by simp) (by simp) hwf.1).trans ?_
        exact setKey_eq_ok_iff.mpr (.inr (.inl ⟨rfl, n, hwf.2, rfl⟩))
    | format value =>
        refine (parseElement_key "format".toList value (by simp) (by simp) hwf.1).trans ?_
        exact setKey_eq_ok_iff.mpr (.inr (.inr (.inl ⟨rfl, hwf.2, rfl⟩)))
    | type value =>
        refine (parseElement_key "type".toList value (by simp) (by simp) hwf).trans ?_
        exact setKey_eq_ok_iff.mpr (.inr (.inr (.inr ⟨rfl, rfl⟩)))

end Elements

/-! ## Options -/

/-- The grammar of a `-P` option and the entry it makes: elements with commas
between them. -/
def Spells (py : Python) (part : Text) (entry : PartEntry) : Prop :=
  ∃ els : List Element, els ≠ [] ∧ (∀ e ∈ els, e.WellFormed py ∧ ',' ∉ e.text) ∧
    part = [','].intercalate (els.map Element.text) ∧ entry = els.foldl PartEntry.add {}

theorem forall₂_text_iff {py : Python} {texts : List Text} {els : List Element} :
    List.Forall₂ (fun t (e : Element) => e.WellFormed py ∧ e.text = t) texts els ↔
      (∀ e ∈ els, e.WellFormed py) ∧ els.map Element.text = texts := by
  induction els generalizing texts with
  | nil => simp [eq_comm]
  | cons e els ih =>
      cases texts with
      | nil => simp
      | cons t texts =>
          simp only [List.forall₂_cons, ih, List.forall_mem_cons, List.map_cons, List.cons.injEq]
          grind

/-- **The options that are accepted**, and the entries they make. -/
theorem parseSinglePartArgs_eq_ok_iff {py : Python} {part : Text} {entry : PartEntry} :
    parseSinglePartArgs py part = .ok entry ↔ Spells py part entry := by
  have hbody : ∀ s el s', parseElement py s el = .ok s' ↔
      ∃ e : Element, (e.WellFormed py ∧ e.text = el) ∧ s.add e = s' :=
    fun _ _ _ => parseElement_eq_ok_iff
  rw [parseSinglePartArgs, foldlM_eq_ok_iff hbody]
  simp only [forall₂_text_iff]
  constructor
  · rintro ⟨els, ⟨hwf, htexts⟩, rfl⟩
    obtain ⟨hne, hcomma, hjoin⟩ := splitOn_eq_iff.mp htexts.symm
    refine ⟨els, by simpa using hne, fun e he => ⟨hwf e he, ?_⟩, hjoin.symm, rfl⟩
    exact hcomma _ (List.mem_map_of_mem he)
  · rintro ⟨els, hne, hall, rfl, rfl⟩
    refine ⟨els, ⟨fun e he => (hall e he).1, ?_⟩, rfl⟩
    refine (splitOn_eq_iff.mpr ⟨by simpa using hne, ?_, rfl⟩).symm
    simpa using fun e he => (hall e he).2

/-! ## Entries -/

/-- The option makes the entry, which has its number. -/
def Numbered (py : Python) (part : Text) (x : Int × PartEntry) : Prop :=
  Spells py part x.2 ∧ x.2.num = some x.1

section Entries

variable {py : Python}

theorem addPart_eq_ok_iff {entries entries' : List (Int × PartEntry)} {part : Text} :
    addPart py entries part = .ok entries' ↔
      ∃ x, Numbered py part x ∧ x.1 ∉ entries.map Prod.fst ∧ entries ++ [x] = entries' := by
  rw [addPart, bind_eq_ok]
  simp only [parseSinglePartArgs_eq_ok_iff]
  constructor
  · rintro ⟨entry, hspells, h⟩
    split at h
    · contradiction
    · next num hnum =>
        split at h
        · contradiction
        · next hfresh => exact ⟨(num, entry), ⟨hspells, hnum⟩, hfresh, Except.ok.inj h⟩
  · rintro ⟨⟨num, entry⟩, ⟨hspells, hnum⟩, hfresh, rfl⟩
    refine ⟨entry, hspells, ?_⟩
    simp only at hnum hfresh
    simp only [hnum, if_neg hfresh]

/-- The loop over the options: all are accepted, with different numbers. -/
theorem foldlM_addPart_eq_ok_iff {args : List Text} {acc entries : List (Int × PartEntry)}
    (hacc : (acc.map Prod.fst).Nodup) :
    args.foldlM (addPart py) acc = .ok entries ↔
      ∃ new, List.Forall₂ (Numbered py) args new ∧ (entries.map Prod.fst).Nodup ∧
        acc ++ new = entries := by
  induction args generalizing acc with
  | nil =>
      constructor
      · intro h
        obtain rfl := Except.ok.inj h
        exact ⟨[], .nil, hacc, List.append_nil _⟩
      · rintro ⟨new, hall, _, rfl⟩
        cases hall with
        | nil =>
            rw [List.append_nil]
            rfl
  | cons part args ih =>
      rw [List.foldlM_cons, bind_eq_ok]
      constructor
      · rintro ⟨acc', hadd, hrest⟩
        obtain ⟨x, hx, hfresh, rfl⟩ := addPart_eq_ok_iff.mp hadd
        have hacc' : ((acc ++ [x]).map Prod.fst).Nodup := by
          rw [List.map_append, List.nodup_append]
          grind
        obtain ⟨new, hall, hnodup, rfl⟩ := (ih hacc').mp hrest
        exact ⟨x :: new, .cons hx hall, hnodup, by simp⟩
      · rintro ⟨new, hall, hnodup, rfl⟩
        cases hall with
        | @cons _ x _ new hx hall =>
            have hnodup' : ((acc ++ [x]).map Prod.fst).Nodup ∧ x.1 ∉ acc.map Prod.fst := by
              rw [List.map_append, List.map_cons, List.nodup_append] at hnodup
              rw [List.map_append, List.nodup_append]
              grind
            refine ⟨acc ++ [x], addPart_eq_ok_iff.mpr ⟨x, hx, hnodup'.2, rfl⟩, ?_⟩
            exact (ih hnodup'.1).mpr ⟨new, hall, hnodup, by simp⟩

theorem parseAllPartsArgs_eq_ok_iff {partArgs : Option (List Text)}
    {entries : List (Int × PartEntry)} :
    parseAllPartsArgs py partArgs = .ok entries ↔
      ∃ args, partArgs = some args ∧ args.length ≤ maxPartitions ∧
        List.Forall₂ (Numbered py) args entries ∧ (entries.map Prod.fst).Nodup := by
  cases partArgs with
  | none => simp [parseAllPartsArgs]
  | some args =>
      by_cases hlen : args.length > maxPartitions
      · simp [parseAllPartsArgs, hlen, Nat.not_le.mpr hlen]
      · simp [parseAllPartsArgs, hlen, Nat.not_lt.mp hlen, foldlM_addPart_eq_ok_iff,
          and_comm]

end Entries

/-! ## Places -/

/-- The type: the one that is given, or the one of the format.  There has to be a
format. -/
def Typed (entry : PartEntry) (type : Text) : Prop :=
  ∃ format, entry.format = some format ∧
    (entry.type = some type ∨
      (entry.type = none ∧ deriveFdiskTypeFromFormat format = .ok type))

theorem fdiskType_eq_ok_iff {part : Int} {entry : PartEntry} {type : Text} :
    fdiskType part entry = .ok type ↔ Typed entry type := by
  unfold fdiskType
  cases hformat : entry.format with
  | none =>
      cases htype : entry.type with
      | none => simp [Typed, hformat]
      | some t => simp [Typed, hformat, deriveFdiskTypeFromPtype, endsLine]
  | some format =>
      cases htype : entry.type with
      | none => simp [Typed, hformat, htype]
      | some t => simp [Typed, hformat, htype]

/-- The entry is that of the partition, apart from its place.  The last condition is
that the quotient does not overflow. -/
def Suits (x : Int × PartEntry) (p : Partition) : Prop :=
  x.1 = p.num ∧ x.2.files = p.files ∧ x.2.size = some p.size ∧ p.size ≠ 0 ∧
    x.2.format = p.format ∧ Typed x.2 p.fdiskType ∧ Double.round ((p.size : ℚ) / 512) < 2 ^ 1024

/-- The offset behind a partition. -/
def advance (offset bsize : ℚ) : ℚ := Double.round (Double.round (offset + bsize) + 1)

/-- The partitions stand one behind the other from `offset` on. -/
def Laid : ℚ → List Partition → Prop
  | _, [] => True
  | offset, p :: ps => p.start = offset ∧ p.bsize = blocks p.size ∧ Laid (advance offset p.bsize) ps

/-- What the loop over the entries has done. -/
def Placement.push (st : Placement) (p : Partition) : Placement where
  offset := advance st.offset p.bsize
  totalSize := st.totalSize + p.size
  parts := st.parts ++ [p]

theorem placePart_eq_ok_iff {st st' : Placement} {x : Int × PartEntry} :
    placePart st x = .ok st' ↔
      ∃ p, Suits x p ∧ p.start = st.offset ∧ p.bsize = blocks p.size ∧ st.push p = st' := by
  unfold placePart
  cases hsize : x.2.size with
  | none => simp [Suits, hsize]
  | some size =>
      by_cases hzero : size = 0
      · refine iff_of_false (by simp [hzero]) ?_
        rintro ⟨p, ⟨_, _, hsize', hne, _⟩, _⟩
        exact hne ((Option.some.inj (hsize.symm.trans hsize')).symm.trans hzero)
      · simp only [if_neg hzero, bind_eq_ok, fdiskType_eq_ok_iff]
        constructor
        · rintro ⟨type, htyped, h⟩
          split at h
          · contradiction
          · next hfinite =>
              refine ⟨⟨x.1, x.2.files, size, x.2.format, type, st.offset, blocks size⟩,
                ⟨rfl, rfl, hsize, hzero, rfl, htyped, not_le.mp hfinite⟩, rfl, rfl, ?_⟩
              exact Except.ok.inj h
        · rintro ⟨p, ⟨hnum, hfiles, hsize', _, hformat, htyped, hfinite⟩, hstart, hbsize, rfl⟩
          obtain rfl : size = p.size := Option.some.inj (hsize.symm.trans hsize')
          refine ⟨p.fdiskType, htyped, ?_⟩
          rw [if_neg (not_le.mpr hfinite), Placement.push, advance, hnum, hfiles, hformat, ← hstart,
            ← hbsize]
          rfl

theorem foldlM_placePart_eq_ok_iff {entries : List (Int × PartEntry)} {st st' : Placement} :
    entries.foldlM placePart st = .ok st' ↔
      ∃ ps, List.Forall₂ Suits entries ps ∧ Laid st.offset ps ∧
        ps.foldl Placement.push st = st' := by
  induction entries generalizing st with
  | nil =>
      constructor
      · intro h
        exact ⟨[], .nil, trivial, Except.ok.inj h⟩
      · rintro ⟨ps, hall, _, rfl⟩
        cases hall with
        | nil => rfl
  | cons x entries ih =>
      rw [List.foldlM_cons, bind_eq_ok]
      constructor
      · rintro ⟨st₁, hplace, hrest⟩
        obtain ⟨p, hsuits, hstart, hbsize, rfl⟩ := placePart_eq_ok_iff.mp hplace
        obtain ⟨ps, hall, hlaid, rfl⟩ := ih.mp hrest
        exact ⟨p :: ps, .cons hsuits hall, ⟨hstart, hbsize, hlaid⟩, rfl⟩
      · rintro ⟨ps, hall, hlaid, rfl⟩
        cases hall with
        | cons hsuits hall =>
            obtain ⟨hstart, hbsize, hlaid⟩ := hlaid
            exact ⟨_, placePart_eq_ok_iff.mpr ⟨_, hsuits, hstart, hbsize, rfl⟩,
              ih.mpr ⟨_, hall, hlaid, rfl⟩⟩

/-! ### Finite offsets -/

theorem blocks_le (size : Nat) : blocks size ≤ size + 2 := by
  have hsize : (0 : ℚ) ≤ size := size.cast_nonneg
  have hquot := Double.round_le (x := (size : ℚ) / 512) (by positivity)
  have hnonneg := Double.round_nonneg (x := (size : ℚ) / 512) (by positivity)
  have hpart : (if size % 512 ≠ 0 then 1 else 0 : ℚ) ≤ 1 := by split_ifs <;> norm_num
  have hpart' : (0 : ℚ) ≤ if size % 512 ≠ 0 then 1 else 0 := by split_ifs <;> norm_num
  have hsum := Double.round_le (add_nonneg hnonneg hpart')
  rw [blocks]
  linarith

theorem blocks_nonneg (size : Nat) : 0 ≤ blocks size := by
  have hsize : (0 : ℚ) ≤ size := size.cast_nonneg
  have hnonneg := Double.round_nonneg (x := (size : ℚ) / 512) (by positivity)
  refine Double.round_nonneg (add_nonneg hnonneg ?_)
  split_ifs <;> norm_num

theorem advance_le {offset : ℚ} (h : 0 ≤ offset) (size : Nat) :
    0 ≤ advance offset (blocks size) ∧
      advance offset (blocks size) ≤ 4 * (offset + size + 3) := by
  have hblocks := blocks_le size
  have hsum : 0 ≤ offset + blocks size := add_nonneg h (blocks_nonneg size)
  have hnonneg := Double.round_nonneg hsum
  have hfirst := Double.round_le hsum
  have hsecond := Double.round_le (x := Double.round (offset + blocks size) + 1) (by linarith)
  refine ⟨Double.round_nonneg (by linarith), ?_⟩
  rw [advance]
  linarith

/-- The offsets are bounded by the sizes, each partition counting four times what is
before it. -/
theorem start_le_of_laid {ps : List Partition} {offset : ℚ} (h : 0 ≤ offset)
    (hlaid : Laid offset ps) : ∀ p ∈ ps, p.start ≤
      4 ^ ps.length * (offset + (ps.map Partition.size).sum + 3 * ps.length) := by
  induction ps generalizing offset with
  | nil => simp
  | cons p ps ih =>
      obtain ⟨hstart, hbsize, hrest⟩ := hlaid
      rw [hbsize] at hrest
      obtain ⟨hnonneg, hle⟩ := advance_le h p.size
      have hpow : (1 : ℚ) ≤ 4 ^ ps.length := one_le_pow₀ (by norm_num)
      have hsizes : (0 : ℚ) ≤ (ps.map Partition.size).sum := Nat.cast_nonneg _
      have hsize : (0 : ℚ) ≤ p.size := p.size.cast_nonneg
      have hlength : (0 : ℚ) ≤ ps.length := ps.length.cast_nonneg
      rw [List.map_cons, List.sum_cons, List.length_cons, pow_succ, mul_assoc, Nat.cast_add,
        Nat.cast_succ, List.forall_mem_cons, hstart]
      constructor
      · nlinarith
      · intro q hq
        calc q.start ≤ 4 ^ ps.length *
              (advance offset (blocks p.size) + (ps.map Partition.size).sum + 3 * ps.length) :=
              ih hnonneg hrest q hq
          _ ≤ _ := by
              refine mul_le_mul_of_nonneg_left ?_ (by positivity)
              linarith

theorem start_lt_of_laid {ps : List Partition} {x : ℚ} (hcount : ps.length ≤ 4)
    (hlaid : Laid 2048 ps) (hsizes : (ps.map Partition.size).sum ≤ x) (hx : 2 ^ 12 ≤ x) :
    ∀ p ∈ ps, p.start < 2 ^ 24 * x := by
  have hlength : (ps.length : ℚ) ≤ 4 := by exact_mod_cast hcount
  have hpow : (4 : ℚ) ^ ps.length ≤ 4 ^ 4 := pow_le_pow_right₀ (by norm_num) hcount
  intro p hp
  calc p.start
      ≤ 4 ^ ps.length * (2048 + (ps.map Partition.size).sum + 3 * ps.length) :=
        start_le_of_laid (by norm_num) hlaid p hp
    _ ≤ 4 ^ 4 * (2048 + x + 3 * 4) :=
        mul_le_mul hpow (by linarith) (by positivity) (by positivity)
    _ < 2 ^ 24 * x := by linarith

/-! ### The loop as a whole -/

theorem foldl_push (st : Placement) (ps : List Partition) :
    (ps.foldl Placement.push st).totalSize = st.totalSize + (ps.map Partition.size).sum ∧
      (ps.foldl Placement.push st).parts = st.parts ++ ps := by
  induction ps generalizing st with
  | nil => simp
  | cons p ps ih =>
      obtain ⟨hsize, hparts⟩ := ih (st.push p)
      constructor
      · rw [List.foldl_cons, hsize, List.map_cons, List.sum_cons, Placement.push, Nat.add_assoc]
      · rw [List.foldl_cons, hparts, Placement.push, List.append_assoc, List.singleton_append]

theorem checkAndUpdatePartEntries_eq_ok_iff {entries : List (Int × PartEntry)} {imageSize : Nat}
    {parts : List Partition} :
    checkAndUpdatePartEntries entries imageSize = .ok parts ↔
      List.Forall₂ Suits entries parts ∧ Laid 2048 parts ∧
        (parts.map Partition.size).sum ≤ imageSize := by
  simp only [checkAndUpdatePartEntries, bind_eq_ok, foldlM_placePart_eq_ok_iff]
  constructor
  · rintro ⟨st, ⟨ps, hall, hlaid, rfl⟩, h⟩
    obtain ⟨hsize, hparts⟩ := foldl_push {} ps
    rw [Nat.zero_add] at hsize
    split at h
    · contradiction
    · next hfits =>
        obtain rfl : ps = parts := by simpa [hparts] using Except.ok.inj h
        exact ⟨hall, hlaid, by omega⟩
  · rintro ⟨hall, hlaid, hfits⟩
    obtain ⟨hsize, hparts⟩ := foldl_push {} parts
    rw [Nat.zero_add] at hsize
    refine ⟨_, ⟨parts, hall, hlaid, rfl⟩, ?_⟩
    rw [if_neg (by omega), hparts]
    rfl

/-! ## Command lines -/

/-- The option describes the partition, apart from its place: it is well formed,
and its last `num`, `size`, `format` and `type` are those of the partition. -/
def Describes (py : Python) (part : Text) (p : Partition) : Prop :=
  ∃ entry, Spells py part entry ∧ entry.num = some p.num ∧ Suits (p.num, entry) p

theorem forall₂_describes_iff {py : Python} {args : List Text} {parts : List Partition} :
    List.Forall₂ (Describes py) args parts ↔
      ∃ entries, List.Forall₂ (Numbered py) args entries ∧ List.Forall₂ Suits entries parts := by
  constructor
  · intro h
    induction h with
    | nil => exact ⟨[], .nil, .nil⟩
    | cons hd _ ih =>
        obtain ⟨entry, hspells, hnum, hsuits⟩ := hd
        obtain ⟨entries, hleft, hright⟩ := ih
        exact ⟨_ :: entries, .cons ⟨hspells, hnum⟩ hleft, .cons hsuits hright⟩
  · rintro ⟨entries, hleft, hright⟩
    induction hleft generalizing parts with
    | nil =>
        cases hright with
        | nil => exact .nil
    | @cons part x args entries hx _ ih =>
        cases hright with
        | cons hsuits hright =>
            obtain ⟨num, entry⟩ := x
            obtain rfl : num = _ := hsuits.1
            exact .cons ⟨entry, hx.1, hx.2, hsuits⟩ (ih hright)

theorem nums_of_suits {entries : List (Int × PartEntry)} {parts : List Partition}
    (h : List.Forall₂ Suits entries parts) : entries.map Prod.fst = parts.map Partition.num := by
  induction h with
  | nil => rfl
  | cons hsuits _ ih => rw [List.map_cons, List.map_cons, ih, hsuits.1]

theorem plan_eq_ok_iff {py : Python} {root : Bool} {partArgs : Option (List Text)} {size : Text}
    {imageSize : Nat} {parts : List Partition} :
    plan py root partArgs size = .ok (imageSize, parts) ↔
      root = true ∧ SizeText py size imageSize ∧ ∃ args entries, partArgs = some args ∧
        args.length ≤ maxPartitions ∧ List.Forall₂ (Numbered py) args entries ∧
        (entries.map Prod.fst).Nodup ∧ List.Forall₂ Suits entries parts ∧ Laid 2048 parts ∧
        (parts.map Partition.size).sum ≤ imageSize := by
  cases root with
  | false => simp [plan]
  | true =>
      simp only [plan, if_true, bind_eq_ok, parseAllPartsArgs_eq_ok_iff,
        convertSizeFromUnit_eq_ok_iff, checkAndUpdatePartEntries_eq_ok_iff]
      constructor
      · rintro ⟨entries, ⟨args, hargs, hlen, hleft, hnodup⟩, n, hsize, ps, hparts, h⟩
        obtain ⟨rfl, rfl⟩ := Prod.mk.inj (Except.ok.inj h)
        exact ⟨trivial, hsize, args, entries, hargs, hlen, hleft, hnodup, hparts⟩
      · rintro ⟨_, hsize, args, entries, hargs, hlen, hleft, hnodup, hparts⟩
        exact ⟨entries, ⟨args, hargs, hlen, hleft, hnodup⟩, imageSize, hsize, parts, hparts, rfl⟩

/-- Below 2^1000 bytes the offsets are far from infinite. -/
theorem start_lt_of_plan {py : Python} {root : Bool} {partArgs : Option (List Text)} {size : Text}
    {imageSize : Nat} {parts : List Partition}
    (h : plan py root partArgs size = .ok (imageSize, parts)) (hsmall : imageSize < 2 ^ 1000) :
    ∀ p ∈ parts, p.start < 2 ^ 1024 := by
  obtain ⟨_, _, args, entries, _, hlen, hleft, _, hright, hlaid, hfits⟩ := plan_eq_ok_iff.mp h
  have hcount : parts.length ≤ 4 := hright.length_eq ▸ hleft.length_eq ▸ hlen
  have hsizes : ((parts.map Partition.size).sum : ℚ) ≤ 2 ^ 1000 := by
    exact_mod_cast hfits.trans hsmall.le
  have hlarge : (2 : ℚ) ^ 12 ≤ 2 ^ 1000 := pow_le_pow_right₀ (by norm_num) (by norm_num)
  rw [show (2 : ℚ) ^ 1024 = 2 ^ 24 * 2 ^ 1000 from pow_add 2 24 1000]
  exact start_lt_of_laid hcount hlaid hsizes hlarge

/-- **The command lines that come to `create_image`**, with the size of the image
and the partitions: called as root, with at most four options, each of which
describes its partition, with a well-formed size of the image, different numbers,
and partitions that are together not larger than the image.  The places follow from
the sizes, and no offset overflows. -/
theorem plan_accepts_iff (py : Python) (root : Bool) (partArgs : Option (List Text)) (size : Text)
    (imageSize : Nat) (parts : List Partition) (hsmall : imageSize < 2 ^ 1000) :
    (plan py root partArgs size = .ok (imageSize, parts) ↔
      root = true ∧ SizeText py size imageSize ∧ (parts.map Partition.size).sum ≤ imageSize ∧
      (parts.map Partition.num).Nodup ∧ Laid 2048 parts ∧
      ∃ args, partArgs = some args ∧ args.length ≤ maxPartitions ∧
        List.Forall₂ (Describes py) args parts) ∧
    (plan py root partArgs size = .ok (imageSize, parts) → ∀ p ∈ parts, p.start < 2 ^ 1024) := by
  refine ⟨?_, fun h => start_lt_of_plan h hsmall⟩
  simp only [plan_eq_ok_iff, forall₂_describes_iff]
  constructor
  · rintro ⟨hroot, hsize, args, entries, hargs, hlen, hleft, hnodup, hright, hlaid, hfits⟩
    rw [nums_of_suits hright] at hnodup
    exact ⟨hroot, hsize, hfits, hnodup, hlaid, args, hargs, hlen, entries, hleft, hright⟩
  · rintro ⟨hroot, hsize, hfits, hnodup, hlaid, args, hargs, hlen, entries, hleft, hright⟩
    rw [← nums_of_suits hright] at hnodup
    exact ⟨hroot, hsize, args, entries, hargs, hlen, hleft, hnodup, hright, hlaid, hfits⟩

end Image

end De1Soc
