import De1Soc.Image.Parse

/-!
# De1Soc.Image.Layout

Where the partitions of an image are.

A partition has two places: the sectors that `create_partition_table` gives to
`fdisk`, and the bytes of the image that `do_partition` formats and fills.  Both
are computed from `start`, which is a fraction of a sector as soon as the size of
an earlier partition is none of whole sectors.  In whole bytes the places are
those of `Placed`: behind every partition a gap of one sector, or of two where its
size is no multiple of 512.

For images below 2^52 bytes the doubles are exact (`placed_of_laid`), so that the
partitions never overlap (`partitions_disjoint`).  The two places agree, and the
partitions end inside the image, under conditions that the script does not check
(`layout_iff`).
-/

namespace De1Soc

namespace Image

/-! ## Exact offsets -/

theorem round_div_512 {k : Nat} (h : k < 2 ^ 53) :
    Double.round ((k : ℚ) / 512) = (k : ℚ) / 512 := by
  have hround := Double.round_div_two_pow (k : ℤ) 9 (by rw [abs_of_nonneg (by omega)]; omega)
  norm_num at hround
  exact hround

/-- The size with the sector that is added where it is none of whole sectors. -/
def padded (size : Nat) : Nat := size + if size % 512 ≠ 0 then 512 else 0

/-- The bytes between a partition and the next one. -/
def gap (size : Nat) : Nat := if size % 512 ≠ 0 then 1024 else 512

theorem padded_add (size : Nat) : padded size + 512 = size + gap size := by
  unfold padded gap
  split <;> omega

theorem gap_le (size : Nat) : gap size ≤ 1024 := by
  unfold gap
  split <;> omega

theorem blocks_eq {size : Nat} (h : padded size < 2 ^ 53) :
    blocks size = (padded size : ℚ) / 512 := by
  have hsize : size ≤ padded size := Nat.le_add_right ..
  have hsum : (size : ℚ) / 512 + (if size % 512 ≠ 0 then 1 else 0) = (padded size : ℚ) / 512 := by
    unfold padded
    split
    · push_cast
      ring
    · rw [Nat.add_zero, add_zero]
  rw [blocks, round_div_512 (by omega), hsum, round_div_512 h]

theorem advance_eq {k size : Nat} (h : k + (size + gap size) < 2 ^ 53) :
    advance ((k : ℚ) / 512) (blocks size) = ((k + (size + gap size) : Nat) : ℚ) / 512 := by
  rw [← padded_add] at h ⊢
  have hsum : (k : ℚ) / 512 + (padded size : ℚ) / 512 = ((k + padded size : Nat) : ℚ) / 512 := by
    push_cast
    ring
  have hnext : ((k + padded size : Nat) : ℚ) / 512 + 1 =
      ((k + (padded size + 512) : Nat) : ℚ) / 512 := by
    push_cast
    ring
  rw [advance, blocks_eq (by omega), hsum, round_div_512 (by omega), hnext, round_div_512 h]

/-! ## Places in bytes -/

/-- The partition is formatted from byte `k` on, and the table has the sector of
that byte and as many sectors as its bytes take. -/
structure Partition.Stands (p : Partition) (k : Nat) : Prop where
  offset : p.offsetBytes = k
  sector : p.firstSector = k / 512
  sectors : p.sectors = (p.size + 511) / 512

/-- The partitions stand one behind the other from byte `k` on. -/
def Placed : Nat → List Partition → Prop
  | _, [] => True
  | k, p :: ps => p.Stands k ∧ Placed (k + (p.size + gap p.size)) ps

theorem floor_div_512 (k : Nat) : ⌊(k : ℚ) / 512⌋ = (k / 512 : Int) := by
  have hfloor := Rat.floor_intCast_div_natCast (k : ℤ) 512
  push_cast at hfloor
  exact hfloor

/-- **One partition**, placed with exact offsets. -/
theorem stands_of_start {p : Partition} {k : Nat} (hk : k < 2 ^ 53)
    (hsize : padded p.size < 2 ^ 53) (hstart : p.start = (k : ℚ) / 512)
    (hbsize : p.bsize = blocks p.size) : p.Stands k where
  offset := by
    rw [Partition.offsetBytes, hstart, div_mul_cancel₀ _ (by norm_num), Double.round_natCast k hk,
      Int.floor_natCast]
  sector := by rw [Partition.firstSector, hstart, floor_div_512]
  sectors := by
    rw [Partition.sectors, hbsize, blocks_eq hsize, floor_div_512]
    unfold padded
    split <;> omega

/-- The bytes from the first partition to behind the last gap. -/
def extent (ps : List Partition) : Nat := (ps.map fun p => p.size + gap p.size).sum

theorem extent_le (ps : List Partition) :
    extent ps ≤ (ps.map Partition.size).sum + 1024 * ps.length := by
  induction ps with
  | nil => exact Nat.le_refl _
  | cons p ps ih =>
      have hgap := gap_le p.size
      simp only [extent, List.map_cons, List.sum_cons, List.length_cons] at ih ⊢
      omega

/-- **The doubles are exact**: the partitions have their places in bytes. -/
theorem placed_of_laid {ps : List Partition} {k : Nat} (h : k + extent ps < 2 ^ 53)
    (hlaid : Laid ((k : ℚ) / 512) ps) : Placed k ps := by
  induction ps generalizing k with
  | nil => trivial
  | cons p ps ih =>
      obtain ⟨hstart, hbsize, hrest⟩ := hlaid
      rw [extent, List.map_cons, List.sum_cons, ← extent] at h
      rw [hbsize, advance_eq (by omega)] at hrest
      have hpadded := padded_add p.size
      exact ⟨stands_of_start (by omega) (by omega) hstart hbsize, ih (by omega) hrest⟩

/-- One partition lies before another: a sector is between their bytes, and the
sectors of the table end before, also where one more is counted. -/
def Partition.Before (p q : Partition) : Prop :=
  p.offsetBytes + p.size + 512 ≤ q.offsetBytes ∧ p.firstSector + p.sectors < q.firstSector

namespace Placed

variable {ps : List Partition} {k : Nat}

/-- Nothing begins before the first. -/
theorem le (h : Placed k ps) :
    ∀ p ∈ ps, (k : Int) ≤ p.offsetBytes ∧ (k / 512 : Int) ≤ p.firstSector := by
  induction ps generalizing k with
  | nil => simp
  | cons p ps ih =>
      obtain ⟨hstands, hrest⟩ := h
      rw [List.forall_mem_cons]
      refine ⟨⟨hstands.offset.ge, hstands.sector.ge⟩, fun q hq => ?_⟩
      obtain ⟨hoffset, hsector⟩ := ih hrest q hq
      push_cast at hoffset hsector
      omega

/-- The table has the sector of the byte and the sectors of the size. -/
theorem sectors (h : Placed k ps) :
    ∀ p ∈ ps, p.firstSector = p.offsetBytes / 512 ∧ p.sectors = (p.size + 511) / 512 := by
  induction ps generalizing k with
  | nil => simp
  | cons p ps ih =>
      rw [List.forall_mem_cons]
      refine ⟨⟨?_, h.1.sectors⟩, ih h.2⟩
      rw [h.1.sector, h.1.offset]

/-- **No two overlap**, in the image or in the table. -/
theorem pairwise (h : Placed k ps) : ps.Pairwise Partition.Before := by
  induction ps generalizing k with
  | nil => exact .nil
  | cons p ps ih =>
      obtain ⟨⟨hoffset, hsector, hsectors⟩, hrest⟩ := h
      refine .cons (fun q hq => ?_) (ih hrest)
      obtain ⟨hoffset', hsector'⟩ := hrest.le q hq
      have hgap : gap p.size = if p.size % 512 ≠ 0 then 1024 else 512 := rfl
      push_cast at hoffset' hsector'
      unfold Partition.Before
      split at hgap
      · omega
      · omega

/-- **The two places agree** when all sizes but the last are of whole sectors. -/
theorem aligned_iff (h : Placed k ps) (hk : k % 512 = 0) :
    (∀ p ∈ ps, p.offsetBytes = 512 * p.firstSector) ↔ ∀ p ∈ ps.dropLast, p.size % 512 = 0 := by
  induction ps generalizing k with
  | nil => simp
  | cons p ps ih =>
      obtain ⟨⟨hoffset, hsector, _⟩, hrest⟩ := h
      have hfirst : p.offsetBytes = 512 * p.firstSector := by omega
      cases ps with
      | nil => simp [hfirst]
      | cons q ps =>
          rw [List.forall_mem_cons (l := q :: ps), List.dropLast_cons_cons,
            List.forall_mem_cons (l := (q :: ps).dropLast)]
          have hgap : gap p.size % 512 = 0 := by
            unfold gap
            split <;> rfl
          by_cases hsize : p.size % 512 = 0
          · rw [ih hrest (by omega)]
            simp [hfirst, hsize]
          · -- the next one begins inside a sector
            refine iff_of_false (fun hall => ?_) fun hall => hsize hall.1
            have hnext := hall.2 q (List.mem_cons_self ..)
            have hq := hrest.1.offset
            push_cast at hq
            omega

/-- **The partitions end inside** `n` bytes. -/
theorem fits_iff (h : Placed k ps) (hne : ps ≠ []) (n : Nat) :
    (∀ p ∈ ps, p.offsetBytes + p.size ≤ n) ↔
      k + (ps.map Partition.size).sum + (ps.dropLast.map fun p => gap p.size).sum ≤ n := by
  induction ps generalizing k with
  | nil => contradiction
  | cons p ps ih =>
      obtain ⟨⟨hoffset, _, _⟩, hrest⟩ := h
      cases ps with
      | nil =>
          simp [hoffset]
          omega
      | cons q ps =>
          rw [List.forall_mem_cons, ih hrest (by simp)]
          simp only [List.map_cons, List.sum_cons, List.dropLast_cons_cons]
          omega

end Placed

/-! ## Images -/

/-- The partitions of an accepted command line have their places from byte
2^20 on. -/
theorem placed_of_plan {py : Python} {root : Bool} {partArgs : Option (List Text)} {size : Text}
    {imageSize : Nat} {parts : List Partition}
    (h : plan py root partArgs size = .ok (imageSize, parts)) (hsmall : imageSize < 2 ^ 52) :
    Placed (2 ^ 20) parts := by
  obtain ⟨_, _, args, entries, _, hlen, hleft, _, hright, hlaid, hfits⟩ := plan_eq_ok_iff.mp h
  have hcount : parts.length ≤ 4 := hright.length_eq ▸ hleft.length_eq ▸ hlen
  have hextent := extent_le parts
  refine placed_of_laid (by omega) ?_
  norm_num
  exact hlaid

/-! ### Two small partitions -/

/-- An interpreter that knows ASCII only. -/
def asciiPython : Python where
  decimal c := if c.isDigit then some (c.toNat - '0'.toNat) else none
  space c := c = ' '
  converts n := n ≤ 4300
  decimal_of_isDigit c h := by rw [if_pos h]
  space_of_isDigit c h := by
    rw [decide_eq_false_iff_not]
    intro hc
    rw [hc] at h
    contradiction
  converts_of_le n h := by rw [decide_eq_true_eq]; omega

/-- A raw one for the preloader, and one with the kernel in a file system. -/
def rawPart : Partition where
  num := 3
  files := ["spl".toList]
  size := 1000
  format := some "raw".toList
  fdiskType := "A2".toList
  start := 2048
  bsize := blocks 1000

def plainPart : Partition where
  num := 2
  files := ["zImage".toList]
  size := 1000
  format := some "ext3".toList
  fdiskType := "83".toList
  start := advance 2048 (blocks 1000)
  bsize := blocks 1000

theorem round_lt (size : Nat) (h : size < 2 ^ 53) : Double.round ((size : ℚ) / 512) < 2 ^ 1024 := by
  have hsize : (size : ℚ) < 2 ^ 53 := by exact_mod_cast h
  have hnonneg : (0 : ℚ) ≤ size := size.cast_nonneg
  rw [round_div_512 h]
  calc (size : ℚ) / 512 ≤ size := div_le_self hnonneg (by norm_num)
    _ < 2 ^ 53 := hsize
    _ ≤ 2 ^ 1024 := pow_le_pow_right₀ (by norm_num) (by norm_num)

theorem sizeText_1000 : SizeText asciiPython "1000".toList 1000 :=
  ⟨"1000".toList, none, [], by simp, by simp, by decide, by simp, .inl rfl, by decide, by decide⟩

theorem describes_rawPart :
    Describes asciiPython "spl,num=3,format=raw,size=1000,type=A2".toList rawPart := by
  have hfinite := round_lt 1000 (by norm_num)
  refine ⟨_, ⟨[.file "spl".toList, .num "3".toList 3, .format "raw".toList,
    .size "1000".toList 1000, .type "A2".toList], by simp, ?_, by decide, rfl⟩, rfl, rfl, rfl, rfl,
    by decide, rfl, ⟨_, rfl, .inl rfl⟩, hfinite⟩
  simp only [List.forall_mem_cons]
  exact ⟨⟨show isKeyed _ = false by decide, by decide⟩, ⟨⟨by decide, by decide⟩, by decide⟩,
    ⟨⟨by decide, by decide⟩, by decide⟩, ⟨⟨by decide, sizeText_1000⟩, by decide⟩,
    ⟨show '=' ∉ "A2".toList by decide, by decide⟩, by simp⟩

theorem describes_plainPart :
    Describes asciiPython "zImage,num=2,format=ext3,size=1000".toList plainPart := by
  have hfinite := round_lt 1000 (by norm_num)
  refine ⟨_, ⟨[.file "zImage".toList, .num "2".toList 2, .format "ext3".toList,
    .size "1000".toList 1000], by simp, ?_, by decide, rfl⟩, rfl, rfl, rfl, rfl, by decide, rfl,
    ⟨_, rfl, .inr ⟨rfl, rfl⟩⟩, hfinite⟩
  simp only [List.forall_mem_cons]
  exact ⟨⟨show isKeyed _ = false by decide, by decide⟩, ⟨⟨by decide, by decide⟩, by decide⟩,
    ⟨⟨by decide, by decide⟩, by decide⟩, ⟨⟨by decide, sizeText_1000⟩, by decide⟩, by simp⟩

/-- The command line with these two options and `-s 2000` is accepted. -/
theorem plan_two :
    plan asciiPython true (some ["spl,num=3,format=raw,size=1000,type=A2".toList,
      "zImage,num=2,format=ext3,size=1000".toList]) "2000".toList =
      .ok (2000, [rawPart, plainPart]) := by
  obtain ⟨entries, hleft, hright⟩ := forall₂_describes_iff.mp
    (.cons describes_rawPart (.cons describes_plainPart .nil))
  have hnodup : (entries.map Prod.fst).Nodup := by
    rw [nums_of_suits hright]
    decide
  have hsize : SizeText asciiPython "2000".toList 2000 :=
    ⟨"2000".toList, none, [], by simp, by simp, by decide, by simp, .inl rfl, by decide, by decide⟩
  exact plan_eq_ok_iff.mpr ⟨rfl, hsize, _, entries, rfl, by decide, hleft, hnodup, hright,
    ⟨rfl, rfl, rfl, rfl, trivial⟩, by decide⟩

/-! ### A card -/

/-- A preloader of at most 1M in a raw partition, and the kernel in a file system
of 32M. -/
def cardOptions : List Text :=
  ["spl,num=3,format=raw,size=1M,type=A2".toList, "zImage,num=1,format=ext3,size=32M".toList]

def preloaderPart : Partition where
  num := 3
  files := ["spl".toList]
  size := 2 ^ 20
  format := some "raw".toList
  fdiskType := "A2".toList
  start := 2048
  bsize := blocks (2 ^ 20)

def kernelPart : Partition where
  num := 1
  files := ["zImage".toList]
  size := 2 ^ 25
  format := some "ext3".toList
  fdiskType := "83".toList
  start := advance 2048 (blocks (2 ^ 20))
  bsize := blocks (2 ^ 25)

/-- A size in megabytes. -/
theorem sizeText_megabytes (digits : Text) {n : Nat} (hne : digits ≠ [])
    (hdigits : ∀ d ∈ digits, d.isDigit = true) (hlen : digits.length ≤ 640)
    (hn : n = Decimal.digitsValue digits * (1024 * 1024)) :
    SizeText asciiPython (digits ++ ['M']) n := by
  have hunit : ∀ u ∈ some 'M', isUnit u = true := fun u hu => by
    obtain rfl := Option.some.inj hu
    decide
  exact ⟨digits, some 'M', [], hne, hdigits, asciiPython.converts_of_le _ hlen, hunit, .inl rfl,
    rfl, hn⟩

theorem describes_preloaderPart :
    Describes asciiPython "spl,num=3,format=raw,size=1M,type=A2".toList preloaderPart := by
  have hfinite := round_lt (2 ^ 20) (by norm_num)
  have hsize : SizeText asciiPython "1M".toList (2 ^ 20) :=
    sizeText_megabytes ['1'] (by simp) (by simp) (by decide) (by decide)
  refine ⟨_, ⟨[.file "spl".toList, .num "3".toList 3, .format "raw".toList,
    .size "1M".toList (2 ^ 20), .type "A2".toList], by simp, ?_, by decide, rfl⟩, rfl, rfl, rfl,
    rfl, by decide, rfl, ⟨_, rfl, .inl rfl⟩, hfinite⟩
  simp only [List.forall_mem_cons]
  exact ⟨⟨show isKeyed _ = false by decide, by decide⟩, ⟨⟨by decide, by decide⟩, by decide⟩,
    ⟨⟨by decide, by decide⟩, by decide⟩, ⟨⟨by decide, hsize⟩, by decide⟩,
    ⟨show '=' ∉ "A2".toList by decide, by decide⟩, by simp⟩

theorem describes_kernelPart :
    Describes asciiPython "zImage,num=1,format=ext3,size=32M".toList kernelPart := by
  have hfinite := round_lt (2 ^ 25) (by norm_num)
  have hsize : SizeText asciiPython "32M".toList (2 ^ 25) :=
    sizeText_megabytes ['3', '2'] (by simp) (by simp) (by decide) (by decide)
  refine ⟨_, ⟨[.file "zImage".toList, .num "1".toList 1, .format "ext3".toList,
    .size "32M".toList (2 ^ 25)], by simp, ?_, by decide, rfl⟩, rfl, rfl, rfl, rfl, by decide, rfl,
    ⟨_, rfl, .inr ⟨rfl, rfl⟩⟩, hfinite⟩
  simp only [List.forall_mem_cons]
  exact ⟨⟨show isKeyed _ = false by decide, by decide⟩, ⟨⟨by decide, by decide⟩, by decide⟩,
    ⟨⟨by decide, by decide⟩, by decide⟩, ⟨⟨by decide, hsize⟩, by decide⟩, by simp⟩

/-- They are accepted for an image of 64M. -/
theorem plan_card :
    plan asciiPython true (some cardOptions) "64M".toList =
      .ok (2 ^ 26, [preloaderPart, kernelPart]) := by
  obtain ⟨entries, hleft, hright⟩ := forall₂_describes_iff.mp
    (.cons describes_preloaderPart (.cons describes_kernelPart .nil))
  have hnodup : (entries.map Prod.fst).Nodup := by
    rw [nums_of_suits hright]
    decide
  have hsize : SizeText asciiPython "64M".toList (2 ^ 26) :=
    sizeText_megabytes ['6', '4'] (by simp) (by simp) (by decide) (by decide)
  exact plan_eq_ok_iff.mpr ⟨rfl, hsize, _, entries, rfl, by decide, hleft, hnodup, hright,
    ⟨rfl, rfl, rfl, rfl, trivial⟩, by decide⟩

/-- The card is laid out from its sizes, with finite offsets. -/
theorem plan_accepts_card :
    Laid 2048 [preloaderPart, kernelPart] ∧ kernelPart.start < 2 ^ 1024 := by
  have hsmall : (2 : Nat) ^ 26 < 2 ^ 1000 := pow_lt_pow_right₀ one_lt_two (by norm_num)
  obtain ⟨haccepts, hfinite⟩ :=
    plan_accepts_iff asciiPython true (some cardOptions) "64M".toList (2 ^ 26)
      [preloaderPart, kernelPart] hsmall
  obtain ⟨_, _, _, _, hlaid, _⟩ := haccepts.mp plan_card
  exact ⟨hlaid, hfinite plan_card kernelPart (by simp)⟩

/-- **Partitions never overlap.**  The partitions of every accepted command line,
for an image below 2^52 bytes, begin behind the first 2^20 bytes and follow one
another in the order of the options: the bytes that are formatted lie at least a
sector apart, and so do the sectors in the table, whether or not `fdisk` counts
the first sector among those of `+N`.  The table has the sector of the first byte
and as many sectors as the size takes. -/
theorem partitions_disjoint (py : Python) (root : Bool) (partArgs : Option (List Text)) (size : Text)
    (imageSize : Nat) (parts : List Partition)
    (h : plan py root partArgs size = .ok (imageSize, parts)) (hsmall : imageSize < 2 ^ 52) :
    (∀ p ∈ parts, 2 ^ 20 ≤ p.offsetBytes ∧ p.firstSector = p.offsetBytes / 512 ∧
      p.sectors = (p.size + 511) / 512) ∧
    parts.Pairwise Partition.Before := by
  have hplaced := placed_of_plan h hsmall
  refine ⟨fun p hp => ⟨?_, hplaced.sectors p hp⟩, hplaced.pairwise⟩
  exact_mod_cast (hplaced.le p hp).1

theorem partitions_disjoint_two : Partition.Before rawPart plainPart := by
  have h := (partitions_disjoint _ _ _ _ _ _ plan_two (by norm_num)).2
  exact List.rel_of_pairwise_cons h (by simp)

/-- **What the script does not check.**  The partitions of an accepted command
line are formatted where the table has them exactly when all sizes but that of the
last option are multiples of 512, and lie inside the image exactly when it has room
for the first 2^20 bytes and the gaps as well. -/
theorem layout_iff (py : Python) (root : Bool) (partArgs : Option (List Text)) (size : Text)
    (imageSize : Nat) (parts : List Partition)
    (h : plan py root partArgs size = .ok (imageSize, parts)) (hsmall : imageSize < 2 ^ 52)
    (hne : parts ≠ []) :
    ((∀ p ∈ parts, p.offsetBytes = 512 * p.firstSector) ↔
      ∀ p ∈ parts.dropLast, p.size % 512 = 0) ∧
    ((∀ p ∈ parts, p.offsetBytes + p.size ≤ imageSize) ↔
      2 ^ 20 + (parts.map Partition.size).sum + (parts.dropLast.map fun p => gap p.size).sum ≤
        imageSize) := by
  have hplaced := placed_of_plan h hsmall
  exact ⟨hplaced.aligned_iff (by norm_num), hplaced.fits_iff hne imageSize⟩

/-- The second of the two is formatted elsewhere than the table says, and they do
not fit: an image of 2000 bytes has no room for them. -/
theorem layout_iff_two :
    (¬ ∀ p ∈ [rawPart, plainPart], p.offsetBytes = 512 * p.firstSector) ∧
      ¬ ∀ p ∈ [rawPart, plainPart], p.offsetBytes + p.size ≤ 2000 := by
  obtain ⟨haligned, hfits⟩ := layout_iff _ _ _ _ _ _ plan_two (by norm_num) (by simp)
  constructor
  · rw [haligned]
    decide
  · refine fun h => absurd (hfits.mp ?_) (by decide)
    exact_mod_cast h

end Image

end De1Soc
