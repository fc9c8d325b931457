import De1Soc.Image.Devices
import De1Soc.Image.Layout

/-!
# De1Soc.Image.Contents

What is in the image when the script has ended well.

A raw partition is filled with the bytes of its files, one file behind the other,
and the preloader of the board is read from there.  The commands for the other
partitions write what they like, but only to the bytes of their device; the
partitions do not overlap, and so the files of a raw partition are still in their
place at the end, whatever came before and after them (`raw_contents`).
-/

namespace De1Soc

namespace Image

open Patch Scripts Stoppable

/-- `I` does not depend on the `n` bytes from `offset` on. -/
def Apart (offset : Int) (n : Nat) (I : (Int → BitVec 8) → Prop) : Prop :=
  ∀ f g : Int → BitVec 8, (∀ i, ¬ Within offset n i → g i = f i) → I f → I g

/-- The program keeps `I` of the image, unless it stops. -/
def Keeps {α : Type} (I : (Int → BitVec 8) → Prop) (m : Act α) : Prop :=
  Spec (fun w => I w.image) m (fun _ w => I w.image) fun _ => True

section Frames

variable {α : Type} {I : (Int → BitVec 8) → Prop} {offset : Int} {n : Nat} {fs : Files}

theorem giveUp_stops {P : World → Prop} {Q : α → World → Prop} (message : String) :
    Spec P (giveUp message) Q fun _ => True := by
  refine Spec.bind (R := fun _ _ => True) ?_ fun _ => Spec.stop fun _ _ => trivial
  exact (Spec.const True cleanUp).weaken (fun _ _ => trivial) (fun _ _ _ => trivial) fun _ hw => hw

theorem command_keeps (c : Command) : Keeps I (command c) := fun _ hw => hw

theorem newName_keeps : Keeps I newName := fun _ hw => hw

theorem touch_of_apart {w : World} (h : Apart offset n I) (hw : I w.image) :
    I (w.touch offset n).image :=
  h w.image _ (fun _ hi => if_neg hi) hw

theorem commandIn_keeps (h : Apart offset n I) (c : Command) : Keeps I (commandIn offset n c) := by
  refine Spec.bind (command_keeps c) fun o => ?_
  refine Spec.bind (R := fun _ w => I w.image) (Spec.change fun _ hw => touch_of_apart h hw)
    fun _ => ?_
  exact Spec.pure fun _ hw => hw

theorem deleteLoopback_keeps (d : LoopDevice) : Keeps I (deleteLoopback d) := by
  refine Spec.bind (command_keeps _) fun o => ?_
  cases o with
  | ok =>
      refine Spec.bind (R := fun _ w => I w.image) (Spec.change fun _ hw => hw) fun _ => ?_
      exact Spec.pure fun _ hw => hw
  | fails => exact Spec.pure fun _ hw => hw
  | raises => exact Spec.stop fun _ _ => trivial

theorem createLoopback_keeps (size : Nat) (offset : Int) :
    Spec (fun w => I w.image) (createLoopback size offset)
      (fun d w => I w.image ∧ d.offset = offset ∧ d.size = size) fun _ => True := by
  refine Spec.bind (command_keeps _) fun o => ?_
  cases o with
  | ok => exact fun _ hw => ⟨hw, rfl, rfl⟩
  | fails => exact giveUp_stops _
  | raises => exact Spec.stop fun _ _ => trivial

theorem createPartitionTable_keeps (d : LoopDevice) (h : Apart d.offset 512 I) :
    Keeps I (createPartitionTable d) := by
  refine Spec.bind (commandIn_keeps h _) fun o => ?_
  cases o with
  | ok => exact Spec.pure fun _ hw => hw
  | raises => exact giveUp_stops _
  | fails =>
      refine Spec.bind (command_keeps _) fun o => ?_
      cases o with
      | ok => exact Spec.pure fun _ hw => hw
      | fails => exact Spec.stop fun _ _ => trivial
      | raises => exact Spec.stop fun _ _ => trivial

section Device

variable {d : LoopDevice} (h : Apart d.offset d.size I)
include h

theorem commandOn_keeps (c : Command) : Keeps I (commandOn d c) := commandIn_keeps h c

theorem formatPartition_keeps (fsFormat : Text) : Keeps I (formatPartition d fsFormat) := by
  unfold formatPartition
  split
  · exact Spec.pure fun _ hw => hw
  · refine Spec.bind (commandOn_keeps h _) fun o => ?_
    cases o with
    | ok => exact Spec.pure fun _ hw => hw
    | fails => exact giveUp_stops _
    | raises => exact Spec.stop fun _ _ => trivial

theorem mountFs_keeps :
    Spec (fun w => I w.image) (mountFs d) (fun mp w => I w.image ∧ mp.device = d)
      fun _ => True := by
  refine Spec.bind newName_keeps fun name => ?_
  refine Spec.bind (command_keeps _) fun o => ?_
  cases o with
  | fails => exact giveUp_stops _
  | raises => exact giveUp_stops _
  | ok =>
      refine Spec.bind (commandOn_keeps h _) fun o => ?_
      cases o with
      | ok => exact fun _ hw => ⟨hw, rfl⟩
      | fails => exact giveUp_stops _
      | raises => exact Spec.stop fun _ _ => trivial

theorem copyAll_keeps {mp : MountPoint} (hmp : mp.device = d) (bound : Bool) (files : List Text) :
    Keeps I (copyAll fs mp bound files) := by
  induction files generalizing bound with
  | nil => exact Spec.pure fun _ hw => hw
  | cons stuff rest ih =>
      refine Spec.bind (commandOn_keeps (hmp ▸ h) _) fun o => ?_
      cases o with
      | ok => exact ih true
      | fails => exact giveUp_stops _
      | raises =>
          cases bound with
          | true => exact giveUp_stops _
          | false => exact Spec.stop fun _ _ => trivial

theorem umountFs_keeps {mp : MountPoint} (hmp : mp.device = d) : Keeps I (umountFs mp) := by
  refine Spec.bind (commandOn_keeps (hmp ▸ h) _) fun o => ?_
  cases o with
  | ok => exact Spec.change fun _ hw => hw
  | fails => exact Spec.stop fun _ _ => trivial
  | raises => exact Spec.stop fun _ _ => trivial

theorem doCopy_keeps (files : List Text) : Keeps I (doCopy fs d files) := by
  refine Spec.bind (mountFs_keeps h) fun mp => ?_
  rintro w ⟨hw, hmp⟩
  have hrest : Keeps I (do copyAll fs mp false files; umountFs mp) :=
    Spec.bind (copyAll_keeps h hmp false files) fun _ => umountFs_keeps h hmp
  exact hrest w hw

end Device

/-! ## Raw copies -/

/-- `h` is an image with `I` over which `data` was written from `offset` on. -/
def Patched (I : (Int → BitVec 8) → Prop) (offset : Int) (data : List (BitVec 8))
    (h : Int → BitVec 8) : Prop :=
  ∃ f, I f ∧ h = patch f offset data

theorem patched_nil {f : Int → BitVec 8} (h : I f) : Patched I offset [] f :=
  ⟨f, h, (patch_nil f offset).symm⟩

theorem Patched.append {a data : List (BitVec 8)} {f : Int → BitVec 8}
    (h : Patched I offset a f) :
    Patched I offset (a ++ data) (patch f (offset + a.length) data) := by
  obtain ⟨g, hg, rfl⟩ := h
  exact ⟨g, hg, patch_append g offset a data⟩

/-- Where it was all written to these `n` bytes, `I` is kept. -/
theorem Patched.of_apart {data : List (BitVec 8)} {f : Int → BitVec 8}
    (h : Patched I offset data f) (hapart : Apart offset n I) (hlen : data.length ≤ n) : I f := by
  obtain ⟨g, hg, rfl⟩ := h
  refine hapart g _ (fun i hi => patch_of_not_within fun hmem => hi ?_) hg
  exact ⟨hmem.1, by have := hmem.2; omega⟩

theorem commandIf_able (able : Bool) (c : Command) :
    Spec (fun w => I w.image) (commandIf able c) (fun o w => I w.image ∧ (o = .ok → able = true))
      fun _ => True := by
  refine fun w hw => ⟨hw, fun ho => ?_⟩
  cases able with
  | true => rfl
  | false =>
      cases hanswer : w.answers w.log.length <;> simp [hanswer] at ho

theorem ddTo_image (d : LoopDevice) (done data : List (BitVec 8)) :
    Spec (fun w => Patched I d.offset done w.image) (ddTo d done.length data)
      (fun o w => o = .ok → (done ++ data).length ≤ d.size ∧
        Patched I d.offset (done ++ data) w.image) fun _ => True := by
  refine Spec.bind (commandIf_able _ _) fun o => ?_
  cases o with
  | ok =>
      refine Spec.bind (R := fun _ w => (done ++ data).length ≤ d.size ∧
        Patched I d.offset (done ++ data) w.image) (Spec.change fun w hw => ?_) fun _ => ?_
      · rw [List.length_append]
        exact ⟨of_decide_eq_true (hw.2 rfl), hw.1.append⟩
      · exact Spec.pure fun _ hw _ => hw
  | fails => exact fun _ _ ho => absurd ho (by simp)
  | raises => exact fun _ _ ho => absurd ho (by simp)

/-- **Files are copied one behind the other.** -/
theorem rawCopyFrom_image (d : LoopDevice) (done : List (BitVec 8)) (files : List Text)
    (hlen : done.length ≤ d.size) :
    Spec (fun w => Patched I d.offset done w.image) (rawCopyFrom fs d done.length files)
      (fun _ w => (done ++ files.flatMap fs.content).length ≤ d.size ∧
        Patched I d.offset (done ++ files.flatMap fs.content) w.image) fun _ => True := by
  induction files generalizing done with
  | nil =>
      rw [List.flatMap_nil, List.append_nil]
      exact Spec.pure fun _ hw => ⟨hlen, hw⟩
  | cons stuff rest ih =>
      unfold rawCopyFrom
      split
      · exact giveUp_stops _
      · refine Spec.bind (ddTo_image d done (fs.content stuff)) fun o => ?_
        cases o with
        | ok =>
            rintro w hw
            obtain ⟨hnext, hpatched⟩ := hw rfl
            have hrest := ih (done ++ fs.content stuff) hnext
            rw [List.length_append, List.append_assoc, ← List.flatMap_cons] at hrest
            refine Spec.bind (command_keeps .stat) (fun o => ?_) w hpatched
            cases o with
            | ok => exact hrest
            | fails => exact Spec.stop fun _ _ => trivial
            | raises => exact Spec.stop fun _ _ => trivial
        | fails => exact giveUp_stops _
        | raises => exact Spec.stop fun _ _ => trivial

theorem doRawCopy_image (d : LoopDevice) (files : List Text) :
    Spec (fun w => I w.image) (doRawCopy fs d files)
      (fun _ w => (files.flatMap fs.content).length ≤ d.size ∧
        Patched I d.offset (files.flatMap fs.content) w.image) fun _ => True :=
  (rawCopyFrom_image d [] files (Nat.zero_le _)).pre fun _ hw => patched_nil hw

theorem copyFilesToPartition_keeps {d : LoopDevice} (h : Apart d.offset d.size I) (format : Text)
    (files : List Text) : Keeps I (copyFilesToPartition fs d format files) := by
  unfold copyFilesToPartition
  split
  · exact (doRawCopy_image d files).post fun _ _ hw => hw.2.of_apart h hw.1
  · exact doCopy_keeps h files

/-! ## Partitions -/

theorem finish_keeps (d : LoopDevice) :
    Keeps I (do if ← deleteLoopback d then return else giveUp "") := by
  refine Spec.bind (deleteLoopback_keeps d) fun deleted => ?_
  cases deleted with
  | true => exact Spec.pure fun _ hw => hw
  | false => exact giveUp_stops _

/-- **A partition changes its own bytes only.** -/
theorem doPartition_keeps (p : Partition) (h : Apart p.offsetBytes p.size I) :
    Keeps I (doPartition fs p) := by
  unfold doPartition
  split
  · exact Spec.stop fun _ _ => trivial
  · next format _ =>
      split
      · exact Spec.stop fun _ _ => trivial
      · refine Spec.bind (createLoopback_keeps _ _) fun d => ?_
        rintro w ⟨hw, hoffset, hsize⟩
        rw [← hoffset, ← hsize] at h
        refine Spec.bind (formatPartition_keeps h format) (fun _ => ?_) w hw
        exact Spec.bind (copyFilesToPartition_keeps h format p.files) fun _ => finish_keeps d

/-- The bytes of its files. -/
def Partition.data (fs : Files) (p : Partition) : List (BitVec 8) := p.files.flatMap fs.content

/-- The partition is filled without a file system. -/
def Partition.Raw (p : Partition) : Prop := ∃ format, p.format = some format ∧ isRaw format = true

/-- **A raw partition is filled with its files**, over what it was formatted with. -/
theorem doPartition_raw (fs : Files) (p : Partition) (f : Int → BitVec 8) (hraw : p.Raw) :
    Spec (fun w => w.image = f) (doPartition fs p)
      (fun _ w => (p.data fs).length ≤ p.size ∧
        Patched (fun g => p.format.map getMkfsFromFormat = some [] → g = f) p.offsetBytes
          (p.data fs) w.image) fun _ => True := by
  obtain ⟨format, hformat, hraw⟩ := hraw
  unfold doPartition
  simp only [hformat, Option.map_some, Option.some.injEq]
  split
  · exact Spec.stop fun _ _ => trivial
  · refine Spec.bind (createLoopback_keeps (I := fun g => g = f) _ _) fun d => ?_
    rintro w ⟨hw, hoffset, hsize⟩
    rw [← hoffset, ← hsize]
    have hformatted : Spec (fun w => w.image = f) (formatPartition d format)
        (fun _ w => getMkfsFromFormat format = [] → w.image = f) fun _ => True := by
      unfold formatPartition
      split
      · exact Spec.pure fun _ hw _ => hw
      · next hmkfs =>
          refine (Spec.const True _).weaken (fun _ _ => trivial) ?_ fun _ hw => hw
          exact fun _ _ _ h => absurd h hmkfs
    refine Spec.bind hformatted (fun _ => ?_) w hw
    unfold copyFilesToPartition
    rw [if_pos hraw]
    refine Spec.bind (doRawCopy_image (I := fun g => getMkfsFromFormat format = [] → g = f) d
      p.files) fun _ => ?_
    exact finish_keeps (I := fun g => (p.data fs).length ≤ d.size ∧ Patched _ d.offset _ g) d

end Frames

/-- The files of the partition are in their place, and the rest of it is empty where
it was not formatted. -/
structure Partition.Stored (fs : Files) (p : Partition) (f : Int → BitVec 8) : Prop where
  length_le : (p.data fs).length ≤ p.size
  files : ∀ (k : Nat) byte, (p.data fs)[k]? = some byte → f (p.offsetBytes + k) = byte
  rest : p.format.map getMkfsFromFormat = some [] → ∀ k : Nat, (p.data fs).length ≤ k → k < p.size →
    f (p.offsetBytes + k) = 0

/-- Only the bytes of the partition matter. -/
theorem Partition.Stored.congr {fs : Files} {p : Partition} {f g : Int → BitVec 8}
    (h : p.Stored fs f) (hfg : ∀ i, Within p.offsetBytes p.size i → g i = f i) : p.Stored fs g where
  length_le := h.length_le
  files k byte hk := by
    have hlt : k < (p.data fs).length := (List.getElem?_eq_some_iff.mp hk).1
    have hle := h.length_le
    rw [hfg _ ⟨by omega, by omega⟩, h.files k byte hk]
  rest hmkfs k hk hlt := by rw [hfg _ ⟨by omega, by omega⟩, h.rest hmkfs k hk hlt]

/-- Files that were written over empty bytes are stored. -/
theorem stored_of_patched {fs : Files} {p : Partition} {f h : Int → BitVec 8}
    (hlen : (p.data fs).length ≤ p.size) (hempty : ∀ i, Within p.offsetBytes p.size i → f i = 0)
    (hpatched : Patched (fun g => p.format.map getMkfsFromFormat = some [] → g = f) p.offsetBytes
      (p.data fs) h) : p.Stored fs h := by
  obtain ⟨g, hg, rfl⟩ := hpatched
  refine ⟨hlen, fun k byte hk => ?_, fun hmkfs k hk hlt => ?_⟩
  · rw [patch_add, hk, Option.getD_some]
  · rw [patch_add, List.getElem?_eq_none hk, Option.getD_none, hg hmkfs,
      hempty _ ⟨by omega, by omega⟩]

/-! ## Images -/

/-- The image while the partitions are made: the raw ones that are done have their
files, and where none is done yet it is empty behind the partition table. -/
structure Progress (fs : Files) (done : List Partition) (f : Int → BitVec 8) : Prop where
  stored : ∀ p ∈ done, p.Raw → p.Stored fs f
  empty : ∀ i, 2 ^ 20 ≤ i → (∀ p ∈ done, ¬ Within p.offsetBytes p.size i) → f i = 0

/-- A partition behind those that are done. -/
theorem progress_of_doPartition {fs : Files} {done : List Partition} {p : Partition}
    (hfirst : 2 ^ 20 ≤ p.offsetBytes) (hbefore : ∀ q ∈ done, q.Before p) :
    Spec (fun w => Progress fs done w.image) (doPartition fs p)
      (fun _ w => Progress fs (done ++ [p]) w.image) fun _ => True := by
  intro w hw
  have hempty : ∀ i, Within p.offsetBytes p.size i → w.image i = 0 := by
    refine fun i hi => hw.empty i (hfirst.trans hi.1) fun q hq hmem => ?_
    have hq := (hbefore q hq).1
    have hp := hi.1
    have hlt := hmem.2
    omega
  have hframe : Spec (fun v => ∀ i, ¬ Within p.offsetBytes p.size i → v.image i = w.image i)
      (doPartition fs p)
      (fun _ v => ∀ i, ¬ Within p.offsetBytes p.size i → v.image i = w.image i) fun _ => True := by
    refine doPartition_keeps
      (I := fun f => ∀ i, ¬ Within p.offsetBytes p.size i → f i = w.image i) p ?_
    exact fun f g hfg hf i hi => (hfg i hi).trans (hf i hi)
  -- the bytes of the others, and those of the partition itself
  have hothers : ∀ f : Int → BitVec 8, (∀ i, ¬ Within p.offsetBytes p.size i → f i = w.image i) →
      (p.Raw → p.Stored fs f) → Progress fs (done ++ [p]) f := by
    intro f hf hp
    constructor
    · rw [List.forall_mem_append, List.forall_mem_singleton]
      refine ⟨fun q hq hraw => (hw.stored q hq hraw).congr fun i hi => hf i fun hmem => ?_, hp⟩
      have hq := (hbefore q hq).1
      have hlt := hi.2
      have hle := hmem.1
      omega
    · intro i hi hnone
      rw [List.forall_mem_append, List.forall_mem_singleton] at hnone
      rw [hf i hnone.2, hw.empty i hi hnone.1]
  by_cases hraw : p.Raw
  · have hboth := hframe.and (doPartition_raw fs p w.image hraw)
    refine hboth.weaken (P := fun v => v = w) ?_ ?_ (fun _ _ => trivial) w rfl
    · rintro _ rfl
      exact ⟨fun _ _ => rfl, rfl⟩
    · exact fun _ v hv => hothers _ hv.1 fun _ => stored_of_patched hv.2.1 hempty hv.2.2
  · refine hframe.weaken (P := fun v => v = w) ?_ ?_ (fun _ _ => trivial) w rfl
    · rintro _ rfl
      exact fun _ _ => rfl
    · exact fun _ v hv => hothers _ hv fun h => absurd h hraw

/-- The image is empty at first. -/
theorem createEmptyImage_empty (imageName : String) (imageExists forceEraseImage : Bool) :
    Spec (fun _ => True) (createEmptyImage imageName imageExists forceEraseImage)
      (fun _ w => w.image = fun _ => 0) fun _ => True := by
  have hdd : Spec (fun _ => True) (createEmptyImage imageName false forceEraseImage)
      (fun _ w => w.image = fun _ => 0) fun _ => True := by
    refine Spec.bind (R := fun _ _ => True) (fun _ _ => trivial) fun o => ?_
    cases o with
    | ok => exact Spec.change fun _ _ => rfl
    | fails => exact Spec.stop fun _ _ => trivial
    | raises => exact Spec.stop fun _ _ => trivial
  cases imageExists with
  | false => exact hdd
  | true => exact Spec.bind (Spec.const True _) fun _ => hdd

/-- The partition table does not reach the first partition. -/
theorem apart_table : Apart 0 512 fun f => ∀ i, 2 ^ 20 ≤ i → f i = 0 := by
  intro f g hfg hf i hi
  rw [hfg i fun hmem => ?_, hf i hi]
  have hlt := hmem.2
  omega

/-- **The partitions are made one behind the other**, from byte 2^20 on. -/
theorem createImage_progress (fs : Files) {parts : List Partition} (hplaced : Placed (2 ^ 20) parts)
    (imageName : String) (imageSize : Nat) (imageExists forceEraseImage : Bool) :
    Spec (fun _ => True) (createImage fs imageName imageSize imageExists forceEraseImage parts)
      (fun _ w => Progress fs parts w.image) fun _ => True := by
  have hloop : Spec (fun w => Progress fs [] w.image) (parts.forM (doPartition fs))
      (fun _ w => Progress fs parts w.image) fun _ => True := by
    refine Spec.forM (I := fun done (w : World) => Progress fs done w.image) ?_
    intro done p rest hparts
    have hfirst := (hplaced.le p (by simp [hparts])).1
    have hpairwise := hplaced.pairwise
    rw [hparts, List.pairwise_append] at hpairwise
    exact progress_of_doPartition (by exact_mod_cast hfirst)
      fun q hq => hpairwise.2.2 q hq p List.mem_cons_self
  refine Spec.bind (createEmptyImage_empty imageName imageExists forceEraseImage) fun _ => ?_
  refine Spec.bind (createLoopback_keeps (I := fun f => f = fun _ => 0) imageSize 0) fun d => ?_
  rintro w ⟨hw, hoffset, _⟩
  have htable := apart_table
  rw [← hoffset] at htable
  refine Spec.bind (createPartitionTable_keeps d htable) (fun _ => ?_) w fun i _ => by rw [hw]
  refine Spec.bind (deleteLoopback_keeps (I := fun f => ∀ i, 2 ^ 20 ≤ i → f i = 0) d) fun _ => ?_
  exact hloop.pre fun _ hw => ⟨by simp, fun i hi _ => hw i hi⟩

/-- **Raw partitions have their files.**  For every accepted command line for an
image below 2^52 bytes, whatever the commands for the other partitions write to
their devices: when the script has ended well, the bytes of every raw partition are
those of its files, one file behind the other from its first byte on, which all fit
in, and the rest of it is empty unless it was formatted. -/
theorem raw_contents (py : Python) (root : Bool) (partArgs : Option (List Text)) (size : Text)
    (imageSize : Nat) (parts : List Partition)
    (h : plan py root partArgs size = .ok (imageSize, parts)) (hsmall : imageSize < 2 ^ 52)
    (fs : Files) (imageName : String) (imageExists forceEraseImage : Bool)
    (answers : Nat → Outcome) (bytes : Nat → Int → BitVec 8) (image : Int → BitVec 8) (w : World)
    (hrun : createImage fs imageName imageSize imageExists forceEraseImage parts
      { answers, bytes, image } = (.ok (), w)) :
    ∀ p ∈ parts, p.Raw → p.Stored fs w.image := by
  have hplaced := placed_of_plan h hsmall
  have hspec := createImage_progress fs hplaced imageName imageSize imageExists forceEraseImage
    { answers, bytes, image } trivial
  rw [hrun] at hspec
  exact hspec.stored

/-- A preloader of two bytes. -/
def twoBytes : Files where
  isDir _ := false
  content stuff := if stuff = "spl".toList then [0x12, 0x34] else []

/-- The script for the card ends well where every command does. -/
theorem createImage_card (bytes : Nat → Int → BitVec 8) (image : Int → BitVec 8) :
    ∃ w, createImage twoBytes "sd.img" (2 ^ 26) false false [preloaderPart, kernelPart]
      { answers := fun _ => .ok, bytes, image } = (.ok (), w) := by
  apply exists_run
  have hraw : getMkfsFromFormat ['r', 'a', 'w'] = [] ∧ isRaw ['r', 'a', 'w'] = true := by decide
  have hext : getMkfsFromFormat ['e', 'x', 't', '3'] ≠ [] ∧ isRaw ['e', 'x', 't', '3'] = false := by
    decide
  simp [createImage, createEmptyImage, createLoopback, createPartitionTable, deleteLoopback,
    commandOn, commandIn, command, commandIf, World.touch, newName, List.forM, doPartition,
    preloaderPart, kernelPart, formatPartition, copyFilesToPartition, doRawCopy, rawCopyFrom, ddTo,
    doCopy, mountFs, copyAll, umountFs, twoBytes, hraw, hext]

/-- The preloader is found in its partition of the card with nothing behind it,
although the commands for the other one write `0xff` wherever they can. -/
theorem raw_contents_card :
    ∃ w, createImage twoBytes "sd.img" (2 ^ 26) false false [preloaderPart, kernelPart]
        { answers := fun _ => .ok, bytes := fun _ _ => 0xff, image := fun _ => 0xff } =
          (.ok (), w) ∧
      w.image (preloaderPart.offsetBytes + 1) = 0x34 ∧
        w.image (preloaderPart.offsetBytes + 2) = 0 := by
  obtain ⟨w, hrun⟩ := createImage_card (fun _ _ => 0xff) fun _ => 0xff
  have hstored := raw_contents _ _ _ _ _ _ plan_card (by norm_num) twoBytes "sd.img" false false
    (fun _ => .ok) (fun _ _ => 0xff) (fun _ => 0xff) w hrun preloaderPart (by simp)
    ⟨_, rfl, by decide⟩
  exact ⟨w, hrun, hstored.files 1 0x34 (by decide),
    hstored.rest (by decide) 2 (by decide) (by decide)⟩

end Image

end De1Soc
