import De1Soc.Image
import De1Soc.Patch
import De1Soc.Scripts

/-!
# De1Soc.Image.Devices

What `create_image` does to the image, and what it leaves attached and mounted.

The script attaches the image to a loop device for the partition table, and then,
for each partition, attaches its bytes to another, formats it, mounts it to copy
the files, and takes all of this down again.  It keeps lists of what is attached
and mounted, for `clean_up` to go through when a command fails.  `clean_up` removes
entries from a list while it iterates over it, and so reaches every second one;
there is never more than one entry unless something could not be taken down.

Every command has an outcome that the environment decides (`World.answers`), and
one that works on a device leaves what it likes in the bytes that the device shows
(`World.bytes`).  Whatever they are, a device or a mount is left behind only where
`umount`, `losetup -d`, `partprobe` or `stat` has failed, or a program could not be
run at all (`script_ends`).
-/

namespace De1Soc

namespace Image

open Patch Scripts Stoppable

/-! ## The world of the script -/

/-- The commands that the script runs, and the system calls `remove`, `mkdir` and
`stat`. -/
inductive Command
  | remove
  | dd
  | losetup
  | losetupDelete
  | fdisk
  | partprobe
  | mkfs
  | mkdir
  | mount
  | cp
  | stat
  | umount
deriving DecidableEq, Repr

/-- How a command ends: well, with a failure, or with an exception since it could
not be run.  A failure of a system call is an `OSError` too. -/
inductive Outcome
  | ok
  | fails
  | raises
deriving DecidableEq, Repr

/-- A loop device, and the bytes of the image that it shows. -/
structure LoopDevice where
  name : Nat
  offset : Int
  size : Nat

/-- A mount point, and the device that is mounted there. -/
structure MountPoint where
  name : Nat
  device : LoopDevice

/-- The commands that were run, the last one first, with their outcomes. -/
abbrev Log := List (Command × Outcome)

/-- The system and the variables of the script.  `answers n` is the outcome of
command number `n`, and `bytes n` has what it leaves in the bytes of the image that
it may change; devices and mount points are numbered as they come.  The image has no
end: that a device reaches beyond it shows in the outcomes. -/
structure World where
  answers : Nat → Outcome
  bytes : Nat → Int → BitVec 8
  image : Int → BitVec 8
  log : Log := []
  attached : List LoopDevice := []
  mounted : List MountPoint := []
  loopbackDevUsed : List LoopDevice := []
  mountedFs : List MountPoint := []
  names : Nat := 0

/-- The files that the options name; nobody changes them meanwhile. -/
structure Files where
  isDir : Text → Bool
  content : Text → List (BitVec 8)

/-- What ends the script: `sys.exit(-1)` with a message, or an exception.  In a
message the path of a device or a mount point is its number, and what a command has
returned and printed is left out. -/
inductive Stop
  | exit (message : String)
  | osError
  | nameError
  | unboundLocalError
  | keyError (key : String)
deriving DecidableEq, Repr

abbrev Act := Stoppable Stop World

/-- Run a command.  One that cannot do its work (`able`) does not end well. -/
def commandIf (able : Bool) (c : Command) : Act Outcome := do
  let o ← read fun w => match w.answers w.log.length with
    | .ok => if able then .ok else .fails
    | o => o
  change fun w => { w with log := (c, o) :: w.log }
  return o

def command (c : Command) : Act Outcome := commandIf true c

/-- The `n` bytes from `offset` on are as the last command has left them. -/
def World.touch (offset : Int) (n : Nat) (w : World) : World :=
  { w with image := fun i => if Within offset n i then w.bytes w.log.length i else w.image i }

/-- Run a command that may change the `n` bytes from `offset` on. -/
def commandIn (offset : Int) (n : Nat) (c : Command) : Act Outcome := do
  let o ← command c
  change (World.touch offset n)
  return o

/-- Run a command that may change what a device shows. -/
def commandOn (device : LoopDevice) (c : Command) : Act Outcome :=
  commandIn device.offset device.size c

/-- A new name. -/
def newName : Act Nat := do
  let name ← read World.names
  change fun w => { w with names := name + 1 }
  return name

/-! ## Taking down -/

def deleteLoopback (device : LoopDevice) : Act Bool := do
  match ← command .losetupDelete with
  | .ok =>
      change fun w => { w with
        attached := w.attached.eraseP fun d => d.name = device.name
        loopbackDevUsed := w.loopbackDevUsed.eraseP fun d => d.name = device.name }
      return true
  | .fails => return false
  | .raises => stop .osError

def umountFs (mp : MountPoint) : Act Unit := do
  match ← commandOn mp.device .umount with
  | .ok =>
      change fun w => { w with
        mounted := w.mounted.eraseP fun m => m.name = mp.name
        mountedFs := w.mountedFs.eraseP fun m => m.name = mp.name }
  | .fails => stop (.exit ("error: failed to umount " ++ toString mp.name))
  | .raises => stop .osError

/-- `for mp in mounted_fs`: the entry at `i` of the list as it is then.  The list
does not grow, so its length at the beginning is enough. -/
def umountFrom : Nat → Nat → Act Unit
  | 0, _ => return
  | n + 1, i => do
      match ← read fun w => w.mountedFs[i]? with
      | none => return
      | some mp =>
          umountFs mp
          umountFrom n (i + 1)

/-- `for device in loopback_dev_used` -/
def deleteFrom : Nat → Nat → Act Unit
  | 0, _ => return
  | n + 1, i => do
      match ← read fun w => w.loopbackDevUsed[i]? with
      | none => return
      | some device =>
          let _deleted ← deleteLoopback device
          deleteFrom n (i + 1)

def umountAll : Act Unit := do
  let n ← read fun w => w.mountedFs.length
  umountFrom n 0

def deleteAll : Act Unit := do
  let n ← read fun w => w.loopbackDevUsed.length
  deleteFrom n 0

def cleanUp : Act Unit := do
  umountAll
  deleteAll

/-- `clean_up()` and `sys.exit(-1)` -/
def giveUp {α : Type} (message : String) : Act α := do
  cleanUp
  stop (.exit message)

/-! ## Setting up -/

def createLoopback (size : Nat) (offset : Int) : Act LoopDevice := do
  match ← command .losetup with
  | .ok =>
      let name ← newName
      let device := { name, offset, size }
      change fun w => { w with
        attached := w.attached ++ [device]
        loopbackDevUsed := w.loopbackDevUsed ++ [device] }
      return device
  | .fails => giveUp "error: failed to get a loopback device"
  | .raises => stop .osError

/-- The prompt without `-f` is `raw_input`, which Python 3 does not have. -/
def removeImage (imageName : String) (forceEraseImage : Bool) : Act Unit :=
  if forceEraseImage then do
    match ← command .remove with
    | .ok => return
    | .fails | .raises => stop (.exit ("error: failed to remove " ++ imageName ++ ". Exit"))
  else
    stop .nameError

def createEmptyImage (imageName : String) (imageExists forceEraseImage : Bool) : Act Unit := do
  if imageExists then
    removeImage imageName forceEraseImage
  match ← command .dd with
  | .ok => change fun w => { w with image := fun _ => 0 }
  | .fails => stop (.exit "error: failed to create the image")
  | .raises => stop .osError

/-- The table is in the first sector.  `fdisk` that cannot be run is caught;
`partprobe` is tried where it fails.  It reads all that is written to it. -/
def createPartitionTable (loopback : LoopDevice) : Act Unit := do
  match ← commandIn loopback.offset 512 .fdisk with
  | .ok => return
  | .raises => giveUp "error: fdisk: system error"
  | .fails =>
      match ← command .partprobe with
      | .ok => return
      | .fails => stop (.exit "error: could not reload the partition table from image")
      | .raises => stop .osError

/-- `re.search` for a word. -/
def contains (word s : Text) : Bool := s.tails.any word.isPrefixOf

def getMkfsFromFormat (pformat : Text) : Text :=
  if isExt pformat && endsLine (pformat.drop 4) then "mkfs.".toList ++ pformat
  else if contains "fat".toList pformat then "mkfs.vfat".toList
  else if "xfs".toList.isPrefixOf pformat && endsLine (pformat.drop 3) then "mkfs.xfs".toList
  else []

def formatPartition (loopback : LoopDevice) (fsFormat : Text) : Act Unit :=
  if getMkfsFromFormat fsFormat = [] then
    return
  else do
    match ← commandOn loopback .mkfs with
    | .ok => return
    | .fails => giveUp "error: format: failed."
    | .raises => stop .osError

def mountFs (loopback : LoopDevice) : Act MountPoint := do
  let name ← newName
  match ← command .mkdir with
  | .fails | .raises => giveUp ("error: failed to create mount point ( " ++ toString name ++ " )")
  | .ok =>
      match ← commandOn loopback .mount with
      | .ok =>
          let mp := { name, device := loopback }
          change fun w => { w with
            mounted := w.mounted ++ [mp]
            mountedFs := w.mountedFs ++ [mp] }
          return mp
      | .fails =>
          giveUp ("error: mount: failed ( " ++ toString loopback.name ++ " " ++ toString name ++
            " )")
      | .raises => stop .osError

/-- `dd` to a device, with `seek`: it fails behind the end of the device. -/
def ddTo (loopback : LoopDevice) (offset : Nat) (data : List (BitVec 8)) : Act Outcome := do
  match ← commandIf (offset + data.length ≤ loopback.size) .dd with
  | .ok =>
      change fun w => { w with image := patch w.image (loopback.offset + offset) data }
      return .ok
  | o =>
      change (World.touch loopback.offset loopback.size)
      return o

section Copies

variable (fs : Files)

/-- The loop of `do_raw_copy`, with its `offset`. -/
def rawCopyFrom (loopback : LoopDevice) : Nat → List Text → Act Unit
  | _, [] => return
  | offset, stuff :: rest => do
      if fs.isDir stuff then
        giveUp ("error: " ++ String.ofList stuff ++ " : can't copy dirs to raw partitions")
      else
        match ← ddTo loopback offset (fs.content stuff) with
        | .ok =>
            match ← command .stat with
            | .ok => rawCopyFrom loopback (offset + (fs.content stuff).length) rest
            | .fails | .raises => stop .osError
        | .fails => giveUp ("error: " ++ String.ofList stuff ++ " : failed to do raw copy")
        | .raises => stop .osError

def doRawCopy (loopback : LoopDevice) (files : List Text) : Act Unit :=
  rawCopyFrom fs loopback 0 files

/-- What `do_copy` copies: all that is in a directory. -/
def pattern (stuff : Text) : Text := if fs.isDir stuff then stuff ++ "/*".toList else stuff

/-- The loop of `do_copy`.  Its handler prints `out` and `err`, which are not there
yet (`bound`) where the first `cp` could not be run. -/
def copyAll (mp : MountPoint) : Bool → List Text → Act Unit
  | _, [] => return
  | bound, stuff :: rest => do
      match ← commandOn mp.device .cp with
      | .ok => copyAll mp true rest
      | .fails => giveUp ("error: failed to copy " ++ String.ofList (pattern fs stuff))
      | .raises =>
          if bound then giveUp ("error: failed to copy " ++ String.ofList (pattern fs stuff))
          else stop .unboundLocalError

def doCopy (loopback : LoopDevice) (files : List Text) : Act Unit := do
  let mp ← mountFs loopback
  copyAll fs mp false files
  umountFs mp

/-- `raw|none` -/
def isRaw (format : Text) : Bool := contains "raw".toList format || contains "none".toList format

def copyFilesToPartition (loopback : LoopDevice) (format : Text) (files : List Text) : Act Unit :=
  if isRaw format then doRawCopy fs loopback files else doCopy fs loopback files

def doPartition (partition : Partition) : Act Unit :=
  match partition.format with
  | none => stop (.keyError "format")
  | some format =>
      if format = "fat32".toList ∧ partition.size < 33554432 then
        stop (.exit "error: Unable to create a fat32 partition size < 32MB")
      else do
        let loopback ← createLoopback partition.size partition.offsetBytes
        formatPartition loopback format
        copyFilesToPartition fs loopback format partition.files
        if ← deleteLoopback loopback then
          return
        else
          giveUp ""

def createImage (imageName : String) (imageSize : Nat) (imageExists forceEraseImage : Bool)
    (partitionEntries : List Partition) : Act Unit := do
  createEmptyImage imageName imageExists forceEraseImage
  let loopback ← createLoopback imageSize 0
  createPartitionTable loopback
  let _deleted ← deleteLoopback loopback
  partitionEntries.forM (doPartition fs)

end Copies

/-! ## What is left -/

/-- A command with such an outcome is among those that were run. -/
def Logged (B : Command × Outcome → Prop) (w : World) : Prop := ∃ x ∈ w.log, B x

/-- A command that takes something down has not done so, or the script ends without
`clean_up`. -/
def culprit (x : Command × Outcome) : Prop :=
  x.2 = .raises ∨ (x.2 = .fails ∧
    (x.1 = .umount ∨ x.1 = .losetupDelete ∨ x.1 = .partprobe ∨ x.1 = .stat))

/-- The devices `ds` are attached and `ms` mounted, and the script knows. -/
structure Known (ds : List LoopDevice) (ms : List MountPoint) (w : World) : Prop where
  attached : w.attached = ds
  loopbackDevUsed : w.loopbackDevUsed = ds
  mounted : w.mounted = ms
  mountedFs : w.mountedFs = ms

/-- So it is, unless there was trouble. -/
def Holds (ds : List LoopDevice) (ms : List MountPoint) (w : World) : Prop :=
  Logged culprit w ∨ Known ds ms w

/-- The script goes on, and `L` is true of what it has run. -/
def GoesOn (L : Log → Prop) (ds : List LoopDevice) (ms : List MountPoint) (w : World) : Prop :=
  Holds ds ms w ∧ L w.log

/-- A command that succeeds may always be added. -/
def Lenient (L : Log → Prop) : Prop := ∀ c l, L l → L ((c, .ok) :: l)

/-- All commands have succeeded. -/
def Succeeded (l : Log) : Prop := ∀ x ∈ l, x.2 = .ok

/-- So they have up to the partition table: `fdisk` too, or `partprobe` right
behind it. -/
def TableMade (l : Log) : Prop :=
  ∃ before, Succeeded before ∧
    (l = (.fdisk, .ok) :: before ∨ l = (.partprobe, .ok) :: (.fdisk, .fails) :: before)

/-- And so they have behind it, but perhaps for the `losetup -d` of the table. -/
def WentThrough (l : Log) : Prop :=
  ∃ after o table, l = after ++ (.losetupDelete, o) :: table ∧ Succeeded after ∧ o ≠ .raises ∧
    TableMade table

/-- A command has not ended well. -/
def Failed : World → Prop := Logged fun x => x.2 ≠ .ok

/-- The script may end here: there is a reason, `b` or a command. -/
def Ends (b : Prop) (w : World) : Prop := Holds [] [] w ∧ (b ∨ Failed w)

/-- What `create_image` asks of a partition. -/
def Partition.Ready (fs : Files) (p : Partition) : Prop :=
  ∃ format, p.format = some format ∧ ¬ (format = "fat32".toList ∧ p.size < 33554432) ∧
    (isRaw format = true → ∀ stuff ∈ p.files, fs.isDir stuff = false)

section Specs

variable {α : Type} {L : Log → Prop} {b : Prop} {ds : List LoopDevice} {ms : List MountPoint}
  {fs : Files} {E : World → Prop}

/-- What is true behind a command. -/
structure Behind (L : Log → Prop) (ds : List LoopDevice) (ms : List MountPoint) (c : Command)
    (o : Outcome) (w : World) : Prop where
  holds : Holds ds ms w
  log : ∃ l, L l ∧ w.log = (c, o) :: l

namespace Behind

variable {c : Command} {o : Outcome} {w : World}

theorem ok (h : Behind L ds ms c .ok w) (hL : Lenient L) : GoesOn L ds ms w := by
  obtain ⟨l, hl, hlog⟩ := h.log
  exact ⟨h.holds, hlog ▸ hL c l hl⟩

theorem logged {B : Command × Outcome → Prop} (h : Behind L ds ms c o w) (hB : B (c, o)) :
    Logged B w := by
  obtain ⟨l, _, hlog⟩ := h.log
  exact ⟨(c, o), hlog ▸ List.mem_cons_self .., hB⟩

theorem troubled (h : Behind L ds ms c o w) (ho : culprit (c, o)) : Logged culprit w := h.logged ho

theorem failed (h : Behind L ds ms c o w) (ho : o ≠ .ok) : Failed w := h.logged ho

end Behind

/-- What has become of the image does not matter here. -/
theorem Holds.withImage {w : World} (h : Holds ds ms w) (image : Int → BitVec 8) :
    Holds ds ms { w with image } := by
  obtain htrouble | hknown := h
  · exact .inl htrouble
  · exact .inr ⟨hknown.attached, hknown.loopbackDevUsed, hknown.mounted, hknown.mountedFs⟩

theorem Behind.withImage {c : Command} {o : Outcome} {w : World} (h : Behind L ds ms c o w)
    (image : Int → BitVec 8) : Behind L ds ms c o { w with image } :=
  ⟨h.holds.withImage image, h.log⟩

/-- The log is all that a command changes, and trouble shows there. -/
theorem commandIf_spec (able : Bool) (c : Command) :
    Spec (GoesOn L ds ms) (commandIf able c) (fun o => Behind L ds ms c o) E := by
  intro w hw
  refine ⟨?_, _, hw.2, rfl⟩
  obtain ⟨x, hx, hculprit⟩ | hknown := hw.1
  · exact .inl ⟨x, List.mem_cons_of_mem _ hx, hculprit⟩
  · exact .inr ⟨hknown.attached, hknown.loopbackDevUsed, hknown.mounted, hknown.mountedFs⟩

theorem command_spec (c : Command) :
    Spec (GoesOn L ds ms) (command c) (fun o => Behind L ds ms c o) E := commandIf_spec true c

theorem changeImage_spec {c : Command} {o : Outcome} (f : World → Int → BitVec 8) :
    Spec (Behind L ds ms c o) (do change fun w => { w with image := f w }; return o : Act Outcome)
      (fun o => Behind L ds ms c o) E := by
  refine Spec.bind (R := fun _ => Behind L ds ms c o) (Spec.change fun _ hw => hw.withImage _)
    fun _ => ?_
  exact Spec.pure fun _ hw => hw

theorem commandIn_spec (offset : Int) (n : Nat) (c : Command) :
    Spec (GoesOn L ds ms) (commandIn offset n c) (fun o => Behind L ds ms c o) E := by
  refine Spec.bind (command_spec c) fun o => ?_
  exact changeImage_spec fun w => (w.touch offset n).image

theorem commandOn_spec (device : LoopDevice) (c : Command) :
    Spec (GoesOn L ds ms) (commandOn device c) (fun o => Behind L ds ms c o) E :=
  commandIn_spec device.offset device.size c

theorem ddTo_spec (device : LoopDevice) (offset : Nat) (data : List (BitVec 8)) :
    Spec (GoesOn L ds ms) (ddTo device offset data) (fun o => Behind L ds ms .dd o) E := by
  refine Spec.bind (commandIf_spec _ _) fun o => ?_
  cases o with
  | ok => exact changeImage_spec fun w => patch w.image (device.offset + offset) data
  | fails => exact changeImage_spec fun w => (w.touch device.offset device.size).image
  | raises => exact changeImage_spec fun w => (w.touch device.offset device.size).image

/-- Likewise for commands behind one that has ended well. -/
theorem of_ok (hL : Lenient L) {c : Command} {m : Act α} {Q : α → World → Prop}
    (h : Spec (GoesOn L ds ms) m Q E) : Spec (Behind L ds ms c .ok) m Q E :=
  h.pre fun _ hw => hw.ok hL

/-- An exception is trouble. -/
theorem stop_of_raises {Q : α → World → Prop} {c : Command} {e : Stop} :
    Spec (Behind L ds ms c .raises) (stop e : Act α) Q (Ends b) :=
  Spec.stop fun _ hw => ⟨.inl (hw.troubled (.inl rfl)), .inr (hw.failed (by simp))⟩

/-! ### What is logged stays -/

section Stays

variable {B : Command × Outcome → Prop}

theorem command_logged (c : Command) :
    Spec (Logged B) (command c) (fun _ => Logged B) (Logged B) := by
  rintro w ⟨x, hx, hB⟩
  exact ⟨x, List.mem_cons_of_mem _ hx, hB⟩

theorem deleteLoopback_logged (d : LoopDevice) :
    Spec (Logged B) (deleteLoopback d) (fun _ => Logged B) (Logged B) := by
  refine Spec.bind (command_logged _) fun o => ?_
  cases o with
  | ok =>
      refine Spec.bind (R := fun _ => Logged B) (Spec.change fun _ hw => hw) fun _ => ?_
      exact Spec.pure fun _ hw => hw
  | fails => exact Spec.pure fun _ hw => hw
  | raises => exact Spec.stop fun _ hw => hw

theorem umountFs_logged (mp : MountPoint) :
    Spec (Logged B) (umountFs mp) (fun _ => Logged B) (Logged B) := by
  have hcommand : Spec (Logged B) (commandOn mp.device .umount) (fun _ => Logged B) (Logged B) := by
    refine Spec.bind (command_logged _) fun o => ?_
    refine Spec.bind (R := fun _ => Logged B) (Spec.change fun _ hw => hw) fun _ => ?_
    exact Spec.pure fun _ hw => hw
  refine Spec.bind hcommand fun o => ?_
  cases o with
  | ok => exact Spec.change fun _ hw => hw
  | fails => exact Spec.stop fun _ hw => hw
  | raises => exact Spec.stop fun _ hw => hw

theorem umountFrom_logged (n i : Nat) :
    Spec (Logged B) (umountFrom n i) (fun _ => Logged B) (Logged B) := by
  induction n generalizing i with
  | zero => exact Spec.pure fun _ hw => hw
  | succ n ih =>
      refine Spec.bind (R := fun _ => Logged B) (Spec.read fun _ hw => hw) fun entry => ?_
      cases entry with
      | none => exact Spec.pure fun _ hw => hw
      | some mp => exact Spec.bind (umountFs_logged mp) fun _ => ih (i + 1)

theorem deleteFrom_logged (n i : Nat) :
    Spec (Logged B) (deleteFrom n i) (fun _ => Logged B) (Logged B) := by
  induction n generalizing i with
  | zero => exact Spec.pure fun _ hw => hw
  | succ n ih =>
      refine Spec.bind (R := fun _ => Logged B) (Spec.read fun _ hw => hw) fun entry => ?_
      cases entry with
      | none => exact Spec.pure fun _ hw => hw
      | some d => exact Spec.bind (deleteLoopback_logged d) fun _ => ih (i + 1)

theorem umountAll_logged : Spec (Logged B) umountAll (fun _ => Logged B) (Logged B) :=
  Spec.bind (R := fun _ => Logged B) (Spec.read fun _ hw => hw) fun n => umountFrom_logged n 0

theorem deleteAll_logged : Spec (Logged B) deleteAll (fun _ => Logged B) (Logged B) :=
  Spec.bind (R := fun _ => Logged B) (Spec.read fun _ hw => hw) fun n => deleteFrom_logged n 0

theorem cleanUp_logged : Spec (Logged B) cleanUp (fun _ => Logged B) (Logged B) :=
  Spec.bind umountAll_logged fun _ => deleteAll_logged

end Stays

/-! ### Taking down -/

theorem deleteLoopback_spec (d : LoopDevice) :
    Spec (GoesOn L [d] ms) (deleteLoopback d)
      (fun deleted => Behind L [] ms .losetupDelete (bif deleted then .ok else .fails))
      (Ends b) := by
  refine Spec.bind (command_spec _) fun o => ?_
  cases o with
  | ok =>
      refine Spec.bind (R := fun _ => Behind L [] ms .losetupDelete .ok)
        (Spec.change fun w hw => ⟨?_, hw.log⟩) fun _ => Spec.pure fun _ hw => hw
      obtain htrouble | ⟨hattached, hused, hmounted, hfs⟩ := hw.holds
      · exact .inl htrouble
      · exact .inr ⟨by simp [hattached], by simp [hused], hmounted, hfs⟩
  | fails =>
      refine Spec.pure fun _ hw => ⟨.inl (hw.troubled ?_), hw.log⟩
      exact .inr ⟨rfl, .inr (.inl rfl)⟩
  | raises => exact stop_of_raises

theorem umountFs_spec (hL : Lenient L) (mp : MountPoint) :
    Spec (GoesOn L ds [mp]) (umountFs mp) (fun _ => GoesOn L ds []) (Ends b) := by
  refine Spec.bind (commandOn_spec _ _) fun o => ?_
  cases o with
  | ok =>
      refine Spec.change fun w hw => ⟨?_, (hw.ok hL).2⟩
      obtain htrouble | ⟨hattached, hused, hmounted, hfs⟩ := hw.holds
      · exact .inl htrouble
      · exact .inr ⟨hattached, hused, by simp [hmounted], by simp [hfs]⟩
  | fails =>
      refine Spec.stop fun _ hw => ⟨.inl (hw.troubled ?_), .inr (hw.failed (by simp))⟩
      exact .inr ⟨rfl, .inl rfl⟩
  | raises => exact stop_of_raises

/-- What is known to be there is taken down, whatever was run before. -/
theorem umountFs_known (mp : MountPoint) :
    Spec (Known ds [mp]) (umountFs mp) (fun _ => Holds ds []) (Holds [] []) := by
  have hone : Spec (GoesOn (fun _ => True) ds [mp]) (umountFs mp)
      (fun _ => GoesOn (fun _ => True) ds []) (Ends True) :=
    umountFs_spec (fun _ _ _ => trivial) mp
  exact hone.weaken (fun _ hw => ⟨.inr hw, trivial⟩) (fun _ _ hw => hw.1) fun _ hw => hw.1

theorem deleteLoopback_known (d : LoopDevice) :
    Spec (Known [d] ms) (deleteLoopback d) (fun _ => Holds [] ms) (Holds [] []) := by
  have hone : Spec (GoesOn (fun _ => True) [d] ms) (deleteLoopback d)
      (fun deleted => Behind (fun _ => True) [] ms .losetupDelete (bif deleted then .ok else .fails))
      (Ends True) :=
    deleteLoopback_spec d
  exact hone.weaken (fun _ hw => ⟨.inr hw, trivial⟩) (fun _ _ hw => hw.holds) fun _ hw => hw.1

/-- A loop over at most one mount takes it down. -/
theorem umountFrom_spec (h : ms.length ≤ 1) :
    Spec (Known ds ms) (umountFrom ms.length 0) (fun _ => Holds ds []) (Holds [] []) := by
  match ms, h with
  | [], _ => exact Spec.pure fun _ hw => .inr hw
  | [mp], _ =>
      refine Spec.bind (R := fun entry w => entry = some mp ∧ Known ds [mp] w)
        (Spec.read fun w hw => ⟨by simp [hw.mountedFs], hw⟩) fun entry => ?_
      have hbody : Spec (Known ds [mp]) (umountFs mp >>= fun _ => umountFrom 0 1)
          (fun _ => Holds ds []) (Holds [] []) :=
        Spec.bind (umountFs_known mp) fun _ => Spec.pure fun _ hw => hw
      rintro w ⟨rfl, hw⟩
      exact hbody w hw

theorem deleteFrom_spec (h : ds.length ≤ 1) :
    Spec (Known ds ms) (deleteFrom ds.length 0) (fun _ => Holds [] ms) (Holds [] []) := by
  match ds, h with
  | [], _ => exact Spec.pure fun _ hw => .inr hw
  | [d], _ =>
      refine Spec.bind (R := fun entry w => entry = some d ∧ Known [d] ms w)
        (Spec.read fun w hw => ⟨by simp [hw.loopbackDevUsed], hw⟩) fun entry => ?_
      have hbody : Spec (Known [d] ms) (deleteLoopback d >>= fun _ => deleteFrom 0 1)
          (fun _ => Holds [] ms) (Holds [] []) :=
        Spec.bind (deleteLoopback_known d) fun _ => Spec.pure fun _ hw => hw
      rintro w ⟨rfl, hw⟩
      exact hbody w hw

theorem umountAll_spec (h : ms.length ≤ 1) :
    Spec (Holds ds ms) umountAll (fun _ => Holds ds []) (Holds [] []) := by
  refine Spec.or ?_ fun w hw => ?_
  · exact umountAll_logged.weaken (fun _ hw => hw) (fun _ _ hw => .inl hw) fun _ hw => .inl hw
  · have hloop := umountFrom_spec h w hw
    rw [← congrArg List.length hw.mountedFs] at hloop
    exact hloop

theorem deleteAll_spec (h : ds.length ≤ 1) :
    Spec (Holds ds ms) deleteAll (fun _ => Holds [] ms) (Holds [] []) := by
  refine Spec.or ?_ fun w hw => ?_
  · exact deleteAll_logged.weaken (fun _ hw => hw) (fun _ _ hw => .inl hw) fun _ hw => .inl hw
  · have hloop := deleteFrom_spec h w hw
    rw [← congrArg List.length hw.loopbackDevUsed] at hloop
    exact hloop

/-- **`clean_up` takes down one of each.** -/
theorem cleanUp_spec (hds : ds.length ≤ 1) (hms : ms.length ≤ 1) :
    Spec (Holds ds ms) cleanUp (fun _ => Holds [] []) (Holds [] []) :=
  Spec.bind (umountAll_spec hms) fun _ => deleteAll_spec hds

/-- Giving up for a reason leaves nothing. -/
theorem giveUp_spec {P : World → Prop} {Q : α → World → Prop}
    (hP : ∀ w, P w → Holds ds ms w ∧ (b ∨ Failed w)) (hds : ds.length ≤ 1) (hms : ms.length ≤ 1)
    (message : String) : Spec P (giveUp message) Q (Ends b) := by
  have hreason : Spec (fun w => b ∨ Failed w) cleanUp (fun _ w => b ∨ Failed w)
      (fun w => b ∨ Failed w) := by
    refine Spec.or ?_ ?_
    · exact (Spec.const b cleanUp).weaken (fun _ hw => hw) (fun _ _ hw => .inl hw)
        fun _ hw => .inl hw
    · exact cleanUp_logged.weaken (fun _ hw => hw) (fun _ _ hw => .inr hw) fun _ hw => .inr hw
  have hall := (cleanUp_spec hds hms).and hreason
  refine Spec.bind (hall.pre hP) fun _ => ?_
  exact Spec.stop fun _ hw => hw

/-- A command that has not ended well is a reason. -/
theorem giveUp_of_failed {Q : α → World → Prop} {c : Command} {o : Outcome} (ho : o ≠ .ok)
    (hds : ds.length ≤ 1) (hms : ms.length ≤ 1) (message : String) :
    Spec (Behind L ds ms c o) (giveUp message) Q (Ends b) :=
  giveUp_spec (fun _ hw => ⟨hw.holds, .inr (hw.failed ho)⟩) hds hms message

/-! ### Setting up -/

theorem newName_spec : Spec (GoesOn L ds ms) newName (fun _ => GoesOn L ds ms) E := by
  intro w hw
  refine ⟨?_, hw.2⟩
  obtain htrouble | hknown := hw.1
  · exact .inl htrouble
  · exact .inr ⟨hknown.attached, hknown.loopbackDevUsed, hknown.mounted, hknown.mountedFs⟩

theorem createLoopback_spec (hL : Lenient L) (size : Nat) (offset : Int) :
    Spec (GoesOn L [] []) (createLoopback size offset) (fun d => GoesOn L [d] []) (Ends b) := by
  refine Spec.bind (command_spec _) fun o => ?_
  cases o with
  | ok =>
      intro w hw
      refine ⟨?_, (hw.ok hL).2⟩
      obtain htrouble | hknown := hw.holds
      · exact .inl htrouble
      · exact .inr ⟨by simp [hknown.attached], by simp [hknown.loopbackDevUsed], hknown.mounted,
          hknown.mountedFs⟩
  | fails => exact giveUp_of_failed (by simp) (by simp) (by simp) _
  | raises => exact stop_of_raises

theorem removeImage_spec (hL : Lenient L) (imageName : String) (forceEraseImage : Bool)
    (hb : ¬ forceEraseImage = true → b) :
    Spec (GoesOn L [] []) (removeImage imageName forceEraseImage)
      (fun _ w => GoesOn L [] [] w ∧ forceEraseImage = true) (Ends b) := by
  cases forceEraseImage with
  | false => exact Spec.stop fun _ hw => ⟨hw.1, .inl (hb (by simp))⟩
  | true =>
      refine Spec.bind (command_spec _) fun o => ?_
      cases o with
      | ok => exact Spec.pure fun _ hw => ⟨hw.ok hL, rfl⟩
      | fails => exact Spec.stop fun _ hw => ⟨hw.holds, .inr (hw.failed (by simp))⟩
      | raises => exact Spec.stop fun _ hw => ⟨hw.holds, .inr (hw.failed (by simp))⟩

theorem createEmptyImage_spec (hL : Lenient L) (imageName : String)
    (imageExists forceEraseImage : Bool)
    (hb : ¬ (imageExists = true → forceEraseImage = true) → b) :
    Spec (GoesOn L [] []) (createEmptyImage imageName imageExists forceEraseImage)
      (fun _ w => GoesOn L [] [] w ∧ (imageExists = true → forceEraseImage = true)) (Ends b) := by
  have hdd : Spec (GoesOn L [] []) (createEmptyImage imageName false forceEraseImage)
      (fun _ => GoesOn L [] []) (Ends b) := by
    refine Spec.bind (command_spec _) fun o => ?_
    cases o with
    | ok => exact Spec.change fun _ hw => ⟨(hw.ok hL).1.withImage _, (hw.ok hL).2⟩
    | fails => exact Spec.stop fun _ hw => ⟨hw.holds, .inr (hw.failed (by simp))⟩
    | raises => exact stop_of_raises
  cases imageExists with
  | false => exact hdd.post fun _ _ hw => ⟨hw, by simp⟩
  | true =>
      have hremove := removeImage_spec hL imageName forceEraseImage fun h => hb (by simpa using h)
      refine Spec.bind hremove fun _ => ?_
      exact hdd.keep.post fun _ _ hw => ⟨hw.1, fun _ => hw.2⟩

theorem createPartitionTable_spec (d : LoopDevice) :
    Spec (GoesOn Succeeded [d] []) (createPartitionTable d) (fun _ => GoesOn TableMade [d] [])
      (Ends b) := by
  refine Spec.bind (commandIn_spec _ _ _) fun o => ?_
  cases o with
  | ok =>
      refine Spec.pure fun _ hw => ?_
      obtain ⟨before, hbefore, hlog⟩ := hw.log
      exact ⟨hw.holds, before, hbefore, .inl hlog⟩
  | raises => exact giveUp_of_failed (by simp) (by simp) (by simp) _
  | fails =>
      -- the script goes on to `partprobe`, for which all of this is before it
      have hon : ∀ w, Behind Succeeded [d] [] .fdisk .fails w →
          GoesOn (fun l => ∃ before, Succeeded before ∧ l = (.fdisk, .fails) :: before) [d] [] w :=
        fun w hw => ⟨hw.holds, hw.log⟩
      refine Spec.bind ((command_spec _).pre hon) fun o => ?_
      cases o with
      | ok =>
          refine Spec.pure fun _ hw => ?_
          obtain ⟨_, ⟨before, hbefore, rfl⟩, hlog⟩ := hw.log
          exact ⟨hw.holds, before, hbefore, .inr hlog⟩
      | fails =>
          refine Spec.stop fun _ hw => ⟨.inl (hw.troubled ?_), .inr (hw.failed (by simp))⟩
          exact .inr ⟨rfl, .inr (.inr (.inl rfl))⟩
      | raises => exact stop_of_raises

theorem formatPartition_spec (hL : Lenient L) (d : LoopDevice) (fsFormat : Text) :
    Spec (GoesOn L [d] []) (formatPartition d fsFormat) (fun _ => GoesOn L [d] []) (Ends b) := by
  unfold formatPartition
  split
  · exact Spec.pure fun _ hw => hw
  · refine Spec.bind (commandOn_spec _ _) fun o => ?_
    cases o with
    | ok => exact Spec.pure fun _ hw => hw.ok hL
    | fails => exact giveUp_of_failed (by simp) (by simp) (by simp) _
    | raises => exact stop_of_raises

theorem mountFs_spec (hL : Lenient L) (d : LoopDevice) :
    Spec (GoesOn L [d] []) (mountFs d) (fun mp => GoesOn L [d] [mp]) (Ends b) := by
  refine Spec.bind newName_spec fun name => ?_
  refine Spec.bind (command_spec _) fun o => ?_
  cases o with
  | fails => exact giveUp_of_failed (by simp) (by simp) (by simp) _
  | raises => exact giveUp_of_failed (by simp) (by simp) (by simp) _
  | ok =>
      refine Spec.bind (of_ok hL (commandOn_spec _ _)) fun o => ?_
      cases o with
      | ok =>
          intro w hw
          refine ⟨?_, (hw.ok hL).2⟩
          obtain htrouble | hknown := hw.holds
          · exact .inl htrouble
          · exact .inr ⟨hknown.attached, hknown.loopbackDevUsed, by simp [hknown.mounted],
              by simp [hknown.mountedFs]⟩
      | fails => exact giveUp_of_failed (by simp) (by simp) (by simp) _
      | raises => exact stop_of_raises

/-! ### Copying -/

theorem rawCopyFrom_spec (hL : Lenient L) (d : LoopDevice) (offset : Nat) (files : List Text)
    (hb : (¬ ∀ stuff ∈ files, fs.isDir stuff = false) → b) :
    Spec (GoesOn L [d] []) (rawCopyFrom fs d offset files)
      (fun _ w => GoesOn L [d] [] w ∧ ∀ stuff ∈ files, fs.isDir stuff = false) (Ends b) := by
  induction files generalizing offset with
  | nil => exact Spec.pure fun _ hw => ⟨hw, by simp⟩
  | cons stuff rest ih =>
      rw [List.forall_mem_cons] at hb
      unfold rawCopyFrom
      split
      · next hdir =>
          exact giveUp_spec (fun _ hw => ⟨hw.1, .inl (hb (by simp [hdir]))⟩) (by simp) (by simp) _
      · next hdir =>
          rw [Bool.not_eq_true] at hdir
          have hrest := ih (offset + (fs.content stuff).length) fun h => hb fun hall => h hall.2
          refine Spec.bind (ddTo_spec _ _ _) fun o => ?_
          cases o with
          | ok =>
              refine Spec.bind (of_ok hL (command_spec _)) fun o => ?_
              cases o with
              | ok =>
                  refine of_ok hL (hrest.post fun _ _ hw => ?_)
                  exact ⟨hw.1, List.forall_mem_cons.mpr ⟨hdir, hw.2⟩⟩
              | fails =>
                  refine Spec.stop fun _ hw => ⟨.inl (hw.troubled ?_), .inr (hw.failed (by simp))⟩
                  exact .inr ⟨rfl, .inr (.inr (.inr rfl))⟩
              | raises => exact stop_of_raises
          | fails => exact giveUp_of_failed (by simp) (by simp) (by simp) _
          | raises => exact stop_of_raises

theorem copyAll_spec (hL : Lenient L) (d : LoopDevice) (mp : MountPoint) (bound : Bool)
    (files : List Text) :
    Spec (GoesOn L [d] [mp]) (copyAll fs mp bound files) (fun _ => GoesOn L [d] [mp]) (Ends b) := by
  induction files generalizing bound with
  | nil => exact Spec.pure fun _ hw => hw
  | cons stuff rest ih =>
      refine Spec.bind (commandOn_spec _ _) fun o => ?_
      cases o with
      | ok => exact of_ok hL (ih true)
      | fails => exact giveUp_of_failed (by simp) (by simp) (by simp) _
      | raises =>
          cases bound with
          | true => exact giveUp_of_failed (by simp) (by simp) (by simp) _
          | false => exact stop_of_raises

theorem doCopy_spec (hL : Lenient L) (d : LoopDevice) (files : List Text) :
    Spec (GoesOn L [d] []) (doCopy fs d files) (fun _ => GoesOn L [d] []) (Ends b) := by
  refine Spec.bind (mountFs_spec hL d) fun mp => ?_
  exact Spec.bind (copyAll_spec hL d mp false files) fun _ => umountFs_spec hL mp

theorem copyFilesToPartition_spec (hL : Lenient L) (d : LoopDevice) (format : Text)
    (files : List Text)
    (hb : ¬ (isRaw format = true → ∀ stuff ∈ files, fs.isDir stuff = false) → b) :
    Spec (GoesOn L [d] []) (copyFilesToPartition fs d format files)
      (fun _ w => GoesOn L [d] [] w ∧
        (isRaw format = true → ∀ stuff ∈ files, fs.isDir stuff = false)) (Ends b) := by
  unfold copyFilesToPartition
  split
  · next hraw =>
      have hcopy := rawCopyFrom_spec hL d 0 files fun h => hb fun hall => h (hall hraw)
      exact hcopy.post fun _ _ hw => ⟨hw.1, fun _ => hw.2⟩
  · next hraw => exact (doCopy_spec hL d files).post fun _ _ hw => ⟨hw, fun h => absurd h hraw⟩

/-! ### The whole script -/

/-- **One partition** takes down what it has set up. -/
theorem doPartition_spec (hL : Lenient L) (p : Partition) (hb : ¬ p.Ready fs → b) :
    Spec (GoesOn L [] []) (doPartition fs p) (fun _ w => GoesOn L [] [] w ∧ p.Ready fs)
      (Ends b) := by
  unfold doPartition
  split
  · next hformat =>
      refine Spec.stop fun _ hw => ⟨hw.1, .inl (hb ?_)⟩
      rintro ⟨format, h, _⟩
      rw [hformat] at h
      contradiction
  · next format hformat =>
      have hready : p.Ready fs ↔ ¬ (format = "fat32".toList ∧ p.size < 33554432) ∧
          (isRaw format = true → ∀ stuff ∈ p.files, fs.isDir stuff = false) := by
        simp [Partition.Ready, hformat]
      rw [hready] at hb ⊢
      split
      · next hsmall => exact Spec.stop fun _ hw => ⟨hw.1, .inl (hb fun h => h.1 hsmall)⟩
      · next hsmall =>
          refine Spec.bind (createLoopback_spec hL _ _) fun d => ?_
          refine Spec.bind (formatPartition_spec hL d format) fun _ => ?_
          have hcopy := copyFilesToPartition_spec hL d format p.files fun h => hb fun hr => h hr.2
          refine Spec.bind hcopy fun _ => ?_
          refine Spec.bind (deleteLoopback_spec d).keep fun deleted => ?_
          cases deleted with
          | true => exact Spec.pure fun _ hw => ⟨hw.1.ok hL, hsmall, hw.2⟩
          | false =>
              exact giveUp_spec (fun _ hw => ⟨hw.1.holds, .inr (hw.1.failed (by simp))⟩) (by simp)
                (by simp) _

/-- What `create_image` asks of its arguments. -/
def Runnable (fs : Files) (imageExists forceEraseImage : Bool) (parts : List Partition) : Prop :=
  (imageExists = true → forceEraseImage = true) ∧ ∀ p ∈ parts, p.Ready fs

theorem doPartitions_spec (hL : Lenient L) (parts : List Partition)
    (hb : (¬ ∀ p ∈ parts, p.Ready fs) → b) :
    Spec (GoesOn L [] []) (parts.forM (doPartition fs))
      (fun _ w => GoesOn L [] [] w ∧ ∀ p ∈ parts, p.Ready fs) (Ends b) := by
  -- the partitions that are done were ready
  refine (Spec.forM (I := fun (done : List Partition) (w : World) =>
    GoesOn L [] [] w ∧ ∀ p ∈ done, p.Ready fs) ?_).pre fun _ hw => ⟨hw, by simp⟩
  intro done p rest hparts
  have hone := doPartition_spec hL p fun h => hb fun hr => h (hr p (by simp [hparts]))
  refine hone.keep.post fun _ _ hw => ⟨hw.1.1, ?_⟩
  rw [List.forall_mem_append, List.forall_mem_singleton]
  exact ⟨hw.2, hw.1.2⟩

theorem lenient_succeeded : Lenient Succeeded :=
  fun _ _ hl => List.forall_mem_cons.mpr ⟨rfl, hl⟩

theorem lenient_wentThrough : Lenient WentThrough := by
  rintro c _ ⟨after, o, table, rfl, hafter, ho, htable⟩
  exact ⟨(c, .ok) :: after, o, table, rfl, lenient_succeeded c after hafter, ho, htable⟩

theorem createImage_spec (imageName : String) (imageSize : Nat)
    (imageExists forceEraseImage : Bool) (parts : List Partition)
    (hb : ¬ Runnable fs imageExists forceEraseImage parts → b) :
    Spec (GoesOn Succeeded [] [])
      (createImage fs imageName imageSize imageExists forceEraseImage parts)
      (fun _ w => GoesOn WentThrough [] [] w ∧ Runnable fs imageExists forceEraseImage parts)
      (Ends b) := by
  have hrest : Spec (GoesOn Succeeded [] []) (do
      let loopback ← createLoopback imageSize 0
      createPartitionTable loopback
      let _deleted ← deleteLoopback loopback
      parts.forM (doPartition fs))
      (fun _ w => GoesOn WentThrough [] [] w ∧ ∀ p ∈ parts, p.Ready fs) (Ends b) := by
    have hparts := doPartitions_spec (b := b) lenient_wentThrough parts fun h => hb fun hr => h hr.2
    refine Spec.bind (createLoopback_spec lenient_succeeded _ _) fun d => ?_
    refine Spec.bind (createPartitionTable_spec d) fun _ => ?_
    refine Spec.bind (deleteLoopback_spec d) fun deleted => hparts.pre fun _ hw => ?_
    obtain ⟨table, htable, hlog⟩ := hw.log
    refine ⟨hw.holds, [], _, table, hlog, by simp [Succeeded], ?_, htable⟩
    cases deleted <;> simp
  refine Spec.bind (createEmptyImage_spec lenient_succeeded imageName imageExists forceEraseImage
    fun h => hb fun hr => h hr.1) fun _ => ?_
  exact hrest.keep.post fun _ _ hw => ⟨hw.1.1, hw.2, hw.1.2⟩

end Specs

/-- **How the script ends.**  Whatever the outcomes of its commands are and what they
leave in the image: it ends well only if it may replace the image, every partition
is ready and every command has succeeded, but perhaps `fdisk`, with `partprobe` right
behind it, and the `losetup -d` that follows; where nothing at all has failed that is
enough.  However it ends, where a loop device is still attached or a file system
still mounted, a `umount`, a `losetup -d`, a `partprobe` or a `stat` has failed, or a
program could not be run. -/
theorem script_ends (fs : Files) (imageName : String) (imageSize : Nat)
    (imageExists forceEraseImage : Bool) (parts : List Partition) (answers : Nat → Outcome)
    (bytes : Nat → Int → BitVec 8) (image : Int → BitVec 8) (r : Except Stop Unit) (w : World)
    (h : createImage fs imageName imageSize imageExists forceEraseImage parts
      { answers, bytes, image } = (r, w)) :
    (r = .ok () → Runnable fs imageExists forceEraseImage parts ∧ WentThrough w.log) ∧
    (Runnable fs imageExists forceEraseImage parts → (∀ c o, (c, o) ∈ w.log → o = .ok) →
      r = .ok ()) ∧
    (w.attached ≠ [] ∨ w.mounted ≠ [] → ∃ c o, (c, o) ∈ w.log ∧ (o = .raises ∨
      (o = .fails ∧ (c = .umount ∨ c = .losetupDelete ∨ c = .partprobe ∨ c = .stat)))) := by
  have hall : Spec (GoesOn Succeeded [] [])
      (createImage fs imageName imageSize imageExists forceEraseImage parts)
      (fun _ w => GoesOn WentThrough [] [] w ∧ Runnable fs imageExists forceEraseImage parts)
      (Ends (¬ Runnable fs imageExists forceEraseImage parts)) :=
    createImage_spec imageName imageSize imageExists forceEraseImage parts fun h => h
  have hspec := hall { answers, bytes, image } ⟨.inr ⟨rfl, rfl, rfl, rfl⟩, by simp [Succeeded]⟩
  rw [h] at hspec
  have hholds : Holds [] [] w := by
    cases r with
    | ok u => exact hspec.1.1
    | error e => exact hspec.1
  refine ⟨fun hr => ?_, fun hrun hall => ?_, fun hleft => ?_⟩
  · subst hr
    exact ⟨hspec.2, hspec.1.2⟩
  · cases r with
    | ok u => rfl
    | error e =>
        obtain hnot | ⟨⟨c, o⟩, hmem, hfailed⟩ := hspec.2
        · exact absurd hrun hnot
        · exact absurd (hall c o hmem) hfailed
  · obtain ⟨⟨c, o⟩, hmem, hculprit⟩ | hknown := hholds
    · exact ⟨c, o, hmem, hculprit⟩
    · obtain hattached | hmounted := hleft
      · exact absurd hknown.attached hattached
      · exact absurd hknown.mounted hmounted

/-- An empty partition with a file system. -/
def emptyPart : Partition where
  num := 2
  files := []
  size := 2 ^ 25
  format := some "ext3".toList
  fdiskType := "83".toList
  start := 2048
  bsize := 2 ^ 16

/-- The ninth command of a script with this one partition is its `umount`; where
that fails the file system stays mounted. -/
theorem script_ends_umount :
    ∃ r w, createImage ⟨fun _ => false, fun _ => []⟩ "sd.img" (2 ^ 26) false false [emptyPart]
        { answers := fun n => if n = 8 then .fails else .ok, bytes := fun _ _ => 0,
          image := fun _ => 0 } = (r, w) ∧
      w.mounted.map MountPoint.name = [2] ∧
      ∃ c o, (c, o) ∈ w.log ∧ (o = .raises ∨
        (o = .fails ∧ (c = .umount ∨ c = .losetupDelete ∨ c = .partprobe ∨ c = .stat))) := by
  have hends := script_ends ⟨fun _ => false, fun _ => []⟩ "sd.img" (2 ^ 26) false false [emptyPart]
    (fun n => if n = 8 then .fails else .ok) (fun _ _ => 0) (fun _ => 0) _ _ rfl
  refine ⟨_, _, rfl, rfl, hends.2.2 (.inr ?_)⟩
  exact List.cons_ne_nil _ []

end Image

end De1Soc
