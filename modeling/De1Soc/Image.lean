import De1Soc.Double
import Mathlib.Data.List.DropRight

/-!
# De1Soc.Image

The arguments of the SD card image script (`make_sdimage_p3.py`).

Each `-P` option describes a partition by elements between commas: `num`, `size`,
`format` and `type` with their values, and the files that go into it.  The script
parses all of them, checks them against the size of the image (`-s`) and gives
every partition its place, before it touches anything.  The functions stand here
under their own names; an `Abort` is what ends the script there, with the text it
prints.

Sizes are integers, but `/` divides into a double, so that the offsets, counted in
blocks of 512 bytes, are doubles too (`De1Soc.Double`).
-/

namespace De1Soc

namespace Image

abbrev Text := List Char

/-- How the script ends early: `sys.exit(-1)` with a message, or an exception that
nobody catches. -/
inductive Abort
  | exit (message : String)
  | keyError (key : String)
  | valueError
  | typeError
  | overflowError
deriving DecidableEq, Repr

/-! ## Python's `int` -/

/-- What `int` takes for a digit and for a blank, and how many digits it
converts.  Versions of Unicode and of the interpreter differ there; the ASCII
digits and lengths up to 640 are common to all. -/
structure Python where
  decimal : Char → Option Nat
  space : Char → Bool
  converts : Nat → Bool
  decimal_of_isDigit : ∀ c, c.isDigit = true → decimal c = some (c.toNat - '0'.toNat)
  space_of_isDigit : ∀ c, c.isDigit = true → space c = false
  converts_of_le : ∀ n, n ≤ 640 → converts n = true

namespace Python

variable (py : Python)

/-- Digits, with single underscores between them. -/
def magnitude (s : Text) : Option Nat := do
  let groups := s.splitOn '_'
  if [] ∈ groups then
    none
  else
    let digits ← groups.flatten.mapM py.decimal
    if py.converts digits.length then
      return digits.foldl (fun n d => 10 * n + d) 0
    else
      none

/-- `int(string)`, where `none` is a `ValueError`. -/
def int (string : Text) : Option Int :=
  match (string.dropWhile py.space).rdropWhile py.space with
  | '-' :: s => (py.magnitude s).map fun n => -(n : Int)
  | '+' :: s => (py.magnitude s).map fun n => (n : Int)
  | s => (py.magnitude s).map fun n => (n : Int)

end Python

/-! ## Regular expressions -/

/-- `$`: at the end, or before a newline there. -/
def endsLine : Text → Bool
  | [] | ['\n'] => true
  | _ => false

/-- What `[KMG]` matches with `re.I`; the last is the Kelvin sign. -/
def isUnit (c : Char) : Bool := c ∈ ['K', 'M', 'G', 'k', 'm', 'g', '\u212a']

/-- One character against a lower case one with `re.I`; the long s is an s. -/
def sameLetter (p c : Char) : Bool := c.toLower = p || (p = 's' && c = 'ſ')

/-- The word in any case, and the end of the line. -/
def isWord (s word : Text) : Bool :=
  s.length ≥ word.length && (s.zip word).all (fun (c, p) => sameLetter p c) &&
    endsLine (s.drop word.length)

/-- `[a-zA-Z0-9]+=` -/
def isKeyed (el : Text) : Bool :=
  el.takeWhile Char.isAlphanum ≠ [] && (el.dropWhile Char.isAlphanum).head? = some '='

/-- `ext[2-4]` -/
def isExt : Text → Bool
  | 'e' :: 'x' :: 't' :: d :: _ => d ∈ ['2', '3', '4']
  | _ => false

/-! ## Numbers and formats -/

section Functions

variable (py : Python)

def convertStrToInt (string : Text) : Except Abort Int :=
  match py.int string with
  | some integer => .ok integer
  | none => .error (.exit ("error: " ++ String.ofList string ++ ": not a valid number"))

/-- The bytes of one unit.  `upper` leaves the Kelvin sign, which is no `K`. -/
def factor (unit : Char) : Nat :=
  match unit.toUpper with
  | 'K' => 1024
  | 'M' => 1024 * 1024
  | 'G' => 1024 * 1024 * 1024
  | _ => 1

/-- Digits and a unit, as `^[0-9]+[KMG]?$` takes the text apart. -/
def matchSize (unitSize : Text) : Option (Text × Option Char) :=
  let digits := unitSize.takeWhile Char.isDigit
  let rest := unitSize.dropWhile Char.isDigit
  if digits = [] then none
  else if endsLine rest then some (digits, none)
  else
    match rest with
    | unit :: rest => if isUnit unit && endsLine rest then some (digits, some unit) else none
    | [] => none

def convertSizeFromUnit (unitSize : Text) : Except Abort Nat :=
  match matchSize unitSize with
  | none => .error (.exit ("error: " ++ String.ofList unitSize ++ ": malformed expression"))
  | some (digits, unit) => do
      let size ← convertStrToInt py digits
      return size.toNat * unit.elim 1 factor

def formats : List Text :=
  ["ext2", "ext3", "ext4", "xfs", "fat32", "vfat", "fat", "none", "raw"].map String.toList

def validateFormat (fsFormat : Text) : Bool := formats.any (isWord fsFormat)

/-! ## One `-P` option -/

/-- The dictionary of a partition. -/
structure PartEntry where
  files : List Text := []
  num : Option Int := none
  size : Option Nat := none
  format : Option Text := none
  type : Option Text := none
deriving DecidableEq, Repr

/-- `key=value` -/
def setKey (entry : PartEntry) (key value : Text) : Except Abort PartEntry :=
  if key = "num".toList then do
    let num ← convertStrToInt py value
    return { entry with num := some num }
  else if key = "size".toList then do
    let size ← convertSizeFromUnit py value
    return { entry with size := some size }
  else if key = "format".toList then
    if validateFormat value then .ok { entry with format := some value }
    else .error (.exit ("error: " ++ String.ofList value ++ " unknown format"))
  else if key = "type".toList then .ok { entry with type := some value }
  else .error (.exit ("error: " ++ String.ofList key ++ " : unknown option"))

/-- The body of the loop over the elements. -/
def parseElement (entry : PartEntry) (el : Text) : Except Abort PartEntry :=
  if isKeyed el then
    match el.splitOn '=' with
    | [key, value] => setKey py entry key value
    | _ => .error .valueError
  else
    .ok { entry with files := entry.files ++ [el] }

def parseSinglePartArgs (part : Text) : Except Abort PartEntry :=
  (part.splitOn ',').foldlM (parseElement py) {}

/-! ## All of them -/

def maxPartitions : Nat := 4

/-- The body of the loop over the options. -/
def addPart (entries : List (Int × PartEntry)) (part : Text) :
    Except Abort (List (Int × PartEntry)) := do
  let entry ← parseSinglePartArgs py part
  match entry.num with
  | none => .error (.keyError "num")
  | some num =>
      if num ∈ entries.map Prod.fst then
        .error (.exit ("error:" ++ toString num ++ ": partition already used"))
      else
        .ok (entries ++ [(num, entry)])

/-- The entries by number, in the order of the options; `none` is the command
line without a `-P`. -/
def parseAllPartsArgs : Option (List Text) → Except Abort (List (Int × PartEntry))
  | none => .error .typeError
  | some partArgs =>
      if partArgs.length > maxPartitions then
        .error (.exit ("error: up to " ++ toString maxPartitions ++ " allowed"))
      else
        partArgs.foldlM (addPart py) []

end Functions

/-! ## Types and places -/

def deriveFdiskTypeFromFormat (pformat : Text) : Except Abort Text :=
  -- `^ext[2-4]|xfs$`, and then `^vfat|fat|fat32$`
  if isExt pformat || ("xfs".toList.isPrefixOf pformat && endsLine (pformat.drop 3)) then
    .ok "83".toList
  else if "vfat".toList.isPrefixOf pformat || "fat".toList.isPrefixOf pformat then
    .ok "b".toList
  else
    .error (.exit ("error: " ++ String.ofList pformat ++ " : unknown format"))

def deriveFdiskTypeFromPtype (_ptype : Text) : Except Abort Text :=
  -- the parameter is overwritten before it is read
  let ptype := "".toList
  if "raw".toList.isPrefixOf ptype || ("none".toList.isPrefixOf ptype && endsLine (ptype.drop 4)) then
    .ok "A2".toList
  else if ptype = "swap".toList then
    .ok "84".toList
  else
    .error (.exit ("error: " ++ String.ofList ptype ++ " : unknown type"))

/-- A partition with its place: `start` and `bsize` count blocks of 512 bytes. -/
structure Partition where
  num : Int
  files : List Text
  size : Nat
  format : Option Text
  fdiskType : Text
  start : ℚ
  bsize : ℚ
deriving DecidableEq

/-- The variables of the loop over the entries. -/
structure Placement where
  offset : ℚ := 2048
  totalSize : Nat := 0
  parts : List Partition := []

/-- The type that `fdisk` is given. -/
def fdiskType (part : Int) (entry : PartEntry) : Except Abort Text :=
  match entry.format, entry.type with
  | none, none =>
      .error (.exit ("error: " ++ toString part ++ " : specify at least format or type"))
  | none, some type => deriveFdiskTypeFromPtype type
  | some format, none => deriveFdiskTypeFromFormat format
  | some _, some type => .ok type

/-- The blocks of a partition. -/
def blocks (size : Nat) : ℚ :=
  Double.round (Double.round (size / 512) + if size % 512 ≠ 0 then 1 else 0)

/-- The body of the loop over the entries.  An offset of 2^1024 or more, which takes
an image of 2^1000 bytes or more (`start_lt_of_plan`), is `inf` in the script and
stays a number here. -/
def placePart (st : Placement) (part : Int × PartEntry) : Except Abort Placement :=
  match part.2.size with
  | none => .error (.exit ("error: " ++ toString part.1 ++ " : size must be specified"))
  | some size =>
      if size = 0 then .error (.exit ("error: " ++ toString part.1 ++ " : size is 0"))
      else do
        let type ← fdiskType part.1 part.2
        if 2 ^ 1024 ≤ Double.round ((size : ℚ) / 512) then
          .error .overflowError
        else
          return {
            offset := Double.round (Double.round (st.offset + blocks size) + 1)
            totalSize := st.totalSize + size
            parts := st.parts ++ [{
              num := part.1, files := part.2.files, size := size, format := part.2.format
              fdiskType := type, start := st.offset, bsize := blocks size }] }

def checkAndUpdatePartEntries (partEntries : List (Int × PartEntry)) (imageSize : Nat) :
    Except Abort (List Partition) := do
  let st ← partEntries.foldlM placePart {}
  if st.totalSize > imageSize then
    .error (.exit "error: partitions are too big to fit in image")
  else
    return st.parts

/-- The script up to `create_image`: the size of the image and the partitions. -/
def plan (py : Python) (root : Bool) (partArgs : Option (List Text)) (size : Text) :
    Except Abort (Nat × List Partition) :=
  if root then do
    let partEntries ← parseAllPartsArgs py partArgs
    let imageSize ← convertSizeFromUnit py size
    let parts ← checkAndUpdatePartEntries partEntries imageSize
    return (imageSize, parts)
  else
    .error (.exit "error: only root can do this...")

/-! ## What becomes of the place -/

namespace Partition

/-- The first sector in the partition table. -/
def firstSector (p : Partition) : Int := ⌊p.start⌋

/-- The sectors in the partition table. -/
def sectors (p : Partition) : Int := ⌊p.bsize⌋

/-- The byte of the image at which the partition is formatted and filled. -/
def offsetBytes (p : Partition) : Int := ⌊Double.round (p.start * 512)⌋

end Partition

end Image

end De1Soc
