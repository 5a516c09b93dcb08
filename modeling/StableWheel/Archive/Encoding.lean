import StableWheel.Archive.Member
import StableWheel.Digest.Crc32

/-! The bytes of an archive.

An archive file holds each member behind a local header, then a directory of all members,
then a record that says where the directory starts. Contents are written as deflate streams
of stored blocks, which every reader understands and no writer can get wrong. -/
namespace StableWheel.Archive

/-- A number as so many bytes, least significant first. -/
def littleEndian (width value : Nat) : List UInt8 :=
  (List.range width).map fun i => UInt8.ofNat (value >>> (8 * i))

/-- Numbers one after the other, each with its width. -/
def fields (values : List (Nat × Nat)) : List UInt8 :=
  values.flatMap fun v => littleEndian v.1 v.2

/-! ### Contents -/

/-- The most bytes that one stored block holds. -/
def blockSize : Nat := 65535

/-- One stored block. -/
def storedBlock (last : Bool) (bytes : List UInt8) : List UInt8 :=
  fields [(1, if last then 1 else 0), (2, bytes.length), (2, blockSize - bytes.length)] ++ bytes

/-- So many stored blocks and the last one. -/
def storedBlocks : Nat → List UInt8 → List UInt8
  | 0, bytes => storedBlock true bytes
  | n + 1, bytes =>
    storedBlock false (bytes.take blockSize) ++ storedBlocks n (bytes.drop blockSize)

/-- A stream that unpacks to the given bytes. -/
def stored (content : ByteArray) : List UInt8 :=
  storedBlocks ((content.size - 1) / blockSize) content.toList

/-! ### Headers -/

/-- The date as headers hold it: the years since 1980, then four bits and five bits. -/
def Moment.dateField (t : Moment) : Nat := (t.year - 1980) * 512 + t.month * 32 + t.day

/-- The time of day as headers hold it: hours, six bits, and five bits for every other second. -/
def Moment.timeField (t : Moment) : Nat := t.hour * 2048 + t.minute * 32 + t.second / 2

/-- What local headers and the directory say alike of a member: version, flags, method,
time and date of change, checksum and sizes. Names beyond ASCII are marked as UTF-8. -/
def commonFields (m : Member) (packed : Nat) : List (Nat × Nat) :=
  let flags := if m.name.toList.all fun c => c.toNat < 128 then 0 else 2048
  [ (2, 20), (2, flags), (2, 8), (2, Moment.earliest.timeField), (2, Moment.earliest.dateField),
    (4, (Digest.Crc32.checksum m.content).toNat), (4, packed), (4, m.content.size),
    (2, m.name.utf8ByteSize), (2, 0) ]

/-- A member behind its local header. -/
def localRecord (m : Member) : List UInt8 :=
  let data := stored m.content
  fields ((4, 0x04034b50) :: commonFields m data.length) ++ m.name.toUTF8.toList ++ data

/-- A member's entry in the directory. -/
def directoryEntry (m : Member) (offset : Nat) : List UInt8 :=
  fields ((4, 0x02014b50) :: (2, 3 * 256 + 20) :: commonFields m (stored m.content).length)
    ++ fields [(2, 0), (2, 0), (2, 0), (4, m.permissions * 65536), (4, offset)]
    ++ m.name.toUTF8.toList

/-- The directory of members whose first one starts at an offset. -/
def directory : Nat → List Member → List UInt8
  | _, [] => []
  | offset, m :: rest =>
    directoryEntry m offset ++ directory (offset + (localRecord m).length) rest

/-- The bytes of an archive. -/
def encode (members : List Member) : ByteArray :=
  let files := members.flatMap localRecord
  let entries := directory 0 members
  let tail := fields [ (4, 0x06054b50), (2, 0), (2, 0), (2, members.length), (2, members.length),
    (4, entries.length), (4, files.length), (2, 0) ]
  ⟨(files ++ entries ++ tail).toArray⟩

/-! ### What headers say of the change -/

/-- The moment that the two fields of a header stand for. -/
def Moment.ofFields (time date : Nat) : Moment :=
  ⟨1980 + date / 512, date / 32 % 16, date % 32, time / 2048, time / 32 % 64, 2 * (time % 32)⟩

/-- A moment that two fields can tell: not before 1980, and at an even second. -/
structure Moment.Fits (t : Moment) : Prop where
  year : 1980 ≤ t.year
  month : t.month < 16
  day : t.day < 32
  minute : t.minute < 64
  second : t.second < 64
  even : t.second % 2 = 0

theorem Moment.ofFields_fields {t : Moment} (h : t.Fits) :
    ofFields t.timeField t.dateField = t := by
  obtain ⟨hyear, hmonth, hday, hminute, hsecond, heven⟩ := h
  obtain ⟨year, month, day, hour, minute, second⟩ := t
  simp only [ofFields, timeField, dateField, mk.injEq] at *
  omega

/-- Whatever a member holds, its headers say that it was changed at the same moment. -/
theorem commonFields_changed (m : Member) (packed : Nat) :
    ∃ time date, (commonFields m packed)[3]? = some (2, time) ∧
      (commonFields m packed)[4]? = some (2, date) ∧
      (Moment.ofFields time date).text = timestamp :=
  ⟨_, _, rfl, rfl, congrArg Moment.text (Moment.ofFields_fields
    ⟨by decide, by decide, by decide, by decide, by decide, by decide⟩)⟩

end StableWheel.Archive
