import Mathlib.Algebra.Order.Ring.Int
import Mathlib.Data.Char
import Mathlib.Data.List.Lex
import Mathlib.Data.Prod.Lex
import Openlia.Lib.Newest
import Openlia.Lib.Separators

/-! # Archives of other hosts

After an archive was uploaded, those before the retention are removed. A bucket lists the keys
below a prefix; another host prints what it finds in a directory, one name on a line.
-/

namespace Openlia.Backup.Remote

open Lib

abbrev Name := List Char

/-! ## Timestamps -/

/-- Nanoseconds. -/
def second : Int := 10 ^ 9

def hour : Int := 3600 * second

def leap (year : Nat) : Bool := year % 4 = 0 && (year % 100 ≠ 0 || year % 400 = 0)

def monthDays (year : Nat) : List Nat :=
  [31, if leap year then 29 else 28, 31, 30, 31, 30, 31, 31, 30, 31, 30, 31]

/-- Days from 1 January of year 1. -/
def daysTo (year month day : Nat) : Int :=
  let before : Int := year - 1
  365 * before + before / 4 - before / 100 + before / 400 +
    ((monthDays year).take (month - 1)).sum + (day - 1)

def digits (s : List Char) : Option Nat :=
  if s.all Char.isDigit then some (Nat.ofDigitChars 10 s 0) else none

/-- `time.Parse("20060102T150405Z", s)` for a text of its length, from the zero time on. -/
def parseStamp (s : List Char) : Option Int := do
  let year ← digits (s.take 4)
  let month ← digits ((s.drop 4).take 2)
  let day ← digits ((s.drop 6).take 2)
  let hours ← digits ((s.drop 9).take 2)
  let minutes ← digits ((s.drop 11).take 2)
  let seconds ← digits ((s.drop 13).take 2)
  if s[8]? = some 'T' ∧ s[15]? = some 'Z' ∧ 1 ≤ month ∧ month ≤ 12 ∧ 1 ≤ day ∧
      day ≤ (monthDays year).getD (month - 1) 0 ∧ hours < 24 ∧ minutes < 60 ∧ seconds < 60 then
    some (daysTo year month day * (24 * hour) + hours * hour + (60 * minutes + seconds) * second)
  else none

def trimPrefix (start name : Name) : Name :=
  if start.isPrefixOf name then name.drop start.length else name

def backupTimestamp (name : Name) : Option Int :=
  let rest := trimPrefix "openlia-".toList name
  if rest.length < 16 then none else parseStamp (rest.take 16)

def backupObjectTime (name : Name) (fallback : Int) : Int := (backupTimestamp name).getD fallback

/-- `(1<<63 - 1) / int64(24*time.Hour)` -/
def maxBackupRemoteRetentionDays : Int := (2 ^ 63 - 1) / (24 * hour)

/-- What is before this time is expired. -/
def cutoff (now retentionDays : Int) : Int :=
  let days := if retentionDays ≤ 0 then 30 else retentionDays
  now - min days maxBackupRemoteRetentionDays * 24 * hour

/-- The zero time is none. -/
def expiredAt (limit created : Int) : Bool := created ≠ 0 && created < limit

def backupExpired (name : Name) (fallback now retentionDays : Int) : Bool :=
  expiredAt (cutoff now retentionDays) (backupObjectTime name fallback)

/-! ## The destination -/

/-- An object below the prefix, or a file below the directory. -/
structure RemoteObject where
  key : Name
  lastModified : Int

structure Destination where
  objects : List RemoteObject
  distinct : (objects.map (·.key)).Nodup

def metadataOf (name : Name) : Name := name ++ ".json".toList

namespace Destination

def keys (D : Destination) : List Name := D.objects.map (·.key)

def without (D : Destination) (keys : List Name) : Destination :=
  ⟨D.objects.filter fun o => !keys.contains o.key,
    D.distinct.sublist (List.filter_sublist.map _)⟩

def isDirectory (D : Destination) (name : Name) : Bool :=
  D.keys.any fun key => (name ++ ['/']).isPrefixOf key

end Destination

/-- `filepath.Base` -/
def base (key : Name) : Name := (key.reverse.takeWhile (· ≠ '/')).reverse

def hasArchiveName (name : Name) : Bool :=
  "openlia-".toList.isPrefixOf name && ".tar.gz.age".toList.isSuffixOf name

/-- The later time, and the greater text of one time. -/
def rank (time : Name → Int) (x : Name) : ℤ ×ₗ Name := toLex (time x, x)

/-- The expired ones but the first. -/
def targets (time : Name → Int) (limit : Int) (items : List Name) : List Name :=
  (newestFirst (rank time) items).tail.filter fun x => expiredAt limit (time x)

/-! ## A bucket -/

section S3

variable (D : Destination)

def s3Objects : List Name :=
  (D.objects.filter fun o =>
    "openlia-".toList.isPrefixOf (base o.key) && ".tar.gz.age".toList.isSuffixOf o.key).map (·.key)

def lastModified (key : Name) : Int :=
  ((D.objects.find? fun o => o.key = key).map (·.lastModified)).getD 0

def s3Time (key : Name) : Int := backupObjectTime (base key) (lastModified D key)

def pruneS3BackupsAt (retentionDays now : Int) : Destination :=
  (targets (s3Time D) (cutoff now retentionDays) (s3Objects D)).foldl
    (fun D key => D.without [key, metadataOf key]) D

end S3

/-! ## Another host -/

/-- `unicode.IsSpace` -/
def isSpace (c : Char) : Bool :=
  (9 ≤ c.toNat && c.toNat ≤ 13) || c.toNat = 32 || c.toNat = 0x85 || c.toNat = 0xA0 ||
    c.toNat = 0x1680 || (0x2000 ≤ c.toNat && c.toNat ≤ 0x200A) || c.toNat = 0x2028 ||
    c.toNat = 0x2029 || c.toNat = 0x202F || c.toNat = 0x205F || c.toNat = 0x3000

def trimSpace (s : Name) : Name := ((s.dropWhile isSpace).reverse.dropWhile isSpace).reverse

/-- The lines of `find`: the file's name without its directories, which may itself have lines. -/
def rsyncLines (D : Destination) : List Name :=
  ((D.keys.map base).filter hasArchiveName).flatMap fun name => name.splitOn '\n'

def rsyncItems (D : Destination) : List Name :=
  ((rsyncLines D).map trimSpace).filter hasArchiveName

def rsyncTime (name : Name) : Int := backupObjectTime name 0

/-- `rm -f`, which fails for a directory. -/
def rm (D : Destination) (name : Name) : Option Destination :=
  if D.isDirectory name then none else some (D.without [name])

/-- None for an error. -/
def pruneRsyncBackupsAt (D : Destination) (retentionDays now : Int) : Option Destination :=
  (targets rsyncTime (cutoff now retentionDays) (rsyncItems D)).foldlM
    (fun D item => do rm (← rm D item) (metadataOf item)) D

end Openlia.Backup.Remote
