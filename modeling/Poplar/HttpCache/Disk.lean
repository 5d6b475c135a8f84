import Poplar.HttpCache.UrlFilename

/-!
# The files of the cache: apps/pop_httpcache.c

The code is over the calls it makes of the system. Strings are lists of bytes without
their NUL.
-/
namespace Poplar.HttpCache

open Http (ascii slash point)

def CACHE_DISK_STORE_SIZE_MAX : Nat := 1024 * 8

inductive Errno where
  | EINTR
  | ENOENT
  | EEXIST
  | other
  deriving DecidableEq, Repr

/-- The calls. `openFile` is `open` for reading and writing; where it creates the file, there
must be none. `readFile` is `fopen`, `fread` of at most a number of bytes, and `fclose`. -/
structure Disk (σ : Type) where
  openFile : List UInt8 → Bool → σ → Except Errno Nat × σ
  mkdir : List UInt8 → σ → Except Errno Unit × σ
  write : Nat → List UInt8 → σ → Except Errno Nat × σ
  close : Nat → σ → σ
  access : List UInt8 → σ → Bool
  readFile : List UInt8 → Nat → σ → Option (List UInt8)

section Code

variable {σ : Type} (disk : Disk σ)

/-! ## Creating a file -/

/-- `while(name[n] != '/' && name[n] != '\0' && n < 512) n++` -/
def scanComponent (name : List UInt8) : Nat → Nat → Nat
  | 0, n => n
  | fuel + 1, n =>
    if name.getD n 0 ≠ slash ∧ name.getD n 0 ≠ 0 ∧ n < 512 then scanComponent name fuel (n + 1)
    else n

/-- The loop that makes the directories, with at most `fuel` turns left; it tells whether all
are there. -/
def makeDirectories (name : List UInt8) : Nat → Nat → σ → Except Fault (Bool × σ)
  | 0, _, _ => .error .diverge
  | fuel + 1, n, s =>
    if name.getD n 0 ≠ 0 ∧ n < 1024 then
      let n := scanComponent name 512 n
      if name.getD n 0 ≠ slash ∨ n ≥ 1024 then .ok (true, s)
      -- `buf[n + 1] = '\0'` of the 1024 bytes
      else if n + 1 ≥ 1024 then .error .outOfObject
      else
        match disk.mkdir (name.take (n + 1)) s with
        | (.error errno, s) =>
          if errno ≠ .EEXIST then .ok (false, s) else makeDirectories name fuel (n + 1) s
        | (.ok _, s) => makeDirectories name fuel (n + 1) s
    else .ok (true, s)

def createFile (name : List UInt8) (path_start : Nat) (s : σ) : Except Fault (Option Nat × σ) :=
  let path_start := if name.getD path_start 0 = slash then path_start + 1 else path_start
  if path_start < 2 ∨ name.getD (path_start - 1) 0 ≠ slash then .ok (none, s)
  else
    match disk.openFile name true s with
    | (.ok fd, s) => .ok (some fd, s)
    | (.error errno, s) =>
      if errno ≠ .ENOENT then .ok (none, s)
      else do
        -- each turn takes a byte of at most 1024
        let (made, s) ← makeDirectories disk name 1025 path_start s
        if made then
          match disk.openFile name true s with
          | (.ok fd, s) => return (some fd, s)
          | (.error _, s) => return (none, s)
        else return (none, s)

/-! ## Storing and getting -/

/-- `rc < data_len`, for which `rc` becomes unsigned -/
def shortWrite (rc : Int) (data_len : Nat) : Bool := decide ((rc % 2 ^ 32).toNat < data_len)

/-- `write`, again while it is interrupted; at most `tries` times. -/
def writeAgain (data : List UInt8) (fd : Nat) : Nat → σ → Except Fault (Int × σ)
  | 0, _ => .error .diverge
  | tries + 1, s =>
    match disk.write fd data s with
    | (.ok count, s) => .ok (count, s)
    | (.error errno, s) =>
      if errno = .EINTR then writeAgain data fd tries s else .ok (-1, s)

/-- What `CacheDiskStore` does with an open file. -/
def storeOpened (tries : Nat) (data : List UInt8) (fd : Nat) (s : σ) : Except Fault (Int × σ) := do
  let (rc, s) ← writeAgain disk data fd tries s
  if shortWrite rc data.length then return (-1, disk.close fd s)
  else return (0, disk.close fd s)

variable (root : CacheRoot) (stat : Stat) (md5 : List UInt8 → Digest)

/-- `char buf[1024]`; what it holds at first is not read. -/
def nameBuffer : List UInt8 := List.replicate 1024 0

def cacheDiskStore (tries : Nat) (URI data : List UInt8) (s : σ) : Except Fault (Int × σ) :=
  if data.length ≥ CACHE_DISK_STORE_SIZE_MAX then .ok (-1, s)
  else do
    let some (buf, name_len) ← urlFilename root stat md5 nameBuffer 1024 URI | return (-1, s)
    if name_len ≤ 0 then return (-1, s)
    else
      match disk.openFile (cString buf) false s with
      | (.ok fd, s) => storeOpened disk tries data fd s
      | (.error _, s) =>
        let (fd, s) ← createFile disk (cString buf) root.length s
        match fd with
        | none => return (-1, s)
        | some fd => storeOpened disk tries data fd s

/-- `-1`, unsigned -/
def notCached : Nat := 2 ^ 32 - 1

/-- The length told and the buffer of the caller. -/
def cacheDiskGet (URI : List UInt8) (buflen : Nat) (s : σ) : Except Fault (Nat × List UInt8) := do
  let out_buf := List.replicate buflen 0
  let some (buf, _) ← urlFilename root stat md5 nameBuffer 1024 URI | return (notCached, out_buf)
  if ¬ disk.access (cString buf) s then return (notCached, out_buf)
  else
    match disk.readFile (cString buf) buflen s with
    | none => return (notCached, out_buf)
    | some bytes =>
      let out_buf := Bytes.overwrite out_buf 0 bytes
      let cache_buffer_size ← strlen out_buf 0
      return (cache_buffer_size % 2 ^ 32, out_buf)

end Code

end Poplar.HttpCache
