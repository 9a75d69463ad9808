import Adbd.HandlePacket
import Adbd.Wire

/-!
# The File Sync Service

`file_sync_service.c`: a thread that reads requests (`STAT`, `LIST`, `SEND`, `RECV`, `QUIT`)
from one pipe and writes replies to another, with the files of the device in between.

The reads of the request pipe are those of `Wire`: a list of calls, each of which may be
short. The writes to the reply pipe succeed. The file system is a parameter: a type of
states and what each call does to it, so that every outcome of every call is one of some
`FileSystem`. What `readdir` and `read` return for an open directory or file up to its end
is given when it is opened. A header is two words, the least significant byte first, on
machines of either byte order.

## Main definitions

* `FileSystem`: the calls the service makes.
* `SyncReply`: the messages it sends; `SyncState`: its state.
* `mkdirs`, `doStat`, `doList`, `handleSendFile`, `handleSendLink`, `doSend`, `doRecv`: the
  requests.
* `serve`, `fileSyncService`: one request; the loop.
-/

namespace Adbd

open CString

/-- The values of `errno` the service tells apart. -/
inductive Errno
  | enoent
  | eexist
  | other (n : Nat)
deriving DecidableEq, Repr

abbrev Path := List UInt8

/-- The fields of `struct stat` that are sent. -/
structure FileStat where
  mode : UInt32 := 0
  size : UInt32 := 0
  mtime : UInt32 := 0
deriving DecidableEq, Repr

/-- How a `read` of a file ends: with bytes, of which there are none at the end of the file, or
with an error. -/
inductive ReadResult
  | data (bs : List UInt8)
  | eintr
  | error (e : Errno)
deriving DecidableEq, Repr

/-- The calls of the service on the file system, and the texts of `strerror`. -/
structure FileSystem (σ : Type) where
  lstat : σ → Path → Option FileStat × σ
  /-- `opendir`, with the names `readdir` will give -/
  opendir : σ → Path → Option (List (List UInt8)) × σ
  /-- `open` with `O_WRONLY | O_CREAT | O_EXCL` -/
  openNew : σ → Path → UInt32 → Except Errno Nat × σ
  /-- `open` with `O_WRONLY` -/
  openOld : σ → Path → Except Errno Nat × σ
  /-- `open` with `O_RDONLY`, with the results of the reads up to the end of the file -/
  openRead : σ → Path → Except Errno (List ReadResult) × σ
  /-- how the calls of `write` for some bytes will end, and `errno` if they fail -/
  writeCalls : σ → Nat → List UInt8 → (List Call × Errno) × σ
  /-- the effect of the bytes `write` accepted -/
  store : σ → Nat → List UInt8 → σ
  close : σ → Nat → σ
  unlink : σ → Path → σ
  mkdir : σ → Path → Option Errno × σ
  symlink : σ → Path → Path → Option Errno × σ
  utime : σ → Path → UInt32 → σ
  strerror : Errno → List UInt8

/-! ### Messages -/

def ID_STAT : UInt32 := loadWord .little (ascii ['S', 'T', 'A', 'T'])
def ID_LIST : UInt32 := loadWord .little (ascii ['L', 'I', 'S', 'T'])
def ID_SEND : UInt32 := loadWord .little (ascii ['S', 'E', 'N', 'D'])
def ID_RECV : UInt32 := loadWord .little (ascii ['R', 'E', 'C', 'V'])
def ID_DONE : UInt32 := loadWord .little (ascii ['D', 'O', 'N', 'E'])
def ID_DATA : UInt32 := loadWord .little (ascii ['D', 'A', 'T', 'A'])
def ID_QUIT : UInt32 := loadWord .little (ascii ['Q', 'U', 'I', 'T'])

def SYNC_DATA_MAX : Nat := 64 * 1024

/-- The messages of the service: `msg.stat`; `msg.dent` with the name, and the one that ends a
listing; `msg.data` with its payload, and the one that ends a file; `FAIL` with its text;
and `OKAY`. -/
inductive SyncReply
  | stat (st : FileStat)
  | dent (st : FileStat) (name : List UInt8)
  | dentDone
  | data (bs : List UInt8)
  | done
  | fail (reason : List UInt8)
  | okay
deriving DecidableEq, Repr

/-- The service: what is left to read, how the next reads will end, the contents of `buffer`,
the files, and what was sent. -/
structure SyncState (σ : Type) where
  input : List UInt8
  calls : List Call := []
  buffer : List UInt8 := []
  files : σ
  out : List SyncReply := []

variable {σ : Type}

namespace SyncState

/-- `readx` on the request pipe. Nothing more is read after a failure. -/
def read (s : SyncState σ) (n : Nat) : Option (List UInt8 × SyncState σ) :=
  match readx s.calls n s.input with
  | .got bs rest left => some (bs, { s with input := rest, calls := left })
  | .failed | .hangs => none

/-- `writex` of a message on the reply pipe. -/
def send (s : SyncState σ) (r : SyncReply) : SyncState σ := { s with out := s.out ++ [r] }

/-- `fail_message`. -/
def failMessage (s : SyncState σ) (reason : List UInt8) : SyncState σ := s.send (.fail reason)

/-- The bytes read over those at the start of `buffer`. -/
def fill (s : SyncState σ) (bs : List UInt8) : SyncState σ :=
  { s with buffer := bs ++ s.buffer.drop bs.length }

end SyncState

/-- The two words of a header. -/
def headerId (hdr : List UInt8) : UInt32 := loadWord .little hdr

def headerSize (hdr : List UInt8) : UInt32 := loadWord .little (hdr.drop 4)

variable (fs : FileSystem σ)

/-- `fail_errno`. -/
def failErrno (s : SyncState σ) (e : Errno) : SyncState σ := s.failMessage (fs.strerror e)

/-! ### Requests -/

/-- The loop of `mkdirs` over the prefixes that end before a slash. -/
def mkdirsLoop : List Path → σ → σ
  | [], files => files
  | d :: ds, files =>
      match fs.mkdir files d with
      | (none, files) => mkdirsLoop ds files
      | (some .eexist, files) => mkdirsLoop ds files
      | (some _, files) => files

/-- `mkdirs`. Its result is not looked at. -/
def mkdirs (path : Path) (files : σ) : σ :=
  if path.head? ≠ some 47 then files
  else
    mkdirsLoop fs
      (((List.range path.length).filter fun k => 1 ≤ k ∧ path.getD k 0 = 47).map path.take)
      files

/-- `do_stat`. -/
def doStat (s : SyncState σ) (path : Path) : Bool × SyncState σ :=
  let r := fs.lstat s.files path
  (true, { s with files := r.2 }.send (.stat (r.1.getD {})))

/-- One entry of `do_list`. Names that do not fit `tmp` are skipped. -/
def listEntry (path : Path) (s : SyncState σ) (name : List UInt8) : SyncState σ :=
  if 256 ≤ name.length then s
  else
    let r := fs.lstat s.files (path ++ 47 :: name)
    let s := { s with files := r.2 }
    match r.1 with
    | none => s
    | some st => s.send (.dent st name)

/-- `do_list`. -/
def doList (s : SyncState σ) (path : Path) : Bool × SyncState σ :=
  let r := fs.opendir s.files path
  let s := { s with files := r.2 }
  let s := (r.1.getD []).foldl (listEntry fs path) s
  (true, s.send .dentDone)

/-- The three calls of `open` in `handle_send_file`. -/
def openTarget (files : σ) (path : Path) (mode : UInt32) : Except Errno Nat × σ :=
  let r :=
    match fs.openNew files path mode with
    | (.error .enoent, files) => fs.openNew (mkdirs fs path files) path mode
    | r => r
  match r with
  | (.error .eexist, files) => fs.openOld files path
  | r => r

/-- `writex` on a file: what was accepted is stored, and the error if not all was. -/
def writeFile (files : σ) (fd : Nat) (bs : List UInt8) : Option Errno × σ :=
  let r := fs.writeCalls files fd bs
  let put := writex r.1.1 bs
  (if put.ok then none else some r.1.2, fs.store r.2 fd put.bytes)

/-- What `handle_send_file` does with the contents of a message: nothing after an error, and
after one here the file is removed. -/
def storeChunk (path : Path) (fd : Option Nat) (s : SyncState σ) (bs : List UInt8) :
    Option Nat × SyncState σ :=
  match fd with
  | none => (none, s)
  | some d =>
      match writeFile fs s.files d bs with
      | (none, files) => (some d, { s with files := files })
      | (some e, files) =>
          (none, failErrno fs { s with files := fs.unlink (fs.close files d) path } e)

/-- How the loop of `handle_send_file` ends: at `DONE`, with the time of the file, or at
`fail`; and whether the file is still open. -/
inductive SendEnd
  | done (fd : Option Nat) (timestamp : UInt32)
  | failed (fd : Option Nat)
deriving DecidableEq, Repr

/-- The loop of `handle_send_file`. After an error the messages are still read. Every turn
reads a header, so the length of the input bounds their number. -/
def sendFileLoop (path : Path) : Nat → Option Nat → SyncState σ → SendEnd × SyncState σ
  | 0, fd, s => (.failed fd, s)
  | n + 1, fd, s =>
      match s.read 8 with
      | none => (.failed fd, s)
      | some (hdr, s) =>
          if headerId hdr ≠ ID_DATA then
            if headerId hdr = ID_DONE then (.done fd (headerSize hdr), s)
            else (.failed fd, s.failMessage (ascii "invalid data message".toList))
          else if SYNC_DATA_MAX < (headerSize hdr).toNat then
            (.failed fd, s.failMessage (ascii "oversize data message".toList))
          else
            match s.read (headerSize hdr).toNat with
            | none => (.failed fd, s)
            | some (bs, s) =>
                let r := storeChunk fs path fd (s.fill bs) bs
                sendFileLoop path n r.1 r.2

/-- `handle_send_file`. -/
def handleSendFile (s : SyncState σ) (path : Path) (mode : UInt32) : Bool × SyncState σ :=
  let r :=
    match openTarget fs s.files path mode with
    | (.ok fd, files) => sendFileLoop fs path (s.input.length + 1) (some fd)
        { s with files := files }
    | (.error e, files) =>
        sendFileLoop fs path (s.input.length + 1) none
          (failErrno fs { s with files := files } e)
  match r with
  | (.done (some fd) timestamp, s) =>
      (true, { s with files := fs.utime (fs.close s.files fd) path timestamp }.send .okay)
  | (.done none _, s) => (true, s)
  | (.failed (some fd), s) => (false, { s with files := fs.unlink (fs.close s.files fd) path })
  | (.failed none, s) => (false, { s with files := fs.unlink s.files path })

/-- The calls of `symlink` in `handle_send_link`. -/
def makeLink (files : σ) (target path : Path) : Option Errno × σ :=
  match fs.symlink files target path with
  | (some .enoent, files) => fs.symlink (mkdirs fs path files) target path
  | r => r

/-- `handle_send_link`. The target is the string in `buffer`. -/
def handleSendLink (s : SyncState σ) (path : Path) : Bool × SyncState σ :=
  match s.read 8 with
  | none => (false, s)
  | some (hdr, s) =>
      if headerId hdr ≠ ID_DATA then
        (false, s.failMessage (ascii "invalid data message: expected ID_DATA".toList))
      else if SYNC_DATA_MAX < (headerSize hdr).toNat then
        (false, s.failMessage (ascii "oversize data message".toList))
      else
        match s.read (headerSize hdr).toNat with
        | none => (false, s)
        | some (bs, s) =>
            let s := s.fill bs
            match makeLink fs s.files (cstr s.buffer) path with
            | (some e, files) => (false, failErrno fs { s with files := files } e)
            | (none, files) =>
                match { s with files := files }.read 8 with
                | none => (false, { s with files := files })
                | some (hdr, s) =>
                    if headerId hdr = ID_DONE then (true, s.send .okay)
                    else
                      (false, s.failMessage
                        (ascii "invalid data message: expected ID_DONE".toList))

/-! ### The mode of a pushed file -/

/-- The value of a digit, in a base up to 16. -/
def digitValue (b : UInt8) : Nat :=
  if 48 ≤ b ∧ b ≤ 57 then b.toNat - 48
  else if 97 ≤ b ∧ b ≤ 102 then b.toNat - 87
  else if 65 ≤ b ∧ b ≤ 70 then b.toNat - 55
  else 16

/-- The number at the start of a text, in a base. -/
def digits (base : Nat) (bs : List UInt8) : Nat :=
  (bs.takeWhile fun b => digitValue b < base).foldl (fun n b => base * n + digitValue b) 0

/-- The number at the start of a text, with the base its start tells. -/
def unsignedNumber : List UInt8 → Nat
  | 48 :: 120 :: bs => digits 16 bs
  | 48 :: 88 :: bs => digits 16 bs
  | 48 :: bs => digits 8 bs
  | bs => digits 10 bs

/-- `strtoul` with base `0`, for an `unsigned long` of 32 bits: the value, and whether it was
out of range. -/
def strtoul (bs : List UInt8) : UInt32 × Bool :=
  let bs := bs.dropWhile fun b => b = 32 ∨ 9 ≤ b ∧ b ≤ 13
  let n := unsignedNumber (if bs.head? = some 43 ∨ bs.head? = some 45 then bs.tail else bs)
  if 2 ^ 32 ≤ n then (0xFFFFFFFF, true)
  else (if bs.head? = some 45 then 0 - UInt32.ofNat n else UInt32.ofNat n, false)

/-- `S_ISLNK`. -/
def sIsLnk (mode : UInt32) : Bool := mode &&& 0xF000 == 0xA000

/-- The text before and behind the last comma. -/
def splitLastComma (bs : List UInt8) : Option (Path × List UInt8) :=
  let text := (bs.reverse.takeWhile (· ≠ 44)).reverse
  if text.length = bs.length then none else some (bs.take (bs.length - text.length - 1), text)

/-- What `do_send` takes from the name of a request: the path, the mode, and whether a symbolic
link is sent. -/
def sendTarget (name : Path) : Path × UInt32 × Bool :=
  match splitLastComma name with
  | none => (name, 0x1A4, false)
  | some (path, text) =>
      let r := strtoul text
      if r.2 then (path, 0x1A4, false) else (path, r.1 &&& 0x1FF, sIsLnk r.1)

/-- The permissions of the user for the group and others. -/
def copyUserBits (mode : UInt32) : UInt32 :=
  let mode := mode ||| ((mode >>> 3) &&& 0x38)
  mode ||| ((mode >>> 3) &&& 0x7)

/-- `do_send`. -/
def doSend (s : SyncState σ) (name : Path) : Bool × SyncState σ :=
  let target := sendTarget name
  let s := { s with files := fs.unlink s.files target.1 }
  if target.2.2 then handleSendLink fs s target.1
  else handleSendFile fs s target.1 (copyUserBits target.2.1)

/-- The loop of `do_recv`, on the results of the reads. -/
def recvLoop (s : SyncState σ) : List ReadResult → SyncState σ
  | [] => s.send .done
  | .eintr :: rs => recvLoop s rs
  | .error e :: _ => failErrno fs s e
  | .data bs :: rs =>
      if bs = [] then s.send .done else recvLoop ((s.fill bs).send (.data bs)) rs

/-- `do_recv`. -/
def doRecv (s : SyncState σ) (path : Path) : Bool × SyncState σ :=
  match fs.openRead s.files path with
  | (.error e, files) => (true, failErrno fs { s with files := files } e)
  | (.ok rs, files) => (true, recvLoop fs { s with files := files } rs)

/-- One turn of the loop of `file_sync_service`: whether there is another one. -/
def serve (s : SyncState σ) : Bool × SyncState σ :=
  match s.read 8 with
  | none => (false, s.failMessage (ascii "command read failure".toList))
  | some (hdr, s) =>
      if 1024 < (headerSize hdr).toNat then
        (false, s.failMessage (ascii "invalid namelen".toList))
      else
        match s.read (headerSize hdr).toNat with
        | none => (false, s.failMessage (ascii "filename read failure".toList))
        | some (name, s) =>
            if headerId hdr = ID_STAT then doStat fs s (cstr name)
            else if headerId hdr = ID_LIST then doList fs s (cstr name)
            else if headerId hdr = ID_SEND then doSend fs s (cstr name)
            else if headerId hdr = ID_RECV then doRecv fs s (cstr name)
            else if headerId hdr = ID_QUIT then (false, s)
            else (false, s.failMessage (ascii "unknown command".toList))

/-- `file_sync_service`, for at most `n` turns. -/
def fileSyncService : Nat → SyncState σ → Option (SyncState σ)
  | 0, _ => none
  | n + 1, s =>
      match serve fs s with
      | (true, s) => fileSyncService n s
      | (false, s) => some s

end Adbd
