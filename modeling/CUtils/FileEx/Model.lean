import Mathlib.Data.List.Basic

/-!
# Loading files

The loaders of `file_ex.cpp` over three interfaces: a stream (`ifstream`), a descriptor and the
character loop of `stdio`. A file is its bytes and whether it can be sought in; it does not change
while it is read. What the system knows is a `System`: which path opens which file, what the links
under `/proc/self/fd` say, and how many bytes a call of `read` transfers.

A result is what is returned and the output argument afterwards.
-/

namespace CUtils.FileEx

/-- `MAX_FILE_LENGTH`, 32M. -/
def maxFileLength : Int := 33554432

/-- `PATH_MAX`. -/
def pathMax : Nat := 4096

structure File where
  bytes : List UInt8
  /-- Seeking to the end works; it fails on a file node. -/
  seekable : Bool

structure System where
  /-- The file a path opens for reading. -/
  opens : String → Option File
  /-- The file behind a descriptor. -/
  behind : Int → File
  /-- The link of a descriptor under `/proc/self/fd`. -/
  readlink : Int → Option String
  realpath : String → Option String
  /-- `access(path, F_OK)` succeeds. -/
  access : String → Bool
  /-- How many bytes `read` transfers when `n` are there. -/
  transfer : Nat → Nat

/-! ## Streams -/

/-- An open `ifstream`. The position is that of its buffer, which iterators read from whatever the
state of the stream. -/
structure Ifstream where
  file : File
  pos : Nat := 0
  fail : Bool := false

namespace Ifstream

def seekgEnd (s : Ifstream) : Ifstream :=
  if s.fail then s
  else if s.file.seekable then { s with pos := s.file.bytes.length }
  else { s with fail := true }

def seekgBeg (s : Ifstream) : Ifstream :=
  if s.fail then s
  else if s.file.seekable then { s with pos := 0 }
  else { s with fail := true }

def tellg (s : Ifstream) : Int := if s.fail then -1 else s.pos

/-- What `istreambuf_iterator` runs through. -/
def rest (s : Ifstream) : List UInt8 := s.file.bytes.drop s.pos

/-- What `read` stores, of at most `n` bytes. -/
def read (s : Ifstream) (n : Nat) : List UInt8 := if s.fail then [] else s.rest.take n

end Ifstream

/-! ## Output arguments -/

/-- `resize` of a string or a vector of characters. -/
def resize (content : List UInt8) (n : Nat) : List UInt8 :=
  content.take n ++ List.replicate (n - content.length) 0

/-- Store `bs` over the beginning. -/
def store (content bs : List UInt8) : List UInt8 := bs ++ content.drop bs.length

variable (sys : System)

def loadStringFromFile (filePath : String) (content : List UInt8) : Bool × List UInt8 :=
  match sys.opens filePath with
  | none => (false, content)
  | some f =>
      let file := Ifstream.seekgEnd { file := f }
      let fileLength := file.tellg
      if fileLength > maxFileLength then (false, content)
      else (true, [] ++ file.seekgBeg.rest)

/-- The empty string, here `none`, when there is no name. -/
def getFileNameByFd (fd : Int) : Option String :=
  if fd ≤ 0 then none else sys.readlink fd

def loadStringFromFdToFile (fd : Int) (content : List UInt8) : Bool × List UInt8 :=
  match getFileNameByFd sys fd with
  | none => (false, content)
  | some fileName => loadStringFromFile sys fileName content

/-- `lseek(fd, 0, SEEK_END)`. -/
def lseekEnd (f : File) : Int := if f.seekable then f.bytes.length else -1

def loadStringFromFd (fd : Int) (content : List UInt8) : Bool × List UInt8 :=
  if fd ≤ 0 then (false, content)
  else
    let f := sys.behind fd
    let fileLength := lseekEnd f
    if fileLength > maxFileLength then (false, content)
    -- lseek is not support the linux file node
    else if fileLength < 0 then loadStringFromFdToFile sys fd content
    else if fileLength = 0 then (true, content)
    else
      let content := resize content fileLength.toNat
      -- the position is at the beginning again
      let data := (f.bytes.take fileLength.toNat).take (sys.transfer fileLength.toNat)
      (data.length = fileLength.toNat, store content data)

/-- `PathToRealPath`. -/
def pathToRealPath (path : String) : Option String :=
  if path.isEmpty then none
  else if path.length ≥ pathMax then none
  else
    match sys.realpath path with
    | none => none
    | some realPath => if sys.access realPath then some realPath else none

/-- The loop over `fgetc`: the bytes still to come, the first of them already in `ch`. -/
def nodeLoop : List UInt8 → Int → List UInt8 → Bool × List UInt8
  | [], _, content => (true, content)
  | ch :: chs, byteCount, content =>
      if byteCount > maxFileLength then (false, [])
      else nodeLoop chs (byteCount + 1) (content ++ [ch])

def loadBufferFromNodeFile (filePath : String) (content : List UInt8) : Bool × List UInt8 :=
  match pathToRealPath sys filePath with
  | none => (false, content)
  | some realPath =>
      match sys.opens realPath with
      | none => (false, content)
      | some f => nodeLoop f.bytes 1 content

/-- load file to buffer. If the buffer is not empty,then overwrite -/
def loadBufferFromFile (filePath : String) (content : List UInt8) : Bool × List UInt8 :=
  match sys.opens filePath with
  | none => (false, content)
  | some f =>
      let file := Ifstream.seekgEnd { file := f }
      let fileLength := file.tellg
      if fileLength > maxFileLength then (false, content)
      -- lseek is not support the linux file node
      else if fileLength < 0 then loadBufferFromNodeFile sys filePath content
      else if fileLength = 0 then (true, [])
      else
        let file := file.seekgBeg
        if file.fail then (false, content)
        else (true, store (resize content fileLength.toNat) (file.read fileLength.toNat))

end CUtils.FileEx
