/-
Stores of named parts.  A publication lives in memory or in an archive; both
look a name up as it is written first and with its percent escapes resolved
second, each in its own way.
-/
import Epub.Error
import Epub.SortedMap
import Epub.Text.Percent

namespace Epub.Parts

open Epub.Text

/-- Where parts are read from. -/
class PartSource (σ : Type) where
  readPart : σ → String → Except Error ByteArray

/-- Where parts are written to. -/
class PartSink (σ : Type) where
  writePart : σ → String → ByteArray → Except Error σ

/-- The path behind the percent escapes of `path`, when it is another one.
References are URLs, so the path of a part may come with escapes. -/
def decodedPath? (path : String) : Option String :=
  (Percent.decode? path).filter (· ≠ path)

/-- Parts in memory, sorted by path. -/
structure MemoryParts where
  parts : SortedMap String ByteArray

namespace MemoryParts

def empty : MemoryParts :=
  ⟨SortedMap.empty⟩

def get? (store : MemoryParts) (path : String) : Option ByteArray :=
  store.parts.get? path

/-- Write a part, replacing any part of that path. -/
def insert (store : MemoryParts) (path : String) (bytes : ByteArray) : MemoryParts :=
  ⟨store.parts.insert path bytes⟩

/-- The paths of the parts, in order. -/
def paths (store : MemoryParts) : List String :=
  store.parts.keys

def size (store : MemoryParts) : Nat :=
  store.parts.size

def isEmpty (store : MemoryParts) : Bool :=
  store.parts.isEmpty

/-- Read a part.  A part of the escaped name itself goes first. -/
def readPart (store : MemoryParts) (path : String) : Except Error ByteArray :=
  match store.get? path with
  | some bytes => .ok bytes
  | none =>
      match (decodedPath? path).bind store.get? with
      | some bytes => .ok bytes
      | none => .error (.missingPart path)

instance : PartSource MemoryParts where
  readPart := readPart

instance : PartSink MemoryParts where
  writePart store path bytes := .ok (store.insert path bytes)

end MemoryParts

/-- A file of an archive that has been opened: its bytes, or what goes wrong
when it is read to its end. -/
structure ArchivedFile where
  content : Except String ByteArray

/-- An archive: named files in the order in which they were written, each with
what comes of opening it. -/
structure Archive where
  files : List (String × Except String ArchivedFile)

/-- Why an archive opens no file. -/
inductive ArchiveFault where
  | notFound
  /-- Whatever else the archive finds wrong with the file, in its own words. -/
  | unfit (message : String)

def ArchivedFile.read (file : ArchivedFile) : Except Error ByteArray :=
  file.content.mapError .io

namespace Archive

def empty : Archive :=
  ⟨[]⟩

/-- A sound file. -/
def entry (path : String) (bytes : ByteArray) : String × Except String ArchivedFile :=
  (path, .ok ⟨.ok bytes⟩)

/-- An archive of sound files. -/
def ofParts (parts : List (String × ByteArray)) : Archive :=
  ⟨parts.map fun part => entry part.1 part.2⟩

/-- Open the file of exactly this name. -/
def byName (archive : Archive) (path : String) : Except ArchiveFault ArchivedFile :=
  match archive.files.lookup path with
  | some (.ok file) => .ok file
  | some (.error message) => .error (.unfit message)
  | none => .error .notFound

/-- Read a part.  The name behind the escapes is tried only when there is no
file of the escaped name, and not when that one cannot be opened. -/
def readPart (archive : Archive) (path : String) : Except Error ByteArray :=
  match archive.byName path with
  | .ok file => file.read
  | .error (.unfit message) => .error (.archive message)
  | .error .notFound =>
      match decodedPath? path with
      | none => .error (.missingPart path)
      | some decoded =>
          match archive.byName decoded with
          | .ok file => file.read
          | .error .notFound => .error (.missingPart path)
          | .error (.unfit message) => .error (.archive message)

/-- Append a part.  An archive takes each path once. -/
def append (archive : Archive) (path : String) (bytes : ByteArray) :
    Except Error Archive :=
  if (archive.files.lookup path).isSome then
    .error (.archive s!"invalid Zip archive: Duplicate filename: {path}")
  else .ok ⟨archive.files ++ [entry path bytes]⟩

instance : PartSource Archive where
  readPart := readPart

instance : PartSink Archive where
  writePart := append

end Archive

end Epub.Parts
