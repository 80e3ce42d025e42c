import QuoteLisp.Error

/-! The files that a run can load. -/

namespace QuoteLisp

/-- What a file holds. -/
inductive FileEntry where
  | text (contents : String)
  /-- Bytes that are no UTF-8 text. -/
  | binary
  deriving DecidableEq, Repr

/-- The entry for a file of given bytes. -/
def FileEntry.ofBytes (bytes : ByteArray) : FileEntry :=
  match String.fromUTF8? bytes with
  | some contents => text contents
  | none => binary

/-- Files by name; there are no others. -/
structure Folder where
  files : List (String × FileEntry) := []
  deriving DecidableEq, Repr

/-- The text of a file, or why there is none. The folder itself goes by the name of a single dot. -/
def Folder.read (folder : Folder) (path : String) : Except FileFault String :=
  if path.toList.contains '\x00' then .error .zeroInPath
  else if path = "." then .error .directory
  else
    match folder.files.lookup path with
    | some (.text contents) => .ok contents
    | some .binary => .error .notText
    | none => .error .missing

end QuoteLisp
