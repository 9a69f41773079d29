/-!
# Files

A directory is what the command sees of the file system: the files below the directory that it is
started in, by their paths. A path is a row of names; `normalize` drops what does not matter from a
written one.
-/

namespace LittleLang.Command

/-! ## Paths -/

/-- The names of a path: empty ones and those that stay in place are left out. -/
def pathParts (path : String) : List String :=
  (path.splitOn "/").filter fun part => part != "" && part != "."

/-- The root that an absolute path starts with. -/
def pathRoot (path : String) : String :=
  match path.toList with
  | '/' :: '/' :: '/' :: _ => "/"
  | '/' :: '/' :: _ => "//"
  | '/' :: _ => "/"
  | _ => ""

/-- A path without parts that do not matter. -/
def normalize (path : String) : String :=
  let text := pathRoot path ++ "/".intercalate (pathParts path)
  if text = "" then "." else text

/-! ## Directories -/

structure Directory where
  files : List (List String × ByteArray) := []

inductive PathEntry where
  | absent
  | directory
  | file (content : ByteArray)

namespace Directory

/-- Adds a file, in place of one with the same path. -/
def write (d : Directory) (path : String) (content : ByteArray) : Directory :=
  let parts := pathParts path
  ⟨(parts, content) :: d.files.filter (·.1 != parts)⟩

def follow (d : Directory) (place : List String) : List String → PathEntry
  | [] => .directory
  | part :: rest =>
    if part = ".." then
      if place.isEmpty then if rest.isEmpty then .directory else .absent
      else follow d place.dropLast rest
    else
      let here := place ++ [part]
      match d.files.lookup here with
      | some content => if rest.isEmpty then .file content else .absent
      | none =>
        if d.files.any fun file => here.isPrefixOf file.1 then follow d here rest else .absent

/-- What stands at a path. Outside of the directory there is nothing but the root. -/
def find (d : Directory) (path : String) : PathEntry :=
  if pathRoot path = "" then d.follow [] (pathParts path)
  else if (pathParts path).isEmpty then .directory else .absent

end Directory

/-! ## Text files -/

/-- A text with every line break as a line feed. -/
def unifyBreaks : List Char → List Char
  | '\r' :: '\n' :: cs => '\n' :: unifyBreaks cs
  | '\r' :: cs => '\n' :: unifyBreaks cs
  | c :: cs => c :: unifyBreaks cs
  | [] => []

/-- The text of a file, if it is UTF-8. -/
def decodeText (content : ByteArray) : Option String :=
  (String.fromUTF8? content).map fun text => String.ofList (unifyBreaks text.toList)

end LittleLang.Command
