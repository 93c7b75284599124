import ShardedSql.Algorithm.Options
import ShardedSql.Configuration.Build
import ShardedSql.Configuration.Decode

/-!
Loading a configuration: the path that is asked for, or the one the environment names, or the
default one; what is read from it within limits; and the configuration in it, if it builds. -/

namespace ShardedSql.Configuration

def defaultPath : String := "shardline.toml"

def maxPathBytes : Nat := 4096

/-- The longest path that a file is opened by; it is one byte shorter than a path may be. -/
def maxOpenBytes : Nat := 4095

def maxComponentBytes : Nat := 255

def maxFileBytes : Nat := 1024 * 1024

/-- What stands between the slashes of a path. -/
def pieces (path : String) : List String :=
  (Options.split (· == '/') [] path.toList).map String.ofList

/-- The pieces of a path that lead on. -/
def components (path : String) : List String :=
  (pieces path).filter fun c => !c.isEmpty && c != "."

/-- Whether the pieces of a path lead to a file from a place, through directories on the way to the
file only. -/
def leadsFrom (file : List String) : List String → List String → Bool
  | place, [] => place == file
  | place, c :: rest =>
    place != file && place.isPrefixOf file &&
      (if c == ".." then !place.isEmpty && leadsFrom file place.dropLast rest
        else leadsFrom file (place ++ [c]) rest)

/-- Whether a path leads to the only file below the working directory. One that is too long to open,
that starts elsewhere or that must end in a directory does not. -/
def leadsTo (file path : String) : Bool :=
  path.utf8ByteSize ≤ maxOpenBytes && path.toList.head? != some '/' &&
    (pieces path).getLast? == (components path).getLast? &&
    leadsFrom (components file) [] (components path)

def checkPath (path : String) : Except ConfigFault Unit := do
  guarded (path.utf8ByteSize ≤ maxPathBytes) .longPath
  guarded ((components path).all (·.utf8ByteSize ≤ maxComponentBytes)) .longPathComponent

def decodeText (bytes : ByteArray) : Except ConfigFault String :=
  if bytes.size > maxFileBytes then fault .fileTooLarge
  else
    match String.fromUTF8? bytes with
    | some text => .ok text
    | none => fault .notUtf8

/-- Loads from the path that is given, or else from the one the environment holds, or else from the
default path; `read` gives the content of the files that can be read. -/
def load (given environment : Option String) (read : String → Option ByteArray) :
    Except ConfigError Configuration :=
  let path := (given <|> environment).getD defaultPath
  match checkPath path with
  | .error f => .error (.invalid f)
  | .ok () =>
    match read path with
    | none => .error .io
    | some bytes =>
      match decodeText bytes with
      | .error f => .error (.invalid f)
      | .ok text =>
        match ofText? text with
        | none => .error .parse
        | some c => c.build.map fun _ => c

end ShardedSql.Configuration
