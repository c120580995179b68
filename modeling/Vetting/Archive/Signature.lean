import Vetting.Text.Basic

/-!
# Signatures of archives

Kinds of compressed files, each told by the characters it starts with.
-/

namespace Vetting.Archive

/-- A kind of compressed file. -/
inductive Kind where
  | zip | bz2 | gz | sevenZip | tar | xz | jarcs | mar | rar | winZip
deriving BEq, DecidableEq, Inhabited

namespace Kind

def all : List Kind := [.zip, .bz2, .gz, .sevenZip, .tar, .xz, .jarcs, .mar, .rar, .winZip]

def extension : Kind → String
  | .zip => "zip"
  | .bz2 => "bz2"
  | .gz => "gz"
  | .sevenZip => "7z"
  | .tar => "tar"
  | .xz => "xz"
  | .jarcs => "jarcs"
  | .mar => "mar"
  | .rar => "rar"
  | .winZip => "winzip"

def signature : Kind → List Char
  | .zip => ['P', 'K', '\x03', '\x04']
  | .bz2 => ['B', 'Z', 'h']
  | .gz => ['\x1f', '\u008b', '\x08']
  | .sevenZip => ['7', 'z', '¼', '¯', '\'', '\x1c']
  | .tar => ['u', 's', 't', 'a', 'r']
  | .xz => ['ý', '7', 'z', 'X', 'Z', '\x00']
  | .jarcs => ['J', 'A', 'R', 'C', 'S', '\x00']
  | .mar => ['M', 'A', 'R', '1', '\x00']
  | .rar => ['R', 'a', 'r', '!', '\x1a', '\x07']
  | .winZip => ['W', 'i', 'n', 'Z', 'i', 'p']

def ofStart (cs : List Char) : List Kind := all.filter fun k => k.signature.isPrefixOf cs

end Kind

end Vetting.Archive
