import HeapLint.FileTree.Basic
import HeapLint.Glob.Parser
import HeapLint.Text.Blank

/-!
# Lines of ignore files

A line is a pattern with marks around it: `!` in front takes back what other lines ignore, `/` in
front binds the pattern to the directory of the file, and `/` at the end means directories only.
Of several lines the last that matches decides.
-/

namespace HeapLint

/-- A line of an ignore file. -/
structure IgnoreRule where
  pieces : List Glob.Piece
  /-- The line takes back what others ignore. -/
  keeps : Bool
  directoriesOnly : Bool

namespace IgnoreRule

/-- The dialect of ignore files: stars stay within a component. -/
def dialect : Glob.Dialect :=
  ⟨true, true⟩

/-- Drops blanks from the end of a line, unless the last one is escaped. -/
def trimLine (line : List Char) : List Char :=
  if "\\ ".toList.isSuffixOf line then line else Text.trimEnd Text.isBlank line

/-- The pattern of a line, given whether it is bound to the directory of its file: a pattern
without a slash matches at any depth, and one for everything below a directory does not match
the directory. -/
def patternOf (bound : Bool) (line : List Char) : List Char :=
  let p :=
    if bound || line.contains '/' || line == "**".toList then line else "**/".toList ++ line
  if "/**".toList.isSuffixOf p then p ++ "/*".toList else p

/-- Reads the part of a line after the marks at its front. -/
def ofMarked (keeps bound : Bool) (line : List Char) : Except Glob.PatternFault IgnoreRule :=
  let directoriesOnly := line.getLast? == some '/'
  let line :=
    if directoriesOnly then
      let line := line.dropLast
      if line.getLast? == some '\\' then line.dropLast else line
    else line
  (Glob.parse dialect (String.ofList (patternOf bound line))).map fun pieces =>
    ⟨pieces, keeps, directoriesOnly⟩

/-- Reads a line that is neither empty nor a comment, without the blanks at its end. -/
def ofTrimmed : List Char → Except Glob.PatternFault IgnoreRule
  | '\\' :: c :: rest =>
    if c == '!' || c == '#' then ofMarked false false (c :: rest)
    else ofMarked false false ('\\' :: c :: rest)
  | '!' :: '/' :: rest => ofMarked true true rest
  | '!' :: rest => ofMarked true false rest
  | '/' :: rest => ofMarked false true rest
  | line => ofMarked false false line

/-- Does the line hold no rule? -/
def isComment (line : List Char) : Bool :=
  line.head? == some '#' || (trimLine line).isEmpty

/-- Does the rule speak of the entry at `path`, relative to the directory of its file? -/
def covers (r : IgnoreRule) (path : Bytes) (kind : FileKind) : Bool :=
  (!r.directoriesOnly || kind == .directory) && Glob.isMatch dialect r.pieces path

/-- What rules say about an entry: whether to keep it, if any speaks of it. -/
def verdict? (rules : List IgnoreRule) (path : Bytes) (kind : FileKind) : Option Bool :=
  (rules.reverse.find? (·.covers path kind)).map (·.keeps)

end IgnoreRule

end HeapLint
