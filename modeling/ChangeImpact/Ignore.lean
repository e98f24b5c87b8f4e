import ChangeImpact.Disk
import ChangeImpact.Glob.Parser
import ChangeImpact.Text.Lines

/-!
# Ignore files

An ignore file holds one rule on each line: a glob for paths below its directory, which hides them,
or keeps them if the line begins with `!`. The last rule of a file that matches decides, and a file
deeper in the tree decides before one further up. The files of a repository are read up to the
directory of the innermost repository.
-/

namespace ChangeImpact

inductive IgnoreVerdict where
  | hidden | kept
  deriving DecidableEq, Repr

structure IgnoreRule where
  glob : Glob
  verdict : IgnoreVerdict
  directoriesOnly : Bool

namespace IgnoreRule

structure Line where
  text : List Char
  verdict : IgnoreVerdict
  /-- The rule is about paths from the directory of its file on. -/
  anchored : Bool

/-- Reads the marks at the front of a rule: `!` keeps, a slash anchors, and a backslash before `!`
or `#` takes away its meaning. -/
def Line.read : List Char → Line
  | '\\' :: '!' :: rest => ⟨'!' :: rest, .hidden, false⟩
  | '\\' :: '#' :: rest => ⟨'#' :: rest, .hidden, false⟩
  | '!' :: '/' :: rest => ⟨rest, .kept, true⟩
  | '!' :: rest => ⟨rest, .kept, false⟩
  | '/' :: rest => ⟨rest, .hidden, true⟩
  | text => ⟨text, .hidden, false⟩

/-- Blanks at the end of a line do not count, unless the last one is escaped. -/
def trimmed (line : List Char) : List Char :=
  match line.reverse with
  | ' ' :: '\\' :: _ => line
  | _ => Text.trimEndChars line

/-- A text without the slash at its end, which may be escaped, and whether it had one. -/
def withoutSlash (text : List Char) : List Char × Bool :=
  match text.reverse with
  | '/' :: '\\' :: front => (front.reverse, true)
  | '/' :: front => (front.reverse, true)
  | _ => (text, false)

/-- The glob for whole paths: a text without a slash is about a name at any depth, and `/**` at the
end is about what a directory holds but not about the directory. -/
def globText (anchored : Bool) (text : List Char) : List Char :=
  let text :=
    if anchored || text.contains '/' || text == ['*', '*'] then text
    else '*' :: '*' :: '/' :: text
  match text.reverse with
  | '*' :: '*' :: '/' :: _ => text ++ ['/', '*']
  | _ => text

/-- The rule on a line. Comments, blank lines and texts that are no globs have none. -/
def ofLine? (line : List Char) : Option IgnoreRule :=
  if line.head? == some '#' || (trimmed line).isEmpty then none
  else
    let marked := Line.read (trimmed line)
    let (text, directoriesOnly) := withoutSlash marked.text
    (Glob.read ⟨true, true⟩ (String.ofList (globText marked.anchored text))).toOption.map
      fun glob => ⟨glob, marked.verdict, directoriesOnly⟩

/-- The lines of a file up to the first one that is no valid text. -/
def validLines (data : ByteArray) : List (List Char) :=
  let lines := Text.linesChars (data.toList.map fun byte => Char.ofNat byte.toNat)
  let decoded := lines.map fun line =>
    String.fromUTF8? (line.map fun c => UInt8.ofNat c.toNat).toByteArray
  (decoded.takeWhile Option.isSome).map fun line => (line.getD "").toList

def withoutMarks (text : List Char) : List Char :=
  text.dropWhile (·.toNat == 0xFEFF)

def ofFile (data : ByteArray) : List IgnoreRule :=
  match validLines data with
  | [] => []
  | first :: rest => (withoutMarks first :: rest).filterMap ofLine?

def isAbout (rule : IgnoreRule) (path : String) (isDir : Bool) : Bool :=
  (isDir || !rule.directoriesOnly) && rule.glob.matchesPath path

/-- What the last rule that matches says. -/
def verdict? (rules : List IgnoreRule) (path : String) (isDir : Bool) : Option IgnoreVerdict :=
  (rules.reverse.find? fun rule => rule.isAbout path isDir).map (·.verdict)

end IgnoreRule

structure IgnoreLevel where
  /-- The way from the directory to the one that is listed, with a slash at its end. -/
  below : String
  own : List IgnoreRule
  repository : List IgnoreRule
  excluded : List IgnoreRule
  isRepository : Bool

namespace IgnoreLevel

def rulesAt (directory : Entry) (names : List String) : List IgnoreRule :=
  match directory.at? names with
  | some (.file data) => IgnoreRule.ofFile data
  | _ => []

def ofDirectory (directory : Entry) : IgnoreLevel :=
  { below := ""
    own := rulesAt directory [".ignore"]
    repository := rulesAt directory [".gitignore"]
    excluded := rulesAt directory [".git", "info", "exclude"]
    isRepository := (directory.child? ".git").isSome || (directory.child? ".jj").isSome }

def enter (name : String) (level : IgnoreLevel) : IgnoreLevel :=
  { level with below := level.below ++ name ++ "/" }

/-- The levels above the end of a list of names, innermost first. -/
def above : Entry → List String → List IgnoreLevel → List IgnoreLevel
  | _, [], levels => levels
  | directory, name :: rest, levels =>
    above ((directory.child? name).getD (.dir [])) rest
      ((ofDirectory directory :: levels).map (enter name))

/-- The levels up to the innermost repository; none if there is no repository. -/
def inRepository : List IgnoreLevel → List IgnoreLevel
  | [] => []
  | level :: outer =>
    if level.isRepository then [level]
    else
      match inRepository outer with
      | [] => []
      | inner => level :: inner

def verdict? (levels : List IgnoreLevel) (name : String) (isDir : Bool) : Option IgnoreVerdict :=
  let ask (levels : List IgnoreLevel) (rules : IgnoreLevel → List IgnoreRule) :=
    levels.findSome? fun level => IgnoreRule.verdict? (rules level) (level.below ++ name) isDir
  let inner := inRepository levels
  (ask levels own).or ((ask inner repository).or (ask inner excluded))

/-- Whether an entry is skipped: by the ignore files, or else because its name begins with a dot. -/
def skips (levels : List IgnoreLevel) (name : String) (isDir : Bool) : Bool :=
  match verdict? levels name isDir with
  | some verdict => verdict == .hidden
  | none => name.toList.head? == some '.'

end IgnoreLevel

end ChangeImpact
