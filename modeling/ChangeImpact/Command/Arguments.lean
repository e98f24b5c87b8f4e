import ChangeImpact.Change

/-!
# The command line

A command line names a command, with options before it that hold for all commands, and options of
its own after it. It is read from left to right: the first word that cannot be read ends it, and so
does a call for help.
-/

namespace ChangeImpact

structure ImpactRequest where
  node : String
  change : ChangeKind
  before : Option ValueDescriptor
  after : Option ValueDescriptor
  apply : Bool
  confirmed : Bool
  deriving DecidableEq, Repr

inductive Command where
  | analyze (json : Bool)
  | impact (request : ImpactRequest)
  /-- Rolls back the patches of some identifiers, or all of them if none are given. -/
  | rollback (ids : List String)
  | history
  | clear
  | version
  deriving DecidableEq, Repr

structure Invocation where
  root : String
  command : Command
  deriving DecidableEq, Repr

inductive HelpTopic where
  | program | analyze | impact | rollback | history | clear | version | help
  deriving DecidableEq, Repr

inductive NoCommand where
  | help (topic : HelpTopic)
  | misuse
  deriving DecidableEq, Repr

namespace HelpTopic

def word : HelpTopic → String
  | program => "ripple"
  | analyze => "analyze"
  | impact => "impact"
  | rollback => "rollback"
  | history => "history"
  | clear => "clear"
  | version => "version"
  | help => "help"

def commands : List HelpTopic :=
  [.analyze, .impact, .rollback, .history, .clear, .version, .help]

def ofWord? (word : String) : Option HelpTopic :=
  commands.find? (·.word == word)

end HelpTopic

inductive OptionValue where
  | none
  | text
  | path
  | change
  deriving DecidableEq, Repr

def OptionValue.accepts (text : String) : OptionValue → Bool
  | none | .text => true
  | path => text != ""
  | change => ChangeKind.all.any (·.name == text)

structure OptionRule where
  name : String
  short : Option Char := none
  value : OptionValue := .none
  repeatable : Bool := false
  deriving DecidableEq, Repr

namespace OptionRule

/-- The options that may stand before and after the name of a command. -/
def common : List OptionRule :=
  [{ name := "verbose", short := some 'v' }, { name := "root", short := some 'r', value := .path }]

def ofTopic : HelpTopic → List OptionRule
  | .analyze => [{ name := "json" }]
  | .impact =>
    [{ name := "node", short := some 'n', value := .text },
      { name := "change", short := some 'c', value := .change },
      { name := "before-name", value := .text }, { name := "before-type", value := .text },
      { name := "after-name", value := .text }, { name := "after-type", value := .text },
      { name := "apply" }, { name := "yes", short := some 'y' }]
  | .rollback => [{ name := "id", value := .text, repeatable := true }]
  | _ => []

end OptionRule

/-- The options read so far with their values, latest first; an option without a value has none. -/
abbrev GivenOptions := List (String × String)

namespace GivenOptions

def has (given : GivenOptions) (name : String) : Bool :=
  (given.lookup name).isSome

def values (given : GivenOptions) (name : String) : List String :=
  (given.reverse.filter (·.1 == name)).map (·.2)

/-- Adds an option. One that is not repeatable may be given once. -/
def add (given : GivenOptions) (rule : OptionRule) (value : String) :
    Except NoCommand GivenOptions :=
  if (given.has rule.name && !rule.repeatable) || !rule.value.accepts value then .error .misuse
  else .ok ((rule.name, value) :: given)

end GivenOptions

def looksLikeOption (word : String) : Bool :=
  word.toList.head? == some '-' && word != "-"

/-- What becomes of the words after an option: it is complete, or the next word is its value. -/
inductive OptionStep where
  | done (given : GivenOptions)
  | needsValue (given : GivenOptions) (rule : OptionRule)

/-- Reads the letters of a word with a single dash. -/
def shortOptions (topic : HelpTopic) (rules : List OptionRule) (given : GivenOptions) :
    List Char → Except NoCommand OptionStep
  | [] => .ok (.done given)
  | letter :: rest =>
    match rules.find? (·.short == some letter) with
    | none => .error (if letter == 'h' then .help topic else .misuse)
    | some rule =>
      if rule.value == .none then
        match given.add rule "" with
        | .ok given => shortOptions topic rules given rest
        | .error stop => .error stop
      else
        match rest with
        | [] => .ok (.needsValue given rule)
        | '=' :: value => (given.add rule (String.ofList value)).map .done
        | value => (given.add rule (String.ofList value)).map .done

/-- Reads a word with two dashes, these left out. -/
def longOption (topic : HelpTopic) (rules : List OptionRule) (given : GivenOptions)
    (text : List Char) : Except NoCommand OptionStep :=
  let name := String.ofList (text.takeWhile (· != '='))
  let value := text.dropWhile (· != '=')
  match rules.find? (·.name == name) with
  | none => .error (if name == "help" && value.isEmpty then .help topic else .misuse)
  | some rule =>
    match value with
    | [] =>
      if rule.value == .none then (given.add rule "").map .done else .ok (.needsValue given rule)
    | _ :: value =>
      if rule.value == .none then .error .misuse
      else (given.add rule (String.ofList value)).map .done

/-- Reads options up to the first word that is none. Two dashes alone end the options. -/
def readOptions (topic : HelpTopic) (rules : List OptionRule) (given : GivenOptions) :
    List String → Except NoCommand (GivenOptions × List String)
  | [] => .ok (given, [])
  | "--" :: rest => if rest.isEmpty then .ok (given, []) else .error .misuse
  | word :: rest =>
    if !looksLikeOption word then .ok (given, word :: rest)
    else
      let step :=
        match word.toList with
        | '-' :: '-' :: text => longOption topic rules given text
        | _ :: letters => shortOptions topic rules given letters
        | [] => .error .misuse
      match step with
      | .error stop => .error stop
      | .ok (.done given) => readOptions topic rules given rest
      | .ok (.needsValue given rule) =>
        match rest with
        | [] => .error .misuse
        | value :: rest =>
          if looksLikeOption value then .error .misuse
          else
            match given.add rule value with
            | .ok given => readOptions topic rules given rest
            | .error stop => .error stop

namespace GivenOptions

/-- One side of a change, if its name or its type is given. -/
def side? (given : GivenOptions) (side : String) : Option ValueDescriptor :=
  let name := given.lookup (side ++ "-name")
  let typeName := given.lookup (side ++ "-type")
  if name.isNone && typeName.isNone then none else some ⟨name, typeName⟩

def impactRequest? (given : GivenOptions) : Option ImpactRequest := do
  let node ← given.lookup "node"
  let change ← given.lookup "change"
  let change ← ChangeKind.all.find? (·.name == change)
  return {
    node, change
    before := given.side? "before"
    after := given.side? "after"
    apply := given.has "apply"
    confirmed := given.has "yes" }

def command? (given : GivenOptions) : HelpTopic → Option Command
  | .analyze => some (.analyze (given.has "json"))
  | .impact => given.impactRequest?.map .impact
  | .rollback => some (.rollback (given.values "id"))
  | .history => some .history
  | .clear => some .clear
  | .version => some .version
  | .program | .help => none

end GivenOptions

/-- The page that a call for help asks for: that of one command, or of the program. -/
def helpTopic? : List String → Option HelpTopic
  | [] => some .program
  | [word] => HelpTopic.ofWord? word
  | _ => none

/-- Reads a command line. An option given after the command counts before one given in front. -/
def Invocation.read (words : List String) : Except NoCommand Invocation := do
  let (general, rest) ← readOptions .program OptionRule.common [] words
  match rest with
  | [] => .error .misuse
  | word :: rest =>
    match HelpTopic.ofWord? word with
    | none => .error .misuse
    | some .help =>
      match helpTopic? rest with
      | some topic => .error (.help topic)
      | none => .error .misuse
    | some topic =>
      let (given, rest) ←
        readOptions topic (OptionRule.ofTopic topic ++ OptionRule.common) [] rest
      match rest, given.command? topic with
      | [], some command =>
        return ⟨((given.lookup "root").or (general.lookup "root")).getD ".", command⟩
      | _, _ => .error .misuse

end ChangeImpact
