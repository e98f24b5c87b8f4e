import ChangeImpact.Command.Arguments

/-!
# Pages of help
-/

namespace ChangeImpact.HelpTopic

def summary : HelpTopic → String
  | program => "Dependency graph, coherence and change-impact analysis for TypeScript projects"
  | analyze => "Scan the project and report graph and coherence"
  | impact => "Predict the impact of a change to one node"
  | rollback => "Roll back applied patches (all of them by default)"
  | history => "List applied patches"
  | clear => "Delete the .ripple state directory"
  | version => "Show version"
  | help => "Print this message or the help of the given subcommand(s)"

def usage : HelpTopic → String
  | program => "ripple [OPTIONS] <COMMAND>"
  | impact => "ripple impact [OPTIONS] --node <NODE> --change <CHANGE>"
  | help => "ripple help [COMMAND]..."
  | topic => "ripple " ++ topic.word ++ " [OPTIONS]"

def padded (width : Nat) (text : String) : String :=
  text ++ String.ofList (List.replicate (width - text.length) ' ')

def options : HelpTopic → List (String × String)
  | program => [verbose, root, helpOption]
  | analyze => [("    --json", "Print the full analysis result as JSON"), verbose, root, helpOption]
  | impact =>
    [("-n, --node <NODE>", "Target node id (project-relative path) or primary name"),
      ("-c, --change <CHANGE>", "rename, add-field, remove-field, change-type or delete"),
      ("    --before-name <BEFORE_NAME>", ""), ("    --before-type <BEFORE_TYPE>", ""),
      ("    --after-name <AFTER_NAME>", ""), ("    --after-type <AFTER_TYPE>", ""),
      ("    --apply", "Apply the auto-fixable fixes"), verbose, root,
      ("-y, --yes", "Confirm applying fixes for a critical-risk change"), helpOption]
  | rollback => [("    --id <IDS>", "Patch ids to roll back"), verbose, root, helpOption]
  | history | clear | version => [verbose, root, helpOption]
  | help => []
where
  verbose := ("-v, --verbose", "Enable verbose logging")
  root := ("-r, --root <ROOT>", "Project root path (defaults to current directory) [default: .]")
  helpOption := ("-h, --help", "Print help")

/-- The lines that list options. Where an option is long its description stands below it. -/
def optionLines (entries : List (String × String)) : List String :=
  let width := (entries.map fun (option, _) => option.length).foldl max 0
  if 30 < width then
    entries.flatMap fun (option, text) => ["  " ++ option, "          " ++ text]
  else entries.map fun (option, text) => "  " ++ padded width option ++ "  " ++ text

def commandLines : List String :=
  commands.map fun topic => "  " ++ padded 8 topic.word ++ "  " ++ topic.summary

def page (topic : HelpTopic) : String :=
  let front := [topic.summary, "", "Usage: " ++ topic.usage]
  let middle :=
    match topic with
    | program => ["", "Commands:"] ++ commandLines
    | help => ["", "Arguments:", "  [COMMAND]...  Print help for the subcommand(s)"]
    | _ => []
  let entries := topic.options
  let last := if entries.isEmpty then [] else ["", "Options:"] ++ optionLines entries
  String.join ((front ++ middle ++ last).map (· ++ "\n"))

end ChangeImpact.HelpTopic
