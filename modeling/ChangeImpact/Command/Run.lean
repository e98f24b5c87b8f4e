import ChangeImpact.Command.Help
import ChangeImpact.Impact.Analysis
import ChangeImpact.Patch.Rollback
import ChangeImpact.Project.Analysis
import ChangeImpact.Project.Configuration
import ChangeImpact.Project.History
import ChangeImpact.Wire.Analysis

/-!
# Running commands

A command takes a project to a project, with what it prints and why it failed, if it did. What it
has printed and written before it fails stays.
-/

namespace ChangeImpact

/-- Why a command failed: what it could not do, and the causes, nearest first. -/
structure Failure where
  message : String
  causes : List String := []
  deriving DecidableEq, Repr

namespace Failure

/-- A cause on lines of its own: the first one after a mark, the later ones below it. -/
def causeLines (mark cause : String) : String :=
  let indent := String.ofList (List.replicate mark.length ' ')
  mark ++ Text.joinWith ("\n" ++ indent) (Text.splitString '\n' cause) ++ "\n"

/-- The text of a failure. Several causes are numbered. -/
def report (failure : Failure) : String :=
  "Error: " ++ failure.message ++ "\n" ++
    match failure.causes with
    | [] => ""
    | [cause] => "\nCaused by:\n" ++ causeLines "    " cause
    | causes =>
      "\nCaused by:\n" ++
        String.join (causes.zipIdx.map fun (cause, index) =>
          let number := toString index
          let indent := String.ofList (List.replicate (5 - number.length) ' ')
          causeLines (indent ++ number ++ ": ") cause)

end Failure

def ConfigError.causes (error : ConfigError) : List String :=
  match error with
  | .unreadable _ cause => [error.message, cause.message]
  | .malformed _ => [error.message]

def HistoryError.causes (error : HistoryError) : List String :=
  match error with
  | .inaccessible _ cause => [error.message, cause.message]
  | .malformed _ => [error.message]

def AnalysisError.causes (error : AnalysisError) : List String :=
  match error with
  | .discovery (.badPattern pattern cause) =>
    [error.message, DiscoveryError.globMessage pattern cause]
  | _ => [error.message]

def HistoryError.during (context : String) (error : HistoryError) : Failure :=
  ⟨context, error.causes⟩

structure CommandResult where
  project : Project
  output : String
  failure : Option Failure

namespace CommandResult

def printed (project : Project) (output : String) : CommandResult :=
  ⟨project, output, none⟩

def failed (project : Project) (failure : Failure) : CommandResult :=
  ⟨project, "", some failure⟩

def status (result : CommandResult) : Nat :=
  if result.failure.isSome then 1 else 0

end CommandResult

def Severity.heading : Severity → String
  | critical => "Critical"
  | high => "High"
  | medium => "Medium"
  | low => "Low"
  | info => "Info"

namespace Project

def configuredAnalysis (project : Project) : Except Failure ProjectAnalysis := do
  let config ← project.config.mapError fun error =>
    ⟨"failed to load configuration for " ++ project.root, error.causes⟩
  (project.analyze config).mapError fun error =>
    ⟨"failed to analyze " ++ project.root, error.causes⟩

/-- The lines of an analysis: its figures, its issues with what to do about them, and the files that
were left out. -/
def analysisLines (analysis : ProjectAnalysis) : List String :=
  ["Project:   " ++ analysis.projectName,
    "Files:     " ++ toString analysis.totalFiles,
    "Nodes:     " ++ toString analysis.graph.nodes.length,
    "Edges:     " ++ toString analysis.graph.edges.length,
    "Coherence: " ++ toString analysis.coherence.score ++ "/100"] ++
    (analysis.coherence.issues.flatMap fun issue =>
      ("  [" ++ issue.severity.heading ++ "] " ++ issue.message) ::
        issue.suggestion.toList.map ("      " ++ ·)) ++
    analysis.skipped.map ("  skipped " ++ ·)

def analyzeCommand (project : Project) (json : Bool) : CommandResult :=
  match project.configuredAnalysis with
  | .error failure => .failed project failure
  | .ok analysis =>
    .printed project
      (if json then analysis.toResult.toJson.pretty ++ "\n"
      else String.join ((analysisLines analysis).map (· ++ "\n")))

def keepHistory (project : Project) (now : Nat) (engine : PatchEngine) :
    Project × Option Failure :=
  match project.saveHistory now engine.history with
  | .ok project => (project, none)
  | .error error => (project, some (error.during "failed to save patch history"))

/-- Applies the fixes of a report that need nobody's judgement, and saves the history. -/
def applyFixes (project : Project) (now : Nat) (config : ProjectConfig) (report : ImpactReport) :
    Project × Option Failure :=
  if report.autoFixes.isEmpty then (project, none)
  else
    match project.loadHistory with
    | .error error => (project, some (error.during "failed to load patch history"))
    | .ok patches =>
      let (engine, project, result) :=
        (PatchEngine.ofHistory config patches).apply project report.autoFixes
      let (project, failure) := project.keepHistory now engine
      let incomplete : Failure :=
        ⟨toString result.patchesFailed.length ++ " patches could not be applied", []⟩
      (project, failure.or (if result.success then none else some incomplete))

/-- The node that a request is about: the one with that identifier, or else the first one with that
name. -/
def target? (graph : DependencyGraph) (request : ImpactRequest) : Option NodeId :=
  if graph.contains request.node then some request.node
  else (graph.nodeNamed? request.node).map (·.id)

def impactCommand (project : Project) (now : Nat) (request : ImpactRequest) : CommandResult :=
  match project.configuredAnalysis with
  | .error failure => .failed project failure
  | .ok analysis =>
    match target? analysis.graph request with
    | none => .failed project ⟨"no node named or located at '" ++ request.node ++ "'", []⟩
    | some id =>
      let change : ChangeDescriptor := ⟨id, request.change, request.before, request.after⟩
      match ImpactReport.ofChange analysis.graph project analysis.config.resolver change with
      | .error error => .failed project ⟨"impact analysis failed", [error.message]⟩
      | .ok report =>
        let output := report.toJson.pretty ++ "\n"
        if !request.apply then .printed project output
        else if report.requiresConfirmation && !request.confirmed then
          ⟨project, output, some
            ⟨"risk level is " ++ report.riskLevel.name ++ "; re-run with --yes to apply", []⟩⟩
        else
          let (project, failure) := project.applyFixes now analysis.config report
          ⟨project, output, failure⟩

def rollbackCommand (project : Project) (now : Nat) (ids : List String) : CommandResult :=
  match project.config with
  | .error error => .failed project ⟨"failed to load configuration", error.causes⟩
  | .ok config =>
    match project.loadHistory with
    | .error error => .failed project (error.during "failed to load patch history")
    | .ok patches =>
      let engine := PatchEngine.ofHistory config patches
      if engine.history.isEmpty && ids.isEmpty then .printed project ""
      else
        let (engine, project, result) :=
          engine.rollback project (if ids.isEmpty then none else some ids)
        let (project, failure) := project.keepHistory now engine
        let incomplete : Failure :=
          ⟨"rollback incomplete: " ++ toString result.errors.length ++ " errors", []⟩
        ⟨project, "", failure.or (if result.success then none else some incomplete)⟩

def patchLine (patch : Patch) : String :=
  patch.id ++ "  " ++ patch.path ++ ":" ++ toString patch.line ++ "  " ++ patch.description ++ "\n"

def historyCommand (project : Project) : CommandResult :=
  match project.loadHistory with
  | .error error => .failed project (error.during "failed to load patch history")
  | .ok [] => .printed project "No applied patches\n"
  | .ok patches => .printed project (String.join (patches.map patchLine))

def clearCommand (project : Project) : CommandResult :=
  match project.clearState with
  | .ok project => .printed project ""
  | .error error => .failed project ⟨error.message, error.causes.drop 1⟩

/-- Runs a command at an instant given in nanoseconds since 1970. -/
def run (project : Project) (now : Nat) : Command → CommandResult
  | .analyze json => project.analyzeCommand json
  | .impact request => project.impactCommand now request
  | .rollback ids => project.rollbackCommand now ids
  | .history => project.historyCommand
  | .clear => project.clearCommand
  | .version => .printed project ("Ripple v" ++ ChangeImpact.version ++ "\n")

end Project

end ChangeImpact
