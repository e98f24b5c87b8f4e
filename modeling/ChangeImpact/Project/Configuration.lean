import ChangeImpact.Project.Basic
import ChangeImpact.Toml.Parser
import ChangeImpact.Wire.Config

/-!
# The configuration file of a project

A project may have a configuration file at its root. What it does not set has its default value.
-/

namespace ChangeImpact

inductive ConfigError where
  | unreadable (path : String) (cause : IoError)
  | malformed (path : String)
  deriving DecidableEq, Repr

def ConfigError.message : ConfigError → String
  | unreadable path cause => "failed to read " ++ path ++ ": " ++ cause.message
  | malformed path => "invalid config in " ++ path ++ ": not a table of settings"

namespace Project

def configFile : String := "ripple.toml"

def config (project : Project) : Except ConfigError ProjectConfig :=
  if !project.has configFile then .ok .default
  else
    match project.read configFile with
    | .error cause => .error (.unreadable (project.path configFile) cause)
    | .ok text =>
      match (Toml.parse? text).bind ProjectConfig.ofJson? with
      | some config => .ok config
      | none => .error (.malformed (project.path configFile))

end Project

end ChangeImpact
