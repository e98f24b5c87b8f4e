import ChangeImpact.Specifier

/-!
# Project configuration

What a project may set, and the values that hold where it sets nothing.
-/

namespace ChangeImpact

structure ProjectConfig where
  /-- Glob patterns of the files to scan, relative to the root. -/
  includes : List String
  /-- Names of directories that are skipped wherever they stand in a path. -/
  ignoredNames : List String
  aliasPrefix : String
  /-- The directory that the alias prefix stands for; empty for the root. -/
  aliasRoot : String
  /-- How many edges a node may have. -/
  couplingThreshold : Nat
  /-- How many lines away from its recorded line a patch may be applied. -/
  driftWindow : Nat
  /-- How many applied patches are kept for rollback. -/
  historyLimit : Nat
  /-- The size in bytes above which a file is skipped. -/
  maxFileBytes : Nat
  deriving DecidableEq, Repr

namespace ProjectConfig

def default : ProjectConfig :=
  { includes := ["**/*.ts", "**/*.tsx", "**/*.js", "**/*.jsx"]
    ignoredNames := ["node_modules", ".git", "dist", "build", "out", ".next", "coverage",
      "__tests__", "__fixtures__", "__mocks__"]
    aliasPrefix := "@/"
    aliasRoot := ""
    couplingThreshold := 15
    driftWindow := 5
    historyLimit := 500
    maxFileBytes := 1024 * 1024 }

def isIgnored (config : ProjectConfig) (path : String) : Bool :=
  (Path.components path).any config.ignoredNames.contains

def resolver (config : ProjectConfig) : ImportResolver :=
  ⟨config.aliasPrefix, config.aliasRoot⟩

end ProjectConfig

end ChangeImpact
