import ChangeImpact.Config
import ChangeImpact.Json.Basic

/-!
# Project configuration as JSON
-/

namespace ChangeImpact.ProjectConfig

open Json (defaulted record? str? nat64? list?)

def toJson (config : ProjectConfig) : Json :=
  .obj [("include", .strings config.includes), ("ignore_dirs", .strings config.ignoredNames),
    ("alias_prefix", .str config.aliasPrefix), ("alias_root", .str config.aliasRoot),
    ("coupling_threshold", .nat config.couplingThreshold),
    ("drift_window", .nat config.driftWindow), ("history_limit", .nat config.historyLimit),
    ("max_file_bytes", .nat config.maxFileBytes)]

def fieldNames : List String :=
  ["include", "ignore_dirs", "alias_prefix", "alias_root", "coupling_threshold", "drift_window",
    "history_limit", "max_file_bytes"]

/-- Reads a configuration; a setting that is missing has its default value. -/
def ofJson? (json : Json) : Option ProjectConfig := do
  let members ← record? fieldNames json
  return {
    includes := ← defaulted (list? str?) default.includes "include" members
    ignoredNames := ← defaulted (list? str?) default.ignoredNames "ignore_dirs" members
    aliasPrefix := ← defaulted str? default.aliasPrefix "alias_prefix" members
    aliasRoot := ← defaulted str? default.aliasRoot "alias_root" members
    couplingThreshold := ← defaulted nat64? default.couplingThreshold "coupling_threshold" members
    driftWindow := ← defaulted nat64? default.driftWindow "drift_window" members
    historyLimit := ← defaulted nat64? default.historyLimit "history_limit" members
    maxFileBytes := ← defaulted nat64? default.maxFileBytes "max_file_bytes" members }

end ChangeImpact.ProjectConfig
