import ChangeImpact.Command.Run
import ChangeImpact.DiskChange
import ChangeImpact.Main
import ChangeImpact.Proofs.Graph.Cycles
import ChangeImpact.Proofs.Impact.ApplyFixes
import ChangeImpact.Proofs.Rollback.Accounting
import ChangeImpact.Proofs.Rollback.OwnLine
import ChangeImpact.Proofs.Rollback.Selective
import ChangeImpact.Proofs.Classes
import ChangeImpact.Proofs.Graph.Search
import ChangeImpact.Proofs.Graph.Build
import ChangeImpact.Proofs.Graph.Dependents
import ChangeImpact.Proofs.Graph.Statements
import ChangeImpact.Proofs.Source.StatementLines
import ChangeImpact.Proofs.Impact.Marks
import ChangeImpact.Proofs.Impact.Report
import ChangeImpact.Proofs.Impact.BuildOrder
import ChangeImpact.Proofs.Project.Process
import ChangeImpact.Proofs.Wire.RoundTrip
import ChangeImpact.Proofs.Rollback.SingleEdit
import ChangeImpact.Proofs.Graph.Coherence
import ChangeImpact.Proofs.Impact.DeleteFixes
import ChangeImpact.Proofs.Source.StatementRoundTrip
import ChangeImpact.Proofs.Patch.Drift
import ChangeImpact.Proofs.Patch.ReadBack
import ChangeImpact.Proofs.Impact.Quotes
import ChangeImpact.Proofs.Impact.Rename
import ChangeImpact.Proofs.Impact.RenameRuns
import ChangeImpact.Proofs.Impact.AccessRanges
import ChangeImpact.Proofs.Impact.StrippedLine
import ChangeImpact.Proofs.Specifier
import ChangeImpact.Proofs.AliasSpecifier
import ChangeImpact.Proofs.Source.InterfaceRoundTrip
import ChangeImpact.Proofs.Patch.UniformEndings
import ChangeImpact.Proofs.Graph.Groups
import ChangeImpact.Proofs.Text.Blocks
import ChangeImpact.Proofs.Text.MemberLists
import ChangeImpact.Proofs.Source.StatementPlaces
