import ModuleSplit.Main
import ModuleSplit.Proofs.Block.BoundNames
import ModuleSplit.Proofs.Block.Semicolons
import ModuleSplit.Proofs.Config.Representation
import ModuleSplit.Proofs.Delimiter.Literals
import ModuleSplit.Proofs.Delimiter.Projection
import ModuleSplit.Proofs.Import.Needs
import ModuleSplit.Proofs.Import.Renaming
import ModuleSplit.Proofs.Import.RoundTrip
import ModuleSplit.Proofs.Output.Agreement
import ModuleSplit.Proofs.Output.ExportLists
import ModuleSplit.Proofs.Project.Backups
import ModuleSplit.Proofs.Project.Initialization
import ModuleSplit.Proofs.Project.Order
import ModuleSplit.Proofs.Project.SourceFiles
import ModuleSplit.Proofs.Transaction.Corruption
