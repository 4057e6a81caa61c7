import AssetDecl.Bindings
import AssetDecl.Bytes.Stream
import AssetDecl.Bytes.Utf8
import AssetDecl.Catalogue.Basic
import AssetDecl.Catalogue.Install
import AssetDecl.Catalogue.Run
import AssetDecl.Catalogue.Scans
import AssetDecl.Cli.Arguments
import AssetDecl.Cli.Check
import AssetDecl.Cli.Output
import AssetDecl.Cli.Run
import AssetDecl.Cursor
import AssetDecl.Cursor.Bytes
import AssetDecl.Cursor.Text
import AssetDecl.DeclFolder
import AssetDecl.DeclType
import AssetDecl.Declaration
import AssetDecl.Diagnostic
import AssetDecl.Failure
import AssetDecl.FileAccess
import AssetDecl.FileDiff
import AssetDecl.FileTree
import AssetDecl.Lexeme
import AssetDecl.Main
import AssetDecl.Path
import AssetDecl.ProjectConfig
import AssetDecl.Proofs.BindingHistory
import AssetDecl.Proofs.BlockContents
import AssetDecl.Proofs.ByteDecoding
import AssetDecl.Proofs.ChangedTypes
import AssetDecl.Proofs.CheckedProjects
import AssetDecl.Proofs.ConfiguredCatalogues
import AssetDecl.Proofs.CreatorBinding
import AssetDecl.Proofs.Cutting
import AssetDecl.Proofs.DeferredAssignment
import AssetDecl.Proofs.DeferredBlocks
import AssetDecl.Proofs.EncodedOrder
import AssetDecl.Proofs.EndedScans
import AssetDecl.Proofs.ExportedBlocks
import AssetDecl.Proofs.FailedCalls
import AssetDecl.Proofs.FailingStreams
import AssetDecl.Proofs.FileDifferences
import AssetDecl.Proofs.FileLayout
import AssetDecl.Proofs.FittingDeclarations
import AssetDecl.Proofs.GrowingBindings
import AssetDecl.Proofs.IdleSystem
import AssetDecl.Proofs.IndependentScans
import AssetDecl.Proofs.InstalledAspects
import AssetDecl.Proofs.InstalledBlocks
import AssetDecl.Proofs.InstalledScan
import AssetDecl.Proofs.InterleavedCalls
import AssetDecl.Proofs.LosslessTree
import AssetDecl.Proofs.LossyDecoding
import AssetDecl.Proofs.LostDeclarations
import AssetDecl.Proofs.NamedEntries
import AssetDecl.Proofs.OpenTokens
import AssetDecl.Proofs.OpenedProjects
import AssetDecl.Proofs.OrderlyCalls
import AssetDecl.Proofs.OvertakenBlocks
import AssetDecl.Proofs.PathComponents
import AssetDecl.Proofs.PathPrefixes
import AssetDecl.Proofs.QuietScans
import AssetDecl.Proofs.RacingScans
import AssetDecl.Proofs.ReachableSystem
import AssetDecl.Proofs.RepeatedScan
import AssetDecl.Proofs.ReportedMismatches
import AssetDecl.Proofs.ReportedProblems
import AssetDecl.Proofs.Resynchronisation
import AssetDecl.Proofs.RunStages
import AssetDecl.Proofs.RunsBetweenResets
import AssetDecl.Proofs.ScanUnderWay
import AssetDecl.Proofs.ScannedFolders
import AssetDecl.Proofs.SelectedFiles
import AssetDecl.Proofs.SignalSnapshots
import AssetDecl.Proofs.SoleOrigin
import AssetDecl.Proofs.StoredDeclarations
import AssetDecl.Proofs.StreamReading
import AssetDecl.Proofs.SupersededScans
import AssetDecl.Proofs.TokenGrammar
import AssetDecl.Proofs.TokenLookahead
import AssetDecl.Proofs.TokenSlices
import AssetDecl.Proofs.TypeStores
import AssetDecl.Proofs.VisitedBlocks
import AssetDecl.Proofs.WaitingBlocks
import AssetDecl.Proofs.WalkedFiles
import AssetDecl.Scan
import AssetDecl.SearchPath
import AssetDecl.Session
import AssetDecl.Session.Step
import AssetDecl.Signal
import AssetDecl.Signal.Labels
import AssetDecl.Store
import AssetDecl.SyntaxTree
import AssetDecl.SyntaxTree.Parse
import AssetDecl.TableOrder
import AssetDecl.Task
import AssetDecl.Task.Trial
import AssetDecl.Text.Hidden
import AssetDecl.Text.JsonString
import AssetDecl.Text.Letters
import AssetDecl.Text.Lines
import AssetDecl.Text.Quoted
import AssetDecl.Token
import AssetDecl.Toml.Datetime
import AssetDecl.Toml.Document
import AssetDecl.Toml.Scalar
import AssetDecl.Toml.Value
