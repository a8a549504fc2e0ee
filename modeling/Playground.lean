import Playground.Common.ExecuteInOrder
import Playground.Playnet.BankConservation
import Playground.Playnet.BankHistory
import Playground.Playnet.BankReplay
import Playground.Playnet.SystemProgramAuthority
import Playground.Library.FileSystem
import Playground.Library.FileTree
import Playground.Library.OrderedMap
import Playground.Explorer.Paths
import Playground.Explorer.Fs
import Playground.Explorer.Items
import Playground.Explorer.Workspaces
import Playground.Library.Program
import Playground.Explorer.Tabs
import Playground.Explorer.FolderRename
import Playground.Explorer.TabItems
import Playground.Explorer.DiskFrames
import Playground.Explorer.TabRuns
import Playground.Monaco.Editor
import Playground.Monaco.AutoSave
import Playground.Common.CustomEvents
import Playground.Common.Derivable
import Playground.Playnet.BankLookup
import Playground.Playnet.SystemProgramSteps
import Playground.Playnet.BankWrites
import Playground.Playnet.BankNonces
import Playground.Library.Json
import Playground.Playnet.BankSerde
import Playground.Playnet.ReferenceCodec
import Playground.Explorer.NewWorkspaces
import Playground.Explorer.ItemPaths
import Playground.Explorer.Loading
import Playground.Explorer.HiddenFiles
import Playground.Explorer.Metadata
import Playground.Explorer.ReferenceJson
import Playground.Explorer.Switching
import Playground.Explorer.Inits
import Playground.Library.PosixPath
import Playground.Server.Places
import Playground.Server.Manifest
import Playground.Server.Restarts
import Playground.Server.Confinement
import Playground.Server.ConcurrentBuilds
import Playground.Deploy.LoadBuffer
import Playground.Client.Execute
import Playground.Deploy.BufferRounds
import Playground.Router.Disposables
import Playground.Terminal.Processes
import Playground.Library.LineEditor
import Playground.Terminal.LineEditing
import Playground.Explorer.SettledWorkspaces
import Playground.Explorer.WorkspaceRuns
import Playground.ProgramInfo.Persistence
import Playground.Explorer.Closing
import Playground.Explorer.Deleting
import Playground.Wallet.Accounts
import Playground.RustAnalyzer.LocalFiles
import Playground.RustAnalyzer.Dependencies
import Playground.RustAnalyzer.Requests
import Playground.ProgramInteraction.IdlType
import Playground.ProgramInteraction.Storage
import Playground.Github.ParseUrl
import Playground.Library.RecentList
import Playground.Terminal.HistoryNavigation
import Playground.Terminal.WidePrinting
import Playground.Library.WrappedText
import Playground.Terminal.CursorPlaces
import Playground.Explorer.ParentPaths
import Playground.Explorer.RemovingDirs
import Playground.Explorer.FailedOperations
import Playground.Explorer.FolderContent
import Playground.Terminal.IncompleteInput
import Playground.Terminal.Completion
import Playground.Library.JsonText
import Playground.Terminal.ChoiceInput
import Playground.Explorer.WritingFiles
import Playground.Explorer.MovingBelow
import Playground.Explorer.KeepingTemporary
import Playground.Library.Ranks
import Playground.Tx.PriorityFee
import Playground.Library.Entries
import Playground.Library.JsonValue
import Playground.Common.IsEqual
import Playground.Library.Bytes
import Playground.Library.Double
import Playground.Library.ParseInt
import Playground.ProgramInteraction.Integers
import Playground.ProgramInteraction.RandomIntegers
import Playground.Library.Evaluation
import Playground.Library.Except
import Playground.Library.Grounded
import Playground.ProgramInteraction.Generators
import Playground.Library.PlainObject
import Playground.ProgramInteraction.Structs
import Playground.Common.CamelCase
import Playground.Common.KebabCase
import Playground.ProgramInteraction.Enums
import Playground.Library.PropertyTree
import Playground.Decorators.Updatable
import Playground.Decorators.Normalization
import Playground.Decorators.Init
import Playground.Playnet.ProgramChains
import Playground.Playnet.BankHashes
import Playground.Library.TextDocument
import Playground.Monaco.FormatJson
import Playground.Monaco.FormatCode
import Playground.Library.Linearizability
import Playground.Tutorial.Storage
import Playground.Common.RandomBigInt
import Playground.Common.Throttle
import Playground.Library.Edits
import Playground.RustAnalyzer.ToProto
import Playground.Library.Regex
import Playground.Library.Tokens
import Playground.Client.ImportSyntax
import Playground.Client.Imports
import Playground.Client.ImportFronts
import Playground.Library.Forest
import Playground.RustAnalyzer.DocumentSymbols
import Playground.Frameworks.AddAfter
import Playground.Frameworks.ConvertJs
import Playground.Server.StaleFiles
import Playground.Client.ImportMatches
import Playground.Client.NamedImports
import Playground.Client.ReturnedImports
import Playground.Router.PathParams
import Playground.Router.RouteTemplates
import Playground.Github.RepositoryUrls
import Playground.Frameworks.Conversions
import Playground.Vscode.FindFiles
import Playground.Vscode.ProgramData
import Playground.Library.SortedMap
import Playground.VoteProgram.AuthorizedVoters
import Playground.VoteProgram.State
import Playground.VoteProgram.Tower
import Playground.VoteProgram.Advances
import Playground.VoteProgram.Credits
import Playground.VoteProgram.Effects
import Playground.VoteProgram.Runs
import Playground.Commands.Deploy
import Playground.Commands.DeployTranscripts
import Playground.Commands.DeployRuns
import Playground.Terminal.ReferenceEditor
import Playground.Library.WholeNumbers
import Playground.Explorer.DroppedNames
import Playground.Explorer.RestoredTabs
import Playground.Library.Acyclic
