import Omapkg.Lib.Fallible
import Omapkg.Lib.Numeral
import Omapkg.Lib.MergeHead
import Omapkg.Lib.Json
import Omapkg.Lib.JsonRead
import Omapkg.Lib.JsonString
import Omapkg.Lib.JsonParse
import Omapkg.Lib.Hash
import Omapkg.Lib.Utf
import Omapkg.Lib.Runes
import Omapkg.Lib.Decimal
import Omapkg.Lib.Record
import Omapkg.Lib.Prog
import Omapkg.Lib.Pool
import Omapkg.Lib.Sql
import Omapkg.Lib.Multipart
import Omapkg.Lib.Resume
import Omapkg.Lib.Paging
import Omapkg.Lib.TextChunks
import Omapkg.Lib.Search
import Omapkg.Lib.Expansion
import Omapkg.Lib.Components
import Omapkg.Lib.Bounds
import Omapkg.Lib.Blit
import Omapkg.Lib.TextEncoder
import Omapkg.Lib.FieldFile
import Omapkg.Server.CanonicalJson
import Omapkg.Server.Manifest
import Omapkg.Server.Decoded
import Omapkg.Server.Validate
import Omapkg.Server.Urls
import Omapkg.Server.Resolve
import Omapkg.Server.WorkerProtocol
import Omapkg.Server.FactoryRuns
import Omapkg.Server.FactoryBatches
import Omapkg.Server.FactoryInvariant
import Omapkg.Server.FactoryRepair
import Omapkg.Server.FactoryFence
import Omapkg.Server.Heartbeat
import Omapkg.Server.Signing
import Omapkg.Server.Signer
import Omapkg.Server.SigningInvariant
import Omapkg.Server.Uploads
import Omapkg.Server.UploadsInvariant
import Omapkg.Server.UploadParts
import Omapkg.Server.ImportEntries
import Omapkg.Server.OwnedRepository
import Omapkg.Server.OwnedResume
import Omapkg.Server.OwnedMerge
import Omapkg.Server.OwnedPairs
import Omapkg.Server.Arch
import Omapkg.Server.AbiIndex
import Omapkg.Server.AbiIndexRuns
import Omapkg.Server.AlpmVersion
import Omapkg.Server.VersionOrder
import Omapkg.Server.OutputMetadata
import Omapkg.Server.ArchCovers
import Omapkg.Server.Tar
import Omapkg.Server.Qualification
import Omapkg.Server.QualificationAbi
import Omapkg.Server.QualificationIndex
import Omapkg.Server.QualificationSystems
import Omapkg.Server.AutomaticFactory
import Omapkg.Server.AutomaticInvariant
import Omapkg.Server.UpstreamRelease
import Omapkg.Server.Cohorts
import Omapkg.Server.CanonicalText
import Omapkg.Server.CohortHistory
import Omapkg.Server.CohortRuns
import Omapkg.Server.Reproducibility
import Omapkg.Server.Publication
import Omapkg.Server.PublicationInvariant
import Omapkg.Server.DependencyGraph
import Omapkg.Server.DependencyInvariant
import Omapkg.Server.DependencyRuns
import Omapkg.Server.DependencyBlockers
import Omapkg.Server.Inputs
import Omapkg.Server.InputsInvariant
import Omapkg.Server.InputsRuns
import Omapkg.Server.RebuildPlan
import Omapkg.Server.RebuildGraph
import Omapkg.Server.RebuildMembers
import Omapkg.Server.RebuildGroups
import Omapkg.Client.GoJson
import Omapkg.Client.NumberFields
import Omapkg.Client.GoStruct
import Omapkg.Client.Transaction
import Omapkg.Client.State
import Omapkg.Client.StateFile
import Omapkg.Client.Channels
import Omapkg.Client.Config
import Omapkg.Client.Disk
import Omapkg.Client.Commit
import Omapkg.Client.Url
import Omapkg.Client.Fetch
import Omapkg.Client.Resolve
import Omapkg.Client.ConfigOrder
import Omapkg.Client.Discover
import Omapkg.Client.Apply
import Omapkg.Client.Crash
import Omapkg.Worker.Reproducibility
import Omapkg.Worker.PackageMetadata
import Omapkg.Worker.DependencyBlockers
import Omapkg.Wire.Canonical
import Omapkg.Wire.Reproducibility
import Omapkg.Wire.Relations
import Omapkg.Wire.DependencyBlockers
import Omapkg.Wire.PackageMetadata
import Omapkg.Wire.Manifest
import Omapkg.Wire.Transaction
import Omapkg.Wire.Resolved
import Omapkg.Wire.Urls
import Omapkg.Wire.ReleaseUrls
import Omapkg.Wire.SystemVersion
import Omapkg.Client.ConfigLines
import Omapkg.Client.SigLevel
import Omapkg.Client.StagedConfig
import Omapkg.Server.PacmanDesc
import Omapkg.Server.RepositoryDatabase
import Omapkg.Server.DependencyPlan
import Omapkg.Server.PlanOrder
import Omapkg.Server.RecipeCapture
import Omapkg.Server.RecipeTree
import Omapkg.Server.FinalInputs
import Omapkg.Server.FrozenInputs
import Omapkg.Server.LicenseGrammar
import Omapkg.Client.ImageLock
import Omapkg.Client.LockOrder
import Omapkg.Client.LockFiles
import Omapkg.Client.ReplayRuns
import Omapkg.Server.CohortScope
import Omapkg.Server.ScopeChunks
import Omapkg.Server.RebuildDraft
import Omapkg.Server.CohortMembers
import Omapkg.Server.CohortChanges
import Omapkg.Server.ScopeTexts
import Omapkg.Server.ScopeSeals
import Omapkg.Server.ScopeParts
import Omapkg.Server.ScopeRuns
import Omapkg.Worker.RuntimeDependencies
import Omapkg.Worker.RuntimeClosure
import Omapkg.Wire.RuntimeRelations
import Omapkg.Worker.OutputComparison
import Omapkg.Server.ArchiveSafety
import Omapkg.Server.ArchiveWalks
import Omapkg.Server.SourceArchive
import Omapkg.Server.VendorArchive
import Omapkg.Lib.Pieces
import Omapkg.Server.GitTags
import Omapkg.Server.TagPrecedence
import Omapkg.Server.NewestTag
import Omapkg.Server.QualificationArtifacts
import Omapkg.Wire.OutputContract
import Omapkg.Wire.IssuedContracts
import Omapkg.Wire.BuildLogs
import Omapkg.Server.UpstreamSchedule
import Omapkg.Lib.Sorting
import Omapkg.Server.ReproducedOutputs
import Omapkg.Server.NativeEvidence
import Omapkg.Server.EvidenceRows
import Omapkg.Server.CatalogManifest
import Omapkg.Server.ImportComparison
import Omapkg.Server.ImportReconciliation
import Omapkg.Server.ReconciliationRuns
