import Speakeasy.CrackedUrls
import Speakeasy.VersionQueries
import Speakeasy.VersionTrees
import Speakeasy.Base64Texts
import Speakeasy.DataProtection
import Speakeasy.ArgvBlocks
import Speakeasy.CommandLines
import Speakeasy.StringTableLaw
import Speakeasy.MappedImages
import Speakeasy.ImageChecksum
import Speakeasy.PagePermissionRuns
import Speakeasy.RegionScans
import Speakeasy.StringSearchLaw
import Speakeasy.StringSearches
import Speakeasy.CaseFolding
import Speakeasy.PathApis
import Speakeasy.AesStreams
import Speakeasy.AesRuns
import Speakeasy.AesLaw
import Speakeasy.AesChunks
import Speakeasy.AesCalls
import Speakeasy.BlockModes
import Speakeasy.DelayImports
import Speakeasy.ImportSlots
import Speakeasy.HardwareBreakpoints
import Speakeasy.EnumServicePages
import Speakeasy.EnumServices
import Speakeasy.Md5Runs
import Speakeasy.CryptRuns
import Speakeasy.CryptKeys
import Speakeasy.CodePageLaw
import Speakeasy.CodePageCalls
import Speakeasy.RegistryDispositions
import Speakeasy.RegistryNavigation
import Speakeasy.RegistryJoins
import Speakeasy.RegistryCalls
import Speakeasy.FileTimeLaw
import Speakeasy.FileTimes
import Speakeasy.GregorianCalendar
import Speakeasy.CountedStringExact
import Speakeasy.CountedStringTexts
import Speakeasy.CountedStringWrites
import Speakeasy.CountedStrings
import Speakeasy.DeviceListRuns
import Speakeasy.DeviceList
import Speakeasy.ProcessInfo
import Speakeasy.AtomReplies
import Speakeasy.AtomTable
import Speakeasy.PointerProbes
import Speakeasy.VersionInfo
import Speakeasy.BoundedFormatLaw
import Speakeasy.BoundedFormats
import Speakeasy.SecureWriterLaw
import Speakeasy.PathWriters
import Speakeasy.SecurePaths
import Speakeasy.PathParts
import Speakeasy.SecureWriters
import Speakeasy.WideStringRuns
import Speakeasy.WideStringLaw
import Speakeasy.WideStrings
import Speakeasy.GuestStrings
import Speakeasy.CodeUnits
import Speakeasy.IntegerTextLaw
import Speakeasy.IntegerTexts
import Speakeasy.OnexitRuns
import Speakeasy.OnexitSteps
import Speakeasy.OnexitTables
import Speakeasy.SortElements
import Speakeasy.MergeRuns
import Speakeasy.EnvExpansion
import Speakeasy.EnvStrings
import Speakeasy.CrtRuns
import Speakeasy.CrtTableLaw
import Speakeasy.CrtDescriptors
import Speakeasy.GuardRuns
import Speakeasy.GuardFrees
import Speakeasy.GuardPages
import Speakeasy.PageExactness
import Speakeasy.RelocationTwice
import Speakeasy.RelocationRuns
import Speakeasy.RelocationSteps
import Speakeasy.RelocateImage
import Speakeasy.ForwarderLaw
import Speakeasy.ExportForwarders
import Speakeasy.VisitedChains
import Speakeasy.WininetLaw
import Speakeasy.WininetObjects
import Speakeasy.Forests
import Speakeasy.X87Registers
import Speakeasy.BinaryFloats
import Speakeasy.InitializerRuns
import Speakeasy.LoadInitializers
import Speakeasy.MsvcChains
import Speakeasy.MsvcFrames
import Speakeasy.ScopeUnwinds
import Speakeasy.ScopeTables
import Speakeasy.ExceptionFlags
import Speakeasy.Generators
import Speakeasy.FormatArguments
import Speakeasy.StrFormat
import Speakeasy.Backtracking
import Speakeasy.SigPadding
import Speakeasy.ArgFormatter
import Speakeasy.FuncArgs
import Speakeasy.GdbErrors
import Speakeasy.GdbSlots
import Speakeasy.GdbBreakpointRuns
import Speakeasy.GdbBreakpoints
import Speakeasy.IntervalMerges
import Speakeasy.GdbXfer
import Speakeasy.GdbFrames
import Speakeasy.ChunkedReads
import Speakeasy.PyBytes
import Speakeasy.NetEvents
import Speakeasy.RecordedOnce
import Speakeasy.StreamRefinement
import Speakeasy.CrtStreams
import Speakeasy.UnwindChains
import Speakeasy.UnwindPrologs
import Speakeasy.UnwindReadBounds
import Speakeasy.UnwindInfo
import Speakeasy.UnwindEncoding
import Speakeasy.LoggedReads
import Speakeasy.DirectoryRuns
import Speakeasy.Directories
import Speakeasy.ClosureLoops
import Speakeasy.SharedFileRuns
import Speakeasy.StringScans
import Speakeasy.RunScans
import Speakeasy.ApiHookLookups
import Speakeasy.ApiHooks
import Speakeasy.GroupedLists
import Speakeasy.OrderedDict
import Speakeasy.ObjectRuns
import Speakeasy.ObjectManager
import Speakeasy.FoldRuns
import Speakeasy.RangeScans
import Speakeasy.RegistrySpellings
import Speakeasy.CallbackLaw
import Speakeasy.CallbackStacks
import Speakeasy.GuestCallbacks
import Speakeasy.GdbRuns
import Speakeasy.GdbSteps
import Speakeasy.GdbServer
import Speakeasy.GdbCommands
import Speakeasy.FileViewLaw
import Speakeasy.FileViewMaps
import Speakeasy.FileViews
import Speakeasy.FileMapping
import Speakeasy.DriverCoverageRuns
import Speakeasy.DriverReturns
import Speakeasy.DriverCoverage
import Speakeasy.ListSearch
import Speakeasy.DriverRuns
import Speakeasy.FileRuns
import Speakeasy.FileStore
import Speakeasy.FileManager
import Speakeasy.ThreadRuns
import Speakeasy.ProfilerReports
import Speakeasy.ProfilerEvents
import Speakeasy.HandleConsistency
import Speakeasy.HandleTables
import Speakeasy.ApiImageRoundTrip
import Speakeasy.ApiImageMemory
import Speakeasy.ExportTables
import Speakeasy.ExportOrdinals
import Speakeasy.ApiImageReads
import Speakeasy.ApiImage
import Speakeasy.LoadedImage
import Speakeasy.PeExports
import Speakeasy.ApiRegistryRuns
import Speakeasy.ApiRegistrySteps
import Speakeasy.ApiRegistry
import Speakeasy.RegistryDeletes
import Speakeasy.RegistryMap
import Speakeasy.RegistryManager
import Speakeasy.RegistryPaths
import Speakeasy.Glob
import Speakeasy.LoaderRuns
import Speakeasy.LoaderRings
import Speakeasy.LoaderLists
import Speakeasy.MemoryRuns
import Speakeasy.ByteMemory
import Speakeasy.LinkedRing
import Speakeasy.ProtectionReports
import Speakeasy.VirtualQueryPartition
import Speakeasy.BlockLayout
