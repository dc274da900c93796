import BackupProgram.Archive.Alignment
import BackupProgram.Archive.ArchiveReader
import BackupProgram.Archive.ArchiveWriter
import BackupProgram.Archive.Filters
import BackupProgram.Archive.RoundTrip
import BackupProgram.Archive.WriterFailures
import BackupProgram.Engine.Archived
import BackupProgram.Engine.BackupEngine
import BackupProgram.Engine.Chain
import BackupProgram.Engine.Deduplication
import BackupProgram.Engine.Dependencies
import BackupProgram.Engine.Discovery
import BackupProgram.Engine.GenerateArchive
import BackupProgram.Engine.GenerateStreams
import BackupProgram.Engine.Generation
import BackupProgram.Engine.Hashes
import BackupProgram.Engine.OldObjects
import BackupProgram.Engine.Outcome
import BackupProgram.Engine.PathMapper
import BackupProgram.Engine.PathMapper.MountPaths
import BackupProgram.Engine.References
import BackupProgram.Engine.RepeatedBackups
import BackupProgram.Engine.RestoreBackup
import BackupProgram.Engine.RestoreBackup.Contents
import BackupProgram.Engine.RestoreBackup.Excluded
import BackupProgram.Engine.RestoreBackup.FillDependencies
import BackupProgram.Engine.RestoreBackup.Loading
import BackupProgram.Engine.RestoreBackup.Objects
import BackupProgram.Engine.RestoreBackup.Streams
import BackupProgram.Engine.RoundTrip
import BackupProgram.Engine.Sessions
import BackupProgram.Engine.Snapshots
import BackupProgram.Engine.Storage
import BackupProgram.Engine.StoredRuns
import BackupProgram.Engine.StreamIds
import BackupProgram.Engine.VersionNumbers
import BackupProgram.Engine.Versions
import BackupProgram.Engine.VolumeSnapshots
import BackupProgram.FileSystem.BasePaths
import BackupProgram.FileSystem.Create
import BackupProgram.FileSystem.Disk
import BackupProgram.FileSystem.FileSystemObject
import BackupProgram.FileSystem.Find
import BackupProgram.Lib.Acyclic
import BackupProgram.Lib.Bisection
import BackupProgram.Lib.Blocks
import BackupProgram.Lib.BoundedQueue
import BackupProgram.Lib.Codec
import BackupProgram.Lib.Comparers
import BackupProgram.Lib.Contributions
import BackupProgram.Lib.Forest
import BackupProgram.Lib.LittleEndian
import BackupProgram.Lib.Loops
import BackupProgram.Lib.Repetition
import BackupProgram.Lib.Results
import BackupProgram.Lib.Schedules
import BackupProgram.Lib.Settling
import BackupProgram.Lib.Spans
import BackupProgram.Lib.StateResults
import BackupProgram.Lib.TextLines
import BackupProgram.Lib.Walk
import BackupProgram.Lib.Worklist
import BackupProgram.Native.ByteByByteReader
import BackupProgram.Native.CircularBuffer
import BackupProgram.Native.CircularBuffer.Queue
import BackupProgram.Native.FileComparer
import BackupProgram.Native.FileComparer.Canonical
import BackupProgram.Native.FileComparer.Checksum
import BackupProgram.Native.FileComparer.Delta
import BackupProgram.Native.FileComparer.Digest
import BackupProgram.Native.FileComparer.DigestThread
import BackupProgram.Native.FileComparer.Gathered
import BackupProgram.Native.FileComparer.Scan
import BackupProgram.Native.FileComparer.Search
import BackupProgram.Native.FileComparer.Window
import BackupProgram.Native.Hardlinks
import BackupProgram.Native.Lzma
import BackupProgram.Native.Lzma.Input
import BackupProgram.Native.Lzma.Output
import BackupProgram.Native.MiscTypes
import BackupProgram.Native.NormalFile
import BackupProgram.Native.Rdiff
import BackupProgram.Native.ReparsePoints
import BackupProgram.Native.RollingChecksum
import BackupProgram.Native.Rsync
import BackupProgram.Native.Rsync.Reads
import BackupProgram.Native.Rsync.Reconstruct
import BackupProgram.Native.Rsync.Seeks
import BackupProgram.Native.Rsync.SparseFile
import BackupProgram.Native.Rsync.Versions
import BackupProgram.Native.RsyncableFile
import BackupProgram.Native.RsyncableFile.BlockSize
import BackupProgram.Native.StreamBlockReader
import BackupProgram.Native.StreamBlockReader.Partition
import BackupProgram.Native.Streams
import BackupProgram.Native.Streams.Bridge
import BackupProgram.Native.Streams.Files
import BackupProgram.Native.TripleSearch
import BackupProgram.Native.TripleSearch.Reads
import BackupProgram.Native.VssSnapshot
import BackupProgram.Streams.InlineHashCalculator
import BackupProgram.Streams.OutputFilters
import BackupProgram.Test1.Archives
import BackupProgram.Test1.BackupSystem
import BackupProgram.Test1.Commands
import BackupProgram.Test1.LineProcessor
import BackupProgram.Test1.Scripts
import BackupProgram.Test1.Settings
import BackupProgram.Util.ListSort
import BackupProgram.Util.LowerBounds
import BackupProgram.Util.Normalization
import BackupProgram.Util.StringUtils
