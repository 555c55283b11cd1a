import TPBench.CFile.Bytes
import TPBench.CFile.Stream
import TPBench.Conc.Runs
import TPBench.Raf.Types
import TPBench.Raf.RecordIO
import TPBench.Raf.Entry
import TPBench.Raf.Domains
import TPBench.Raf.Patch
import TPBench.Raf.Link
import TPBench.Raf.TaskTaglink
import TPBench.Raf.TbatchTaglink
import TPBench.Autorecord
import TPBench.Raf.Rtenv
import TPBench.Raf.RtenvDerive
import TPBench.Rtenv.Agree
import TPBench.Conc.Progs
import TPBench.Rtenv.Steps
import TPBench.Rtenv.Unique
import TPBench.Rtenv.Updates
import TPBench.Capped
import TPBench.Rtenv.MergeRecord
import TPBench.Rtenv.Written
import TPBench.Rtenv.Merge
import TPBench.CFile.Fields
import TPBench.Task.Csv
import TPBench.Task.Select
import TPBench.CFile.Segments
import TPBench.Rtenv.Snapshot
import TPBench.Task.Columns
import TPBench.Task.ExportEnv
import TPBench.Task.Export
import TPBench.Task.ExportBooks
import TPBench.CFile.Lines
import TPBench.Task.Ls
import TPBench.Conc.Spmd
import TPBench.Mpi.Capsule
import TPBench.CapsuleShm
import TPBench.Cli.Argp
import TPBench.Cli.Command
import TPBench.Raf.RtenvChildren
import TPBench.Cli.ArgRuns
import TPBench.Task.Samples
import TPBench.Kernel.Names
import TPBench.Kernel.Outputs
import TPBench.Kernel.TaskRecord
import TPBench.Rtenv.Load
import TPBench.Raf.KernelMeta
import TPBench.Keyed
import TPBench.Rtenv.Chain
import TPBench.CFile.Sized
import TPBench.Hash.Blocks
import TPBench.Hash.Sha1
import TPBench.Raf.GenIds
import TPBench.Raf.NdimBounds
import TPBench.CFile.Marks
import TPBench.Kernel.TagSets
import TPBench.Raf.KvText
import TPBench.Raf.PeekMagics
import TPBench.Kernel.TaskIds
import TPBench.Rtenv.NewArgv
import TPBench.Rtenv.PayloadRoom
import TPBench.Kernel.SnapshotBlobs
import TPBench.Rtenv.TemplateFields
import TPBench.Rtenv.TemplateText
import TPBench.Rtenv.TemplateTrip
import TPBench.Cli.Chains
import TPBench.Cli.Combos
import TPBench.CFile.Double
import TPBench.CFile.Printf
import TPBench.Cli.CheckKargs
import TPBench.Cli.Flush
import TPBench.Cli.ListValues
import TPBench.Cli.Rejected
import TPBench.Cli.RunPli
import TPBench.Bench.Kargs
import TPBench.Bench.Score
import TPBench.Calendar
import TPBench.Raf.Config
import TPBench.Task.Filter
import TPBench.Task.MetaCell
import TPBench.Task.ReportBuffers
import TPBench.Task.DataColumns
import TPBench.Task.DataTable
import TPBench.Bench.Metrics
import TPBench.Cli.Binds
import TPBench.Log.Wrap
import TPBench.Rtenv.ShellQuote
import TPBench.Task.NameList
import TPBench.Task.MemberFilter
import TPBench.Kernel.KernelRecord
import TPBench.Cli.CommandTrip
import TPBench.Paired
import TPBench.Versions
import TPBench.Kernel.Versions
import TPBench.Kernel.Current
import TPBench.Kernel.Get
import TPBench.Mpi.Calls
import TPBench.Mpi.Logical
import TPBench.Task.Log
import TPBench.Batch
import TPBench.Bench.Yaml
import TPBench.Bench.YamlText
import TPBench.Bench.YamlLoad
import TPBench.Raf.Scan
import TPBench.Task.Selection
import TPBench.Task.ExportFiles
import TPBench.Mpi.Exported
import TPBench.Conc.Faults
import TPBench.Lineage
import TPBench.Rtenv.Shell
