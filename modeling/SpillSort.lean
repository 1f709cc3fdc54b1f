import SpillSort.Disk.Damage
import SpillSort.Feature
import SpillSort.SortKey.Comparator
import SpillSort.MessagePack.Layout
import SpillSort.Spill.Store
import SpillSort.Spill.Calls
import SpillSort.Merge
import SpillSort.Sorter.Basic
import SpillSort.SortedReader
import SpillSort.Table.Reader
import SpillSort.Table.Writer
import SpillSort.Table.Whole
import SpillSort.Command.Run
import SpillSort.Main
import SpillSort.Proofs.CutFiles
import SpillSort.Proofs.SourceLifecycle
import SpillSort.Proofs.Cleanup
import SpillSort.Proofs.EndCleanup
import SpillSort.Proofs.LogFree
import SpillSort.Proofs.Removal
import SpillSort.Proofs.StreamEnding
import SpillSort.Proofs.Peeking
import SpillSort.Proofs.StoreHistory
import SpillSort.Proofs.NumberText
import SpillSort.Proofs.TextCuts
import SpillSort.Proofs.GeometryText
import SpillSort.Proofs.RecordText
import SpillSort.Proofs.RecordWriting
import SpillSort.Proofs.TableRoundTrip
import SpillSort.Proofs.ItemReading
import SpillSort.Proofs.LayoutReading
import SpillSort.Proofs.KeyOrder
import SpillSort.Proofs.Memory
import SpillSort.Proofs.Saving
import SpillSort.Proofs.TableReading
import SpillSort.Proofs.CommandRun
import SpillSort.Proofs.CommandCleanup
import SpillSort.Proofs.ParsedValues
import SpillSort.Proofs.Resorting
import SpillSort.Sorter.Pool
import SpillSort.Proofs.Footprint
import SpillSort.Proofs.Twins
import SpillSort.Proofs.TwinSorting
import SpillSort.Proofs.SideBySide
import SpillSort.Proofs.MergeSteps
import SpillSort.Proofs.MergeOutput
import SpillSort.Proofs.RunPartition
import SpillSort.Proofs.SortRefusal
import SpillSort.Proofs.RunLifetime
import SpillSort.Proofs.LiveRuns
import SpillSort.Proofs.ContentReading
import SpillSort.Proofs.StoredRecords
import SpillSort.Proofs.Reordering
import SpillSort.Proofs.TableRows
import SpillSort.Proofs.TableAnswers
import SpillSort.Proofs.LineNumbers
import SpillSort.Proofs.TableCopy
import SpillSort.Proofs.KeyText
import SpillSort.Proofs.Feasibility
import SpillSort.Proofs.Disposal
import SpillSort.Proofs.FrontierHistory
