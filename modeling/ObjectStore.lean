import ObjectStore.Json.Records
import ObjectStore.Proofs.Absences
import ObjectStore.Proofs.AlteredObjects
import ObjectStore.Proofs.BuiltWalk
import ObjectStore.Proofs.CachedCalls
import ObjectStore.Proofs.CheckWords
import ObjectStore.Proofs.DraftedNodes
import ObjectStore.Proofs.FaultFree
import ObjectStore.Proofs.LatestCheckpoint
import ObjectStore.Proofs.NewestSuperblock
import ObjectStore.Proofs.NodeEntries
import ObjectStore.Proofs.NodePlaces
import ObjectStore.Proofs.NodesAsOf
import ObjectStore.Proofs.Resolved
import ObjectStore.Proofs.TreeSearch
import ObjectStore.Tree.Table
import ObjectStore.Proofs.RecordParts
import ObjectStore.Proofs.RecordFormats
import ObjectStore.Proofs.FixedRecords
import ObjectStore.Proofs.SuperblockFormat
import ObjectStore.Proofs.MapBlockFormat
import ObjectStore.Proofs.BlockwiseReads
import ObjectStore.Proofs.Capacity
import ObjectStore.Proofs.BlamedBlocks
import ObjectStore.Proofs.BlockSizes
import ObjectStore.Proofs.RingAddresses
import ObjectStore.Proofs.ImagePuts
import ObjectStore.Proofs.MapOpenings
import ObjectStore.Proofs.WordWrites
