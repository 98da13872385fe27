import LayerSdk.PeekBatch
import LayerSdk.VoteBatch
import LayerSdk.VerifyCert
import LayerSdk.LcLifeCycle
import LayerSdk.Anchor
import LayerSdk.FinalityBackfill
import LayerSdk.SubMsgGas
import LayerSdk.SignBinding
import LayerSdk.SnapshotExport
import LayerSdk.SigLog
import LayerSdk.SeatEvidence
import LayerSdk.RelayAdmission
import LayerSdk.Relayer
import LayerSdk.MergeIter
import LayerSdk.Backends
import LayerSdk.IbcRun
import LayerSdk.Certify
import LayerSdk.PackageSpec
import LayerSdk.SeatHistory
import LayerSdk.SeatMembers
import LayerSdk.RootContract
import LayerSdk.PendingBuffer
import LayerSdk.Genesis
import LayerSdk.TxResults
import LayerSdk.CertifiedDigests
import LayerSdk.FastHash
import LayerSdk.Archive
import LayerSdk.HeightBackfill
