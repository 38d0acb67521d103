import TfmExtras.Etss.FlashFs
import TfmExtras.Lib.Tiling
import TfmExtras.DelegatedAttest.BootState
import TfmExtras.Etss.Layout
import TfmExtras.Etss.Image
import TfmExtras.Etss.Reads
import TfmExtras.Etss.Staging
import TfmExtras.Etss.StageMeta
import TfmExtras.Etss.StageData
import TfmExtras.Etss.Header
import TfmExtras.Etss.Commit
import TfmExtras.Etss.Mounted
import TfmExtras.Etss.DeleteStep
import TfmExtras.Etss.WritePlan
import TfmExtras.Etss.WriteStep
import TfmExtras.Etss.Update
import TfmExtras.Etss.Delete
import TfmExtras.Etss.Write
import TfmExtras.Etss.Mount
import TfmExtras.Etss.Wipe
import TfmExtras.Etss.Committed
import TfmExtras.Etss.Store
import TfmExtras.Etss.LayoutInv
import TfmExtras.Etss.CopyOnWrite
import TfmExtras.Etss.DeleteFrame
import TfmExtras.Etss.WriteFrame
import TfmExtras.Etss.EraseFirst
import TfmExtras.Etss.NewestBlock
import TfmExtras.Etss.Upgrade
import TfmExtras.Lib.Ipc
import TfmExtras.MeasuredBoot.Service
import TfmExtras.MeasuredBoot.SlotFold
import TfmExtras.MeasuredBoot.SlotRun
import TfmExtras.DelegatedAttest.Binding
import TfmExtras.Etss.Service
import TfmExtras.DelegatedAttest.Service
import TfmExtras.Etss.Traffic
import TfmExtras.MeasuredBoot.Traffic
import TfmExtras.DelegatedAttest.Traffic
import TfmExtras.Partitions
import TfmExtras.Lib.FlashFault
import TfmExtras.Etss.FirstError
import TfmExtras.Etss.Coherent
import TfmExtras.Etss.UpdateFault
import TfmExtras.Etss.CallFault
import TfmExtras.Etss.CrashAtomic
import TfmExtras.Etss.Requests
import TfmExtras.Etss.Sufficient
import TfmExtras.SecureFlash.Access
import TfmExtras.SecureFlash.Chunks
import TfmExtras.SecureFlash.Storage
import TfmExtras.SecureFlash.Sessions
import TfmExtras.SecureFlash.Init
import TfmExtras.Etss.WipeCrash
import TfmExtras.Etss.ErrorKeeps
import TfmExtras.Etss.WriteSizes
import TfmExtras.Etss.RequestFault
import TfmExtras.Etss.LookupFault
import TfmExtras.Etss.SetAsset
import TfmExtras.Etss.GetAsset
import TfmExtras.Etss.SetFault
import TfmExtras.Etss.SetAtomic
import TfmExtras.Etss.FlushOrder
import TfmExtras.Etss.FlushWrite
import TfmExtras.Etss.FlushProtocol
import TfmExtras.Etss.RandomNumber
import TfmExtras.MeasuredBoot.BootData
import TfmExtras.MeasuredBoot.ExtendRun
import TfmExtras.MeasuredBoot.FailedExtend
import TfmExtras.MeasuredBoot.SignerCheck
import TfmExtras.MeasuredBoot.Client
import TfmExtras.DelegatedAttest.FailedKey
import TfmExtras.Vad.Partition
import TfmExtras.Vad.Recording
import TfmExtras.Etss.AssetMap
import TfmExtras.Etss.Startup
import TfmExtras.Etss.WriteOnce
import TfmExtras.Vad.Timeout
import TfmExtras.Lib.Programmed
import TfmExtras.Etss.NewImage
import TfmExtras.Etss.Settled
import TfmExtras.Etss.StartFault
import TfmExtras.Lib.AnyReply
import TfmExtras.Lib.Noted
import TfmExtras.Etss.Calc
import TfmExtras.Etss.Inside
import TfmExtras.Etss.TableFits
import TfmExtras.Etss.Validated
import TfmExtras.Etss.AnyTables
import TfmExtras.Lib.Watched
import TfmExtras.Etss.InUse
import TfmExtras.Etss.ResumeSafe
import TfmExtras.Etss.MountSafe
import TfmExtras.Lib.I2c
import TfmExtras.Vad.I2cSbcon
import TfmExtras.Vad.I2cTransfers
import TfmExtras.Vad.AudioI2s
import TfmExtras.Vad.AudioCodec
import TfmExtras.Lib.Driver
import TfmExtras.SecureFlash.BlockDriver
import TfmExtras.Etss.Alike
import TfmExtras.Etss.OnBoard
import TfmExtras.Lib.PowerLoss
import TfmExtras.SecureFlash.PowerLoss
import TfmExtras.Etss.CutStates
import TfmExtras.Etss.CutRequest
import TfmExtras.Etss.PowerCycles
