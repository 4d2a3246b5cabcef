import FullhanRtos.Ipc.Priority
import FullhanRtos.Ipc.WaitOrder
import FullhanRtos.Ipc.Ownership
import FullhanRtos.Ipc.MemPool
import FullhanRtos.Ipc.Completion
import FullhanRtos.Ipc.Teardown
import FullhanRtos.Timers.SoftCheck
import FullhanRtos.Timers.Thread
import FullhanRtos.Uvc.Stream
import FullhanRtos.Usb.ControlRead
import FullhanRtos.Uac.MicSamples
import FullhanRtos.Uac.Speaker
import FullhanRtos.Uvc.ControlEvents
import FullhanRtos.Uvc.Advertised
import FullhanRtos.Udisk.Runs
import FullhanRtos.Dma.Blocks
import FullhanRtos.Loader.Capacity
import FullhanRtos.Pes.Runs
import FullhanRtos.Rtsp.Clients
import FullhanRtos.Record.Runs
import FullhanRtos.Dma.Memory
import FullhanRtos.Utilities.DataQueue
import FullhanRtos.Utilities.RingBlocks
import FullhanRtos.Utilities.Workqueue
import FullhanRtos.Block.Data
import FullhanRtos.Uvc.SdRecord
import FullhanRtos.Uvc.YuvBuffers
import FullhanRtos.Uvc.Extern
import FullhanRtos.Uvc.InfoSettings
import FullhanRtos.Platform.Pinctrl
import FullhanRtos.Flash.Fal
import FullhanRtos.Trace.Runlog
import FullhanRtos.Time.Drift
import FullhanRtos.Time.Readers
import FullhanRtos.Kservice.Bounds
import FullhanRtos.Pes.ProgramMap
import FullhanRtos.Dfs.Files
import FullhanRtos.Dfs.Mounts
import FullhanRtos.Motion.Bounds
import FullhanRtos.Scaler.Transform
import FullhanRtos.Scaler.Sampling
import FullhanRtos.Avi.Index
import FullhanRtos.Avi.Conversion
import FullhanRtos.Uvc.ParameterSets
import FullhanRtos.Usb.FlashAccess
import FullhanRtos.Uvc.Exposure
import FullhanRtos.Osd.Focus
import FullhanRtos.Time.Rtc
import FullhanRtos.Utilities.PipeWrite
import FullhanRtos.Utilities.ForcedPut
import FullhanRtos.Usb.CrcTable
import FullhanRtos.Dfs.FdNew
import FullhanRtos.Dfs.Select
import FullhanRtos.Rtsp.Base64
import FullhanRtos.Slab.Contents
import FullhanRtos.Slab.FreeRuns
import FullhanRtos.Timers.HardCheck
