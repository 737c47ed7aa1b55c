import Canopy.EvFile
import Canopy.EvMap
import Canopy.EvSave
import Canopy.SmifAck
import Canopy.SmifFields
import Canopy.SmifRoundTrip
import Canopy.EvStats
import Canopy.ChifConsume
import Canopy.ChifCopy
import Canopy.ChifWakeup
import Canopy.ChifWindow
import Canopy.ChifIsolation
import Canopy.ChifAck
import Canopy.SmbiosFile
import Canopy.SmbiosSession
import Canopy.CheckedHandlers
import Canopy.Padding
import Canopy.ChifServices
import Canopy.DaemonStop
import Canopy.ByteField
import Canopy.PlatDef
import Canopy.PlatDefBlob
import Canopy.SegmentRouting
import Canopy.UefiContainment
import Canopy.UefiImage
import Canopy.UefiTermination
import Canopy.I2cPassthrough
import Canopy.PeciXfer
import Canopy.UdcQueue
import Canopy.UmacTx
import Canopy.VideoCapture
import Canopy.VideoBuffers
import Canopy.VideoFrames
import Canopy.PlatDefWalk
import Canopy.PlatDefBundle
import Canopy.SmbiosPrefix
import Canopy.SmbiosVersion
import Canopy.EvSound
import Canopy.I2cProxy
import Canopy.ErrorBackoff
import Canopy.ChifDrain
import Canopy.ChifWriteFail
import Canopy.ExactGuard
import Canopy.UdcControl
import Canopy.ChifFifo
import Canopy.RegThreads
import Canopy.PowerCtrl
import Canopy.SbrmiPower
import Canopy.FanFault
import Canopy.XregIrq
import Canopy.Fn2Irq
import Canopy.ByteLanes
import Canopy.FlexEndpoints
import Canopy.UdcConnect
import Canopy.UdcRetry
import Canopy.UbootUmac
import Canopy.WorkItem
import Canopy.PeciPower
import Canopy.BitMask
import Canopy.RunLog
import Canopy.DescRing
import Canopy.UmacRx
import Canopy.UmacWire
import Canopy.ChifWriteOk
import Canopy.ChifExchange
import Canopy.Unwinding
import Canopy.ServiceIsolation
import Canopy.Observation
import Canopy.SmifObserved
import Canopy.SmifRestart
import Canopy.DaemonMain
import Canopy.RomToBus
import Canopy.PgoodReport
import Canopy.HostPower
import Canopy.BoardEeprom
import Canopy.BoardVpd
import Canopy.UmacNapi
import Canopy.SmbiosLookup
import Canopy.LineCache
import Canopy.UbootUmacRx
import Canopy.UbootUmacFrames
import Canopy.UmacLife
import Canopy.UmacTeardown
import Canopy.MuxListing
