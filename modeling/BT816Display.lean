import BT816Display.Lib.ByteMemory
import BT816Display.Lib.BigEndian
import BT816Display.Lib.NorFlash
import BT816Display.Lib.RingWindow
import BT816Display.Lib.RingQueue
import BT816Display.Lib.RingLog
import BT816Display.Lib.Runs
import BT816Display.Crc
import BT816Display.Clock
import BT816Display.Zd25Flash
import BT816Display.MessageArchive
import BT816Display.ArchiveSlots
import BT816Display.ArchiveRam
import BT816Display.ArchiveFlash
import BT816Display.ArchiveRun
import BT816Display.ArchiveLog
import BT816Display.ArchiveReopen
import BT816Display.ArchiveLayout
import BT816Display.ArchiveReboot
import BT816Display.ArchiveCrash
import BT816Display.ArchiveClean
import BT816Display.ArchiveClear
import BT816Display.ArchiveResurface
import BT816Display.CanTxStack
import BT816Display.CanTxAccess
import BT816Display.CanTxRing
import BT816Display.CanTxTasks
import BT816Display.Lib.ArrayAccess
import BT816Display.Lib.BlockAccess
import BT816Display.Lib.LoopAccess
import BT816Display.Lib.BitLoop
import BT816Display.TrendData
import BT816Display.TrendReader
import BT816Display.PlcData
import BT816Display.CanRx
import BT816Display.Config
import BT816Display.CanCmd
import BT816Display.PanelAgreement
import BT816Display.PanelRun
import BT816Display.PlcMirror
import BT816Display.IoImage
import BT816Display.LinkStatus
import BT816Display.DiReport
import BT816Display.Lib.LastOccurrence
import BT816Display.UdpLoader
import BT816Display.UdpAssembly
import BT816Display.UdpBounds
import BT816Display.PasswordStore
import BT816Display.Keys
import BT816Display.Menu
import BT816Display.MenuAccess
import BT816Display.VarScreens
import BT816Display.VarCursor
import BT816Display.TrendEdit
import BT816Display.TrendHistory
import BT816Display.Lib.Gregorian
import BT816Display.TimeStamp
import BT816Display.TimeRoundTrip
import BT816Display.DigitEditor
import BT816Display.SetTimeMenu
import BT816Display.Lib.PagedFlash
import BT816Display.RecordCrc
import BT816Display.ConfigHeader
import BT816Display.Zd25Pages
import BT816Display.At45Disk
import BT816Display.ConfigUpload
import BT816Display.ShortFrame
import BT816Display.Lib.SlotList
import BT816Display.TrendConfig
import BT816Display.TrendStorage
import BT816Display.TrendScreens
import BT816Display.TrendPersist
import BT816Display.Lib.WordFields
import BT816Display.DisplayWords
import BT816Display.Lib.WireWords
import BT816Display.Bt816Spi
import BT816Display.Bt816Cmd
import BT816Display.StringCommands
import BT816Display.Lib.Decimal
import BT816Display.Lib.Traced
import BT816Display.FixedPoint
import BT816Display.Mnemo
import BT816Display.MessageConf
import BT816Display.MessageScanner
import BT816Display.ConfigIndices
import BT816Display.IpSetMenu
import BT816Display.VarNumber
import BT816Display.Lib.ReflectedCrc
import BT816Display.CrcRegister
import BT816Display.TrendSanity
import BT816Display.PlcCalculate
import BT816Display.MessageList
import BT816Display.ArchiveText
import BT816Display.ConfigBounds
import BT816Display.TrendEditors
import BT816Display.ArchiveBus
import BT816Display.CanNode
import BT816Display.PanelBus
import BT816Display.Lib.Pager
import BT816Display.AlarmScreens
import BT816Display.CommandStream
import BT816Display.DisplayList
import BT816Display.MnemoScreen
import BT816Display.At45Bus
import BT816Display.FatFile
import BT816Display.FileUpload
