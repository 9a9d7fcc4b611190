import NetCamera.Lib.Run
import NetCamera.Lib.Buf
import NetCamera.Lib.CString
import NetCamera.Lib.NorFlash
import NetCamera.Lib.Tally
import NetCamera.Lib.BlockMap
import NetCamera.Lib.JpegFormat
import NetCamera.Lib.TwoWire
import NetCamera.Lib.Calls
import NetCamera.Lib.PrioSet
import NetCamera.Lib.Ring
import NetCamera.Lib.Chunks
import NetCamera.Lib.Tiling
import NetCamera.Lib.Links
import NetCamera.Params
import NetCamera.Flash
import NetCamera.FlashWrite
import NetCamera.Store
import NetCamera.RamFrame
import NetCamera.KeyTask
import NetCamera.KeyPress
import NetCamera.Malloc
import NetCamera.Realloc
import NetCamera.NetStart
import NetCamera.EthMem
import NetCamera.Jpeg
import NetCamera.JpegWalk
import NetCamera.JpegHuffman
import NetCamera.JpegQuant
import NetCamera.Sccb
import NetCamera.Ucos
import NetCamera.SysArch
import NetCamera.Timers
import NetCamera.Rtos.Kernel
import NetCamera.Rtos.Services
import NetCamera.Rtos.Invariant
import NetCamera.Rtos.Calls
import NetCamera.Rtos.Sched
import NetCamera.Rtos.Delivery
import NetCamera.Rtos.Mailbox
import NetCamera.Rtos.Thread
import NetCamera.Rtos.ThreadEvents
import NetCamera.Rtos.ThreadRun
import NetCamera.Protocol.Scan
import NetCamera.Protocol.Handlers
import NetCamera.Protocol.Poll
import NetCamera.Protocol.Frame
import NetCamera.Protocol.Ack
import NetCamera.Protocol.Grammar
import NetCamera.Protocol.Residue
import NetCamera.Protocol.Elements
import NetCamera.Protocol.ScanTrace
import NetCamera.Protocol.Positions
import NetCamera.Protocol.Malformed
import NetCamera.Protocol.Ranges
import NetCamera.Protocol.Bounds
import NetCamera.Boot
import NetCamera.Server.Step
import NetCamera.Server.Reassembly
import NetCamera.Server.Replies
import NetCamera.Server.AckLength
import NetCamera.Server.Capture
import NetCamera.Server.Stream
import NetCamera.Server.SetGet
import NetCamera.Server.Tuning
import NetCamera.Server.Resources
import NetCamera.Server.Dead
import NetCamera.Server.Image
import NetCamera.Server.Holes
import NetCamera.Eth.Transmit
import NetCamera.Eth.Wire
import NetCamera.Eth.Receive
import NetCamera.Eth.Taken
import NetCamera.Lwip.Mem
import NetCamera.Lwip.Blocks
import NetCamera.Lwip.Release
import NetCamera.Lwip.Arena
import NetCamera.Lwip.Pbuf
import NetCamera.Lwip.Owners
import NetCamera.Lwip.TotLen
