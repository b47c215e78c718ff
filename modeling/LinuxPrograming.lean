import LinuxPrograming.Lib.Run
import LinuxPrograming.Lib.Simulation
import LinuxPrograming.Lib.Heap
import LinuxPrograming.Lib.Queue
import LinuxPrograming.Lib.Finish
import LinuxPrograming.Lib.Mutex
import LinuxPrograming.Lib.Block
import LinuxPrograming.Gateway.Net
import LinuxPrograming.Gateway.Window
import LinuxPrograming.Gateway.Registered
import LinuxPrograming.Gateway.OsListQueue
import LinuxPrograming.Gateway.HandoffProgress
import LinuxPrograming.Gateway.HandoffPayload
import LinuxPrograming.Gateway.Buffers
import LinuxPrograming.Gateway.FdbRecovery
import LinuxPrograming.Gateway.ThreadsProgress
import LinuxPrograming.Gateway.ThreadsHandoff
import LinuxPrograming.Gateway.Select
import LinuxPrograming.Gateway.DebugLogFile
import LinuxPrograming.Gateway.Encode
import LinuxPrograming.Gateway.Pipe
import LinuxPrograming.Driver.ByteFile
import LinuxPrograming.Gateway.MsgRecord
import LinuxPrograming.Gateway.Report
import LinuxPrograming.Gateway.OsFile
import LinuxPrograming.Gateway.Search
import LinuxPrograming.Gateway.Sort
import LinuxPrograming.Wpa.Psk
import LinuxPrograming.FileServer.Delivery
import LinuxPrograming.Cjson.Literal
import LinuxPrograming.Cjson.RoundTrip
import LinuxPrograming.Eloop.Timeouts
import LinuxPrograming.Eloop.Sockets
import LinuxPrograming.Eloop.Sleeping
import LinuxPrograming.Cjson.Edit
import LinuxPrograming.Cjson.Editor
import LinuxPrograming.Gateway.RoomMemory
import LinuxPrograming.Gateway.MsgMemory
