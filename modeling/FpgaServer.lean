import FpgaServer.SessionReads
import FpgaServer.Announcements
import FpgaServer.RequestAnswer
import FpgaServer.DeviceServer
import FpgaServer.ManagerOpen
import FpgaServer.Hotplug
import FpgaServer.DevicePasses
import FpgaServer.Shutdown
import FpgaServer.DeviceList
import FpgaServer.ClientRegisters
import FpgaServer.TrackedHistory
import FpgaServer.WritePayload
import FpgaServer.Removal
import FpgaServer.OversizeMessage
import FpgaServer.Arrivals
import FpgaServer.ClientDevices
import FpgaServer.Config
import FpgaServer.RawWrites
import FpgaServer.ProgrammerHandles
import FpgaServer.ProgramDevice
import FpgaServer.Buffers
import FpgaServer.ChainCable
import FpgaServer.TapRoutes
import FpgaServer.Pauses
import FpgaServer.Packets
import FpgaServer.FtdiDevice
import FpgaServer.BitFormat
