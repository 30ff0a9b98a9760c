import AsioChat.Lib.Machine
import AsioChat.Lib.Gather
import AsioChat.Lib.Wire
import AsioChat.Lib.Pool
import AsioChat.Framing
import AsioChat.Receiver
import AsioChat.SendRuns
import AsioChat.CrcRace
import AsioChat.ServerSlots
import AsioChat.ServerSessions
import AsioChat.ServerNames
import AsioChat.Broadcast
import AsioChat.HeaderCheck
import AsioChat.HeaderDamage
import AsioChat.Reuse
import AsioChat.OverLong
import AsioChat.InFlight
import AsioChat.ClientLogin
import AsioChat.Conversation
import AsioChat.Unparsed
import AsioChat.Resume
import AsioChat.ChatRoom
import AsioChat.ClientLines
import AsioChat.System
import AsioChat.Delivery
import AsioChat.Integrity
import AsioChat.Faults
import AsioChat.SystemFaults
import AsioChat.ClientLock
import AsioChat.Drains
import AsioChat.Isolation
import AsioChat.Agreement
import AsioChat.Silence
import AsioChat.Accepted
