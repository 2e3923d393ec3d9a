import Noxtor.Lib.ByteString
import Noxtor.Lib.NoiseSpec
import Noxtor.Lib.FrameStream
import Noxtor.Common
import Noxtor.Noise.Cipher
import Noxtor.Noise.Symmetric
import Noxtor.Noise.Handshake
import Noxtor.Noise.Success
import Noxtor.Noise.Turns
import Noxtor.Noise.Transport
import Noxtor.Noise.Agreement
import Noxtor.Noise.Refinement
import Noxtor.Noise.NonceUse
import Noxtor.Noise.Forgeries
import Noxtor.Noise.HandshakeObject
import Noxtor.App.Types
import Noxtor.App.Frame
import Noxtor.App.Onion
import Noxtor.App.StateMachine
import Noxtor.App.Sending
import Noxtor.App.FileTransfer
import Noxtor.App.PeerFrames
import Noxtor.App.ProcessLine
import Noxtor.App.EventLoop
import Noxtor.App.Lifecycle
import Noxtor.App.SlotMoves
import Noxtor.App.FrameMoves
import Noxtor.App.World
import Noxtor.App.Answers
import Noxtor.App.EventMoves
import Noxtor.App.SlotCoherence
import Noxtor.App.TofuHistory
import Noxtor.App.TofuBinding
import Noxtor.App.PeerAuthentication
import Noxtor.App.TransmitStream
import Noxtor.App.ReceiveSide
import Noxtor.App.FrameTurns
import Noxtor.App.ReceiveLockstep
import Noxtor.App.RecordIntegrity
import Noxtor.App.Chunking
import Noxtor.App.SlotTrace
import Noxtor.App.TofuBuffer
import Noxtor.App.FailClosed
import Noxtor.App.Deeds
import Noxtor.App.SlotDeeds
import Noxtor.App.FrameDeeds
import Noxtor.App.EventDeeds
import Noxtor.App.LineDeeds
import Noxtor.App.PinnedKeys
import Noxtor.Lib.LabelledRun
import Noxtor.Lib.Table
import Noxtor.Lib.Utf8
import Noxtor.Lib.Positional
import Noxtor.App.Segmentation
import Noxtor.Db.Database
import Noxtor.Db.SegmentedQueue
import Noxtor.Db.QueueHistory
import Noxtor.Db.RecordBinding
import Noxtor.Db.AddContact
import Noxtor.Db.Handover
import Noxtor.Lib.Newest
import Noxtor.Db.History
import Noxtor.App.DatabaseRun
import Noxtor.App.QueueConfidentiality
import Noxtor.App.ActivePeer
import Noxtor.Lib.Directory
import Noxtor.App.ReceivedFiles
import Noxtor.App.InitiatorIdentity
import Noxtor.App.TorDeath
import Noxtor.App.FileNames
import Noxtor.App.OnionAddress
import Noxtor.App.MsgRouting
import Noxtor.Boot.FirstRun
import Noxtor.Lib.StagedFile
import Noxtor.Boot.KeyFiles
import Noxtor.Boot.CleanKeys
import Noxtor.Lib.SizeArith
import Noxtor.Boot.Arena
import Noxtor.Boot.ArenaRuns
import Noxtor.Lib.CallFilter
import Noxtor.Boot.Seccomp
import Noxtor.Ui.StripAnsi
import Noxtor.Ui.StripUtf8
import Noxtor.Ui.Incoming
import Noxtor.Ui.LineEditor
import Noxtor.Ui.ChatRows
import Noxtor.Net.ControlReply
import Noxtor.Net.Socks5
import Noxtor.Lib.FixedWindow
import Noxtor.App.Budgets
import Noxtor.App.BudgetLoop
import Noxtor.App.RateLimit
import Noxtor.Lib.FileTree
import Noxtor.Net.StaleDirs
import Noxtor.Net.StaleRemoval
import Noxtor.App.FileSender
import Noxtor.App.FileReceiver
import Noxtor.App.FileRoundTrip
import Noxtor.App.Conversation
import Noxtor.App.HonestHandshake
import Noxtor.App.FirstContact
