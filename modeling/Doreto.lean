import Doreto.Lib.CString
import Doreto.Lib.Overlay
import Doreto.Lib.Run
import Doreto.Lib.MessagePipe
import Doreto.Lib.QuotaQueue
import Doreto.Lib.Separated
import Doreto.Lib.Ledger
import Doreto.Lib.Cleanup
import Doreto.Lib.StructLayout
import Doreto.Lib.Progress
import Doreto.Lib.Threads
import Doreto.Lib.RelyGuarantee
import Doreto.Lib.RoutedEvent
import Doreto.Lib.GroupPattern
import Doreto.Lib.QueryString
import Doreto.Lib.PercentEncoding
import Doreto.Interop.Transparency
import Doreto.Interop.Mirroring
import Doreto.Interop.SlowClient
import Doreto.Interop.Dispatch
import Doreto.Interop.SocketLookup
import Doreto.Interop.HandleLedger
import Doreto.Interop.TableSize
import Doreto.Interop.History
import Doreto.Interop.PipeServer
import Doreto.Interop.ScanBounds
import Doreto.Interop.ConnectedFlag
import Doreto.Interop.Reconnection
import Doreto.Interop.Conservation
import Doreto.Interop.Recovery
import Doreto.Interop.Interleavings
import Doreto.Interop.Atomicity
import Doreto.Interop.RememberedServer
import Doreto.Interop.Framing
import Doreto.Interop.Routing
import Doreto.Interop.ByteStream
import Doreto.Interop.ShortSends
import Doreto.Interop.OpenedSockets
import Doreto.Wpf.ScrollViewerFixBehavior
import Doreto.Wpf.ScrollSequence
import Doreto.Wpf.HandOver
import Doreto.Wpf.FixScrolling
import Doreto.Wpf.ProcessedOnce
import Doreto.Wpf.Notification
import Doreto.Proxy.DofusProxyServer
import Doreto.Proxy.QueryParameters
import Doreto.Proxy.HaapiHost
import Doreto.Proxy.Restart
import Doreto.Native.LoadedProcess
import Doreto.DofusClient.CharacterRegistrator
