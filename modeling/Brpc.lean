import Brpc.Controller.Settled
import Brpc.Combo.ParallelOnce
import Brpc.Combo.SelectiveOnce
import Brpc.Messenger.Client
import Brpc.Messenger.Fragmentation
import Brpc.Messenger.Flushed
import Brpc.FlatMap.Refine
import Brpc.Http2.Fragments
import Brpc.Http2.Packed
import Brpc.Http2.SettingsAgree
import Brpc.Http2.WindowsLegal
import Brpc.Http2.Credit
import Brpc.Http2.CreditReturned
import Brpc.Http2.FrameSkipped
import Brpc.Socket.WriteCorrect
import Brpc.SocketRef.Recycled
import Brpc.Bthread.WorkStealingCorrect
import Brpc.Stream.Adaptive
import Brpc.Redis.Fragments
import Brpc.Redis.RoundTrip
import Brpc.Redis.CommandStream
import Brpc.Recordio.RoundTrip
import Brpc.Recordio.Recovery
import Brpc.DoublyBuffered.Stable
import Brpc.Bthread.Tagged
import Brpc.BthreadId.WakeUps
import Brpc.Bthread.PthreadModeCorrect
import Brpc.Butex.Unblocked
import Brpc.Lalb.Select
import Brpc.LoadBalancer.Remap
import Brpc.NamingService.Watchers
import Brpc.Bvar.Recorder
import Brpc.Combo.ParallelMessages
import Brpc.Controller.Backup
import Brpc.Memcache.Responses
import Brpc.Uri.HttpUrl
