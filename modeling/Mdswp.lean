import Mdswp.Codec
import Mdswp.Duplex.Arrival
import Mdswp.Duplex.Panics
import Mdswp.Link.Recovery
import Mdswp.Listener.Accepting
import Mdswp.Listener.Agreement
import Mdswp.Listener.Connect
import Mdswp.Listener.Freeing
import Mdswp.Listener.Handshake
import Mdswp.Listener.Isolation
import Mdswp.Listener.Table
import Mdswp.Locks
import Mdswp.Stream.Absorbing
import Mdswp.Stream.Atomicity
import Mdswp.Stream.Buffering
import Mdswp.Stream.HalfClose
import Mdswp.Stream.Pacing
import Mdswp.Stream.Reading
import Mdswp.Stream.Retention
import Mdswp.Stream.Sliding
import Mdswp.Transfer.EndToEnd
