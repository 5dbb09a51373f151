import LumbreExt.Ringbuf.Fifo
import LumbreExt.Msgpack.Bounds
import LumbreExt.Msgpack.Failure
import LumbreExt.Span.Size
import LumbreExt.Span.Truncation
import LumbreExt.Whitelist.Names
import LumbreExt.Module.Bailout
import LumbreExt.Module.Filter
import LumbreExt.Module.Propagation
import LumbreExt.Module.Headroom
import LumbreExt.Module.Requests
import LumbreExt.Module.Host
import LumbreExt.Module.Meaning
import LumbreExt.Module.SelfTime
import LumbreExt.Module.Timeline
import LumbreExt.Module.Independence
import LumbreExt.Module.Settings
import LumbreExt.Module.Modes
import LumbreExt.Module.Shortest
