import Ccybe.Lib.Trace
import Ccybe.Lib.CSem
import Ccybe.Lib.Logged
import Ccybe.Lib.Heap
import Ccybe.Lib.CString
import Ccybe.Lib.Split
import Ccybe.Lib.Assoc
import Ccybe.Lib.Decimal
import Ccybe.Lib.Lines
import Ccybe.Lib.Ring
import Ccybe.Lib.Tally
import Ccybe.Lib.Chain
import Ccybe.Ds.Buffer
import Ccybe.Ds.Strings
import Ccybe.Ds.LList
import Ccybe.Ds.Sequence
import Ccybe.Ds.FreeList
import Ccybe.Ds.Queue
import Ccybe.Ds.Fifo
import Ccybe.Ds.Capacity
import Ccybe.Ds.ThreadPool.Basic
import Ccybe.Ds.ThreadPool.ExactlyOnce
import Ccybe.Ds.ThreadPool.Wakeup
import Ccybe.Url.Decoder
import Ccybe.Url.Escapes
import Ccybe.Url.Passes
import Ccybe.Url.Decoding
import Ccybe.Url.Whole
import Ccybe.Url.Url
import Ccybe.Url.Pairs
import Ccybe.Url.Segments
import Ccybe.Url.Separate
import Ccybe.Url.Delimiters
import Ccybe.Parser
import Ccybe.Messages
import Ccybe.Route
import Ccybe.Cnet
import Ccybe.Response.Basic
import Ccybe.Response.Pages
import Ccybe.Response.Headers
import Ccybe.Response.Generate
import Ccybe.Response.Framing
import Ccybe.Response.Mime
import Ccybe.Response.Served
import Ccybe.Http.Dispatch
import Ccybe.Http.Status
import Ccybe.Http.Descriptors
import Ccybe.Http.Write
import Ccybe.Http.Conns
import Ccybe.Http.Server
import Ccybe.Http.Steps
import Ccybe.Http.Ownership
import Ccybe.Http.Clients
import Ccybe.Http.Batch
import Ccybe.Http.Shutdown
import Ccybe.Http.Provenance
import Ccybe.Http.Receive
import Ccybe.Http.Isolation
import Ccybe.Http.Segmentation
import Ccybe.Http.Settled
import Ccybe.Http.Joined
import Ccybe.Http.Registered
import Ccybe.Http.Order
import Ccybe.Http.Delivered
import Ccybe.Http.Defined
import Ccybe.Http.Ledger
import Ccybe.Http.Answer
import Ccybe.Ds.ThreadPool.Create
import Ccybe.Http.Startup
import Ccybe.Ds.StringHeap
import Ccybe.Http.Account
import Ccybe.Http.Visits
