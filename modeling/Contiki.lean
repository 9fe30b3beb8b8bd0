import Contiki.Lib.Run
import Contiki.Lib.Mem
import Contiki.Lib.Linked
import Contiki.Lib.Keyed
import Contiki.Lib.Walk
import Contiki.Lib.Cover
import Contiki.Core.Memb
import Contiki.Core.Uip
import Contiki.Sixtop.Fields
import Contiki.Sixtop.Node
import Contiki.Sixtop.Sixp
import Contiki.Sixtop.Invariant
import Contiki.Sixtop.Preserve
import Contiki.Sixtop.Delivery
import Contiki.Heapmem.Model
import Contiki.Heapmem.Layout
import Contiki.Heapmem.Edits
import Contiki.Heapmem.Space
import Contiki.Heapmem.Calls
import Contiki.Heapmem.System
import Contiki.Heapmem.Safety
import Contiki.Heapmem.Counters
import Contiki.Heapmem.Limits
import Contiki.Sicslowpan.Iphc
import Contiki.Sicslowpan.Fields
import Contiki.Sicslowpan.Encoding
import Contiki.Sicslowpan.Chain
import Contiki.Sicslowpan.RoundTrip
import Contiki.Sicslowpan.Reassembly
import Contiki.Sicslowpan.Complete
import Contiki.Sicslowpan.Fragmentation
import Contiki.Sicslowpan.Delivered
import Contiki.Coap.Transactions
import Contiki.Coap.Callbacks
import Contiki.Coap.Message
import Contiki.Coap.Parse
import Contiki.Coap.RoundTrip
import Contiki.Coap.Blockwise
import Contiki.Coap.Transfer
import Contiki.Ds6Route.Model
import Contiki.Ds6Route.Invariant
import Contiki.Ds6Route.Calls
import Contiki.Ds6Route.Table
import Contiki.Ds6Route.Map
import Contiki.Sr.Model
import Contiki.Sr.Update
import Contiki.Sr.Graph
import Contiki.RplLite.ExtHeader
import Contiki.RplLite.SrhHops
import Contiki.RplLite.Srh
import Contiki.Lib.Ber
import Contiki.Snmp.Model
import Contiki.Snmp.Encode
import Contiki.Snmp.Decode
import Contiki.Snmp.RoundTrip
import Contiki.Etimer.Model
import Contiki.Etimer.Calls
import Contiki.Etimer.System
import Contiki.Csma.Model
import Contiki.Csma.Queues
import Contiki.Csma.Output
import Contiki.Csma.Runs
import Contiki.Mpl.Model
import Contiki.Mpl.Invariant
import Contiki.Mpl.Buffers
import Contiki.Mpl.Accept
import Contiki.Mpl.Expiry
import Contiki.Mpl.System
import Contiki.Tcp.Model
import Contiki.Tcp.Receive
import Contiki.Tcp.Socket
import Contiki.Tcp.Send
import Contiki.Lib.Round
import Contiki.Lib.SwapDelete
import Contiki.Pdr.Model
import Contiki.Pdr.Evaluate
import Contiki.Pdr.Runs
import Contiki.Lib.History
import Contiki.NbrTable.Model
import Contiki.NbrTable.Invariant
import Contiki.NbrTable.Calls
import Contiki.NbrTable.System
import Contiki.Core.Ringbufindex
import Contiki.Lib.Nested
import Contiki.Tsch.Schedule
import Contiki.Tsch.System
import Contiki.Tsch.Links
import Contiki.Tsch.Counters
import Contiki.Tsch.Cached
import Contiki.Tsch.Traffic
import Contiki.Tsch.Packets
import Contiki.Queuebuf.Model
import Contiki.Queuebuf.Invariant
import Contiki.Queuebuf.Calls
import Contiki.Queuebuf.System
import Contiki.L2cap.Model
import Contiki.L2cap.Receive
import Contiki.L2cap.Transmit
import Contiki.L2cap.System
import Contiki.L2cap.Runs
import Contiki.Sixtop.Bounds
import Contiki.CellAlloc.Search
import Contiki.CellAlloc.Runs
import Contiki.SfSimple.Builders
import Contiki.SfSimple.Deletes
import Contiki.SfSimple.Responses
import Contiki.Sixtop.Seqno
import Contiki.Sixtop.SeqnoCalls
import Contiki.Sixtop.SeqnoRuns
import Contiki.Lib.Select
import Contiki.Tsch.NextActive
import Contiki.Tsch.Timeslots
import Contiki.Tsch.Backup
import Contiki.Lib.Cursor
import Contiki.Frame802154.Model
import Contiki.Frame802154.Parse
import Contiki.Frame802154.Create
import Contiki.Frame802154.RoundTrip
import Contiki.Lib.Loop
import Contiki.Frame802154e.Model
import Contiki.Frame802154e.Parse
import Contiki.Frame802154e.Create
import Contiki.Frame802154e.Rounds
import Contiki.Frame802154e.RoundTrip
import Contiki.Sicslowpan.Traced
import Contiki.Sicslowpan.NextHeaders
import Contiki.Sicslowpan.Safety
import Contiki.Coap.Safety
import Contiki.Coap.ArrayOption
import Contiki.Coap.Block1
import Contiki.Coap.Registrations
import Contiki.Coap.Notify
import Contiki.Coap.Notified
import Contiki.RplLite.Linked
import Contiki.RplLite.Removed
import Contiki.RplLite.SrhSafety
import Contiki.Coap.Requests
import Contiki.Coffee.Reserve
import Contiki.RplLite.Icmp6
import Contiki.RplLite.Icmp6Safety
import Contiki.RplLite.Of
import Contiki.RplLite.Dag
import Contiki.RplLite.DioTimer
import Contiki.RplLite.BestParent
import Contiki.Lists.Model
import Contiki.Lists.Single
import Contiki.Snmp.Mib
import Contiki.Snmp.Bulk
import Contiki.Lwm2m.Tlv
import Contiki.Uip6.ExtHdrOptions
import Contiki.Crypto.CcmStar
import Contiki.Tsch.AdaptiveTimesync
import Contiki.Core.Ringbuf
import Contiki.RplLite.Network
import Contiki.Tsch.Wakeups
import Contiki.Core.Process
