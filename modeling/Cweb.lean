import Cweb.Http.HpackTable
import Cweb.Lib.LinearProbe
import Cweb.Utils.StrMap
import Cweb.Utils.StrMapRuns
import Cweb.Db.Db
import Cweb.Http.Session
import Cweb.Http.SessionStore
import Cweb.Http.SessionLogout
import Cweb.Http.Http
import Cweb.Utils.Uri
import Cweb.Http.ClientRead
import Cweb.Http.HttpClient
import Cweb.Http.ClientGrowth
import Cweb.Http.ClientIsolation
import Cweb.Http.Hpack
import Cweb.Http.H2
import Cweb.Http.H2Send
import Cweb.Http.H2Request
import Cweb.Http.H2Recv
import Cweb.Http.H2Serve
import Cweb.Http.H2Steps
import Cweb.Http.H2Settle
import Cweb.Http.H2HpackSync
import Cweb.Http.H2Streams
import Cweb.Http.H2RecvLedger
import Cweb.Http.H2SendLedger
import Cweb.Http.H2Grant
import Cweb.Http.H2Pace
import Cweb.Http.H2Body
import Cweb.Http.H2Delivery
import Cweb.Http.H2PumpBody
import Cweb.Http.H2BodyRun
import Cweb.Lib.Loop
import Cweb.Http.H2Idle
import Cweb.Http.H2Loop
import Cweb.Http.H2ReadSplit
import Cweb.Http.H2Effect
import Cweb.Http.H2Translate
import Cweb.Http.H2Calls
import Cweb.Http.H2Reset
import Cweb.Http.Params
import Cweb.Http.Response
import Cweb.Routing.Router
import Cweb.Http.HeadText
import Cweb.Http.ResponseHead
import Cweb.Http.ChunkFeed
import Cweb.Http.ResponseRead
import Cweb.Http.Proxy
import Cweb.Http.ProxyTarget
import Cweb.Http.Server
import Cweb.Http.ServerReject
import Cweb.Http.ServerBuffers
import Cweb.Db.DbSync
import Cweb.Lib.LinkedQueue
import Cweb.Utils.ThreadPool
import Cweb.Utils.ThreadPoolFair
import Cweb.Http.ClientIp
import Cweb.Http.AccessLog
import Cweb.Http.ServerFraming
import Cweb.Lib.CString
import Cweb.Template.Template
import Cweb.Http.H2Ids
import Cweb.Http.H2Length
import Cweb.Http.RequestCut
import Cweb.Http.H2Upgrade
import Cweb.Http.HpackRead
import Cweb.Http.H2Rides
import Cweb.Http.H2Heads
import Cweb.Http.TwoWires
import Cweb.Http.HeadScan
import Cweb.Http.RequestLine
import Cweb.Http.ParseStable
import Cweb.Http.ChunkText
import Cweb.Http.ChunkExact
import Cweb.Http.ListFields
import Cweb.Http.H2Padding
import Cweb.Http.H2Legal
import Cweb.Http.H2WellFormed
import Cweb.Http.ServerConfig
import Cweb.Http.ServerStream
import Cweb.Http.ServerSplits
import Cweb.Http.ServerSpill
import Cweb.Http.HpackRoundTrip
import Cweb.Http.HpackUpdates
import Cweb.Lib.Allocations
import Cweb.Http.HpackMemory
import Cweb.Lib.PrefixCode
import Cweb.Http.HpackHuffman
import Cweb.Http.H2Fragments
import Cweb.Http.ChunkSplits
import Cweb.Http.ClientRetry
import Cweb.Lib.Machine
import Cweb.Http.SessionSlots
import Cweb.Db.DbFormat
import Cweb.Db.DbMap
import Cweb.Lib.Lookup
import Cweb.Http.Flash
import Cweb.Lib.Segments
import Cweb.Security.Path
import Cweb.Http.Static
import Cweb.Http.StaticRoot
import Cweb.Routing.RouteSpec
import Cweb.Routing.RouteTable
import Cweb.Routing.DispatchSpec
import Cweb.Http.StaticMount
import Cweb.Utils.JsonRoundTrip
import Cweb.Routing.RouteParams
import Cweb.Utils.JsonTokens
import Cweb.Lib.BlockHash
import Cweb.Lib.Sha256
import Cweb.Lib.Mac
import Cweb.Security.Hmac
import Cweb.Security.Digest
import Cweb.Security.Password
import Cweb.Security.Pbkdf2
import Cweb.Utils.Base64
import Cweb.Security.PasswordRecord
import Cweb.Lib.TokenBucket
import Cweb.Http.RateLimit
import Cweb.Lib.FirstMatch
import Cweb.Http.Multipart
import Cweb.Http.MultipartRoundTrip
import Cweb.Lib.Intervals
import Cweb.Http.ByteRanges
import Cweb.Http.Etag
import Cweb.Http.ServerRequests
import Cweb.Http.RequestSign
import Cweb.Lib.PrefixInteger
import Cweb.Http.HpackInteger
import Cweb.Lib.Calendar
import Cweb.Http.Date
import Cweb.Http.ClfTime
import Cweb.Lib.Leader
import Cweb.Http.Negotiate
import Cweb.Lib.WeightedList
import Cweb.Http.Gzip
import Cweb.Lib.EventStream
import Cweb.Http.Sse
import Cweb.Http.FormCodec
import Cweb.Http.HeaderAlgebra
import Cweb.Lib.BigEndian
import Cweb.Http.Ws
import Cweb.Utils.SvInteger
import Cweb.Lib.Sha1
import Cweb.Lib.Sweep
import Cweb.Http.WsHandshake
import Cweb.Utils.Cidr
import Cweb.Lib.QuotedString
import Cweb.Http.BasicAuth
import Cweb.Lib.Layers
import Cweb.Http.Middleware
import Cweb.Http.Cookie
import Cweb.Http.Auth
import Cweb.Http.SessionGuard
import Cweb.Http.RateBudget
import Cweb.Http.GzipCodec
import Cweb.Http.Chain
import Cweb.Http.ChainStamps
import Cweb.Http.WsLoop
import Cweb.Http.WsUpgrade
import Cweb.Http.AcceptLoop
import Cweb.Http.Csrf
import Cweb.Http.RequestHead
import Cweb.Http.HpackTableMemory
import Cweb.Http.SessionViews
