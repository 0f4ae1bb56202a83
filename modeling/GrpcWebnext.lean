import GrpcWebnext.Lib.Transition
import GrpcWebnext.Lib.LengthPrefix
import GrpcWebnext.Lib.Utf8
import GrpcWebnext.Lib.Base64
import GrpcWebnext.Lib.InsertionMap
import GrpcWebnext.Lib.Json
import GrpcWebnext.Lib.Percent
import GrpcWebnext.Lib.Segments
import GrpcWebnext.Lib.Duration
import GrpcWebnext.Lib.Record
import GrpcWebnext.Lib.PostOrder
import GrpcWebnext.Lib.ProtoWire
import GrpcWebnext.Lib.Except
import GrpcWebnext.Lib.Attempt
import GrpcWebnext.Lib.JsNumeral
import GrpcWebnext.Lib.BinaryFloat
import GrpcWebnext.Bytes
import GrpcWebnext.Http
import GrpcWebnext.Pb
import GrpcWebnext.GrpcFraming
import GrpcWebnext.Metadata
import GrpcWebnext.GrpcTimeout
import GrpcWebnext.Framing
import GrpcWebnext.Backend
import GrpcWebnext.Fetch.Request
import GrpcWebnext.Fetch.UnaryProto
import GrpcWebnext.StreamedResponse
import GrpcWebnext.Transcode
import GrpcWebnext.Fetch.JsonUpstream
import GrpcWebnext.Ws.Frames
import GrpcWebnext.Ws.JsonText
import GrpcWebnext.Ws.RunStream
import GrpcWebnext.Ws.RequestTranscoding
import GrpcWebnext.Ws.Connection
import GrpcWebnext.Ws.Discipline
import GrpcWebnext.Ws.SingleCall
import GrpcWebnext.Ws.RequestChannel
import GrpcWebnext.Ws.CleanEnd
import GrpcWebnext.Ws.RequestStream
import GrpcWebnext.Ws.ResponseStream
import GrpcWebnext.Ws.Backpressure
import GrpcWebnext.Ws.Keepalive
import GrpcWebnext.StatusHonesty
import GrpcWebnext.Deadlines
import GrpcWebnext.Reflect
import GrpcWebnext.Reflect.Closure
import GrpcWebnext.Reflect.TopoSort
import GrpcWebnext.Reflect.FileSet
import GrpcWebnext.Schema
import GrpcWebnext.FirstLoad
import GrpcWebnext.Client.GrpcFrameParser
import GrpcWebnext.Deframing
import GrpcWebnext.H2ts
import GrpcWebnext.Client.FetchFrame
import GrpcWebnext.Client.Metadata
import GrpcWebnext.Client.WsTransport
import GrpcWebnext.Client.SingleStream
import GrpcWebnext.Client.ReadableStream
import GrpcWebnext.Client.Calls
import GrpcWebnext.Client.H2tsConnection
import GrpcWebnext.BinaryMetadata
import GrpcWebnext.Client.Responses
import GrpcWebnext.Client.HeaderMetadata
import GrpcWebnext.Client.ReceivedHeaders
import GrpcWebnext.OutcomeParity
import GrpcWebnext.JsonToServer
import GrpcWebnext.Client.CallDeadline
import GrpcWebnext.JsonToClient
import GrpcWebnext.JsonParity
import GrpcWebnext.HttpRule.Template
import GrpcWebnext.Ws.CloseStatus
import GrpcWebnext.HttpRule.Message
import GrpcWebnext.HttpRule.Router
import GrpcWebnext.HttpRule.PercentDecoding
import GrpcWebnext.HttpRule.Language
import GrpcWebnext.HttpRule.Expansion
import GrpcWebnext.HttpRule.Query
import GrpcWebnext.GrpcMessage
import GrpcWebnext.HttpRule.Precedence
import GrpcWebnext.Fetch.Routing
import GrpcWebnext.Fetch.BinarySurface
import GrpcWebnext.Fetch.MainPath
import GrpcWebnext.Ws.BodylessRoute
import GrpcWebnext.SnapshotUse
import GrpcWebnext.Ws.SingleCodec
import GrpcWebnext.FramingHeaders
import GrpcWebnext.Ws.Resources
import GrpcWebnext.EndToEnd.Connection
import GrpcWebnext.EndToEnd
import GrpcWebnext.EndToEnd.FetchUnary
import GrpcWebnext.EndToEnd.Tunnel
import GrpcWebnext.EndToEnd.JsonUnary
import GrpcWebnext.Client.Generated
import GrpcWebnext.EndToEnd.Handshake
import GrpcWebnext.EndToEnd.OneAnswer
