import Attender.Library.Bytes
import Attender.Library.Calendar
import Attender.Library.Incremental
import Attender.Library.LexicalPath
import Attender.Library.Hex
import Attender.Library.Integers
import Attender.Library.Lines
import Attender.Library.Maps
import Attender.Library.Multimap
import Attender.Library.Regex
import Attender.Library.Runs
import Attender.Encoding.Base64
import Attender.Encoding.BrotliEncoder
import Attender.Utility.CallbackWrapper
import Attender.Utility.Date
import Attender.Utility.Rfc1123
import Attender.Http.Config
import Attender.Http.Cookie
import Attender.Http.RequestParser
import Attender.Http.Segmentation
import Attender.Http.HeaderGrammar
import Attender.Http.HeaderDecided
import Attender.Http.HeaderProgress
import Attender.Http.BufferLimit
import Attender.Http.Mounting
import Attender.Http.PathJail
import Attender.Http.RequestHeader
import Attender.Http.RequestHandler
import Attender.Http.QueryCoding
import Attender.Http.TargetDecoding
import Attender.Http.Routes
import Attender.Http.PathParameters
import Attender.Http.RequestRouter
import Attender.Http.MountPrefix
import Attender.Http.HeaderRoundTrip
import Attender.Http.FieldCase
import Attender.Http.CookieCodec
import Attender.Http.ResponseHeader
import Attender.Http.ResponseHandler
import Attender.Http.ResponseText
import Attender.Http.ContentLength
import Attender.Http.BodyDelivery
import Attender.Http.BodyLimit
import Attender.Http.SequentialReads
import Attender.Http.ChunkedResponse
import Attender.Http.ChunkedDelivery
import Attender.Http.ChunkedEnd
import Attender.Http.ChunkedFraming
import Attender.Http.ChunkSize
import Attender.Http.Connection
import Attender.Http.ConnectionRemoval
import Attender.Session.SessionManager
import Attender.Http.HttpBasicServer
import Attender.Session.BasicAuthorizer
import Attender.Http.SessionGate
import Attender.Http.OneResponse
import Attender.Http.ThrowingHandler
import Attender.Http.ReadSteps
import Attender.Http.MalformedEscapes
import Attender.Http.SendOverloads
import Attender.Http.SetCookie
import Attender.Http.SessionLife
import Attender.Http.RequestPipeline
import Attender.Http.ReadDeadline
import Attender.Http.MountHandlers
import Attender.Http.RefusedUploads
import Attender.IoContext.ThreadPooler
import Attender.Websocket.SessionBase
import Attender.Websocket.SessionKinds
import Attender.Websocket.WriteQueue
import Attender.Websocket.MessageIntegrity
import Attender.Websocket.Conversation
import Attender.Websocket.QueueMutex
import Attender.Websocket.Connection
import Attender.Websocket.Server
import Attender.Session.BasicLogin
import Attender.Session.CookieReturn
import Attender.Http.ResponseReading
import Attender.Http.MountStore
import Attender.Http.AcceptLoop
import Attender.Http.HttpServer
import Attender.Http.ExpectContinue
import Attender.Http.BrotliResponse
import Attender.Http.BrotliDelivery
