import P2Proxy.Ports

/-!
# SOCKS sessions

One session serves one client that has connected to a listen port.  `runSession` is the program for it: it looks up the
exit of the port, reads the greeting and the request of the client, opens a stream to the exit and relays.  What the
client sees of it before the relayed bytes are the messages that it writes: a selection of the method, and replies to
the request.
-/

namespace P2Proxy

open Interaction

inductive AuthMethod
  | noAuth
  | noAcceptableMethods
  | other (code : UInt8)
deriving DecidableEq

inductive Command
  | connect
  | bind
  | udpAssociate
deriving DecidableEq

inductive Address
  | socketAddress (address : SocketAddr)
  | domainAddress (domain : String) (port : Port)
deriving DecidableEq

def Address.unspecified : Address := .socketAddress { ip := [0, 0, 0, 0], port := 0 }

structure SocksRequest where
  command : Command
  address : Address

inductive Reply
  | succeeded
  | generalFailure
deriving DecidableEq

inductive StreamError
  | unsupportedProtocol (peer : PeerId) (protocol : String)
  | io (peer : PeerId) (source : String)
  | openTimeout (peer : PeerId)

/-- The peer will never be able to serve. -/
def StreamError.isTerminalForPeer : StreamError → Bool
  | .unsupportedProtocol _ _ => true
  | .io _ _ | .openTimeout _ => false

inductive SessionCall
  | loadDestination
  | requestNewPeer (port : Port)
  | newSessionId
  | readGreeting
  | writeMethod (method : AuthMethod)
  | readRequest
  | writeReply (reply : Reply) (address : Address)
  | openStream (peer : PeerId)
  | peerUnusable (peer : PeerId)
  | clientInit (id : SessionId) (target : TargetAddr) (token : String)
  | emit (event : Events)
  | relay (id : SessionId)
  | streamClosed (peer : PeerId)
  | reportBandwidth (id : SessionId) (outgoing incoming : Nat)

/-- Just-in-time discovery answers within its time limit or not at all. -/
@[reducible] def SessionCall.Answer : SessionCall → Type
  | .loadDestination => Option PeerId
  | .requestNewPeer _ => Option (Option PeerId)
  | .newSessionId => SessionId
  | .readGreeting => Except String (List AuthMethod)
  | .readRequest => Except String SocksRequest
  | .writeMethod _ | .writeReply _ _ | .clientInit _ _ _ => Except String Unit
  | .openStream _ => Except StreamError Unit
  | .relay _ => Nat × Nat
  | .peerUnusable _ | .emit _ | .streamClosed _ | .reportBandwidth _ _ _ => Unit

abbrev SessionIo := Exchange SessionCall SessionCall.Answer

/-- Code of a session; it has no state of its own. -/
abbrev SessionM := Proc SessionCall SessionCall.Answer Unit

structure SessionContext where
  port : Port
  token : String

def intoTarget : Address → TargetAddr
  | .socketAddress address => .ip address
  | .domainAddress domain port => .domain domain port

def sendGeneralFailure : SessionM Unit := do
  let _ ← ask (SessionCall.writeReply .generalFailure .unspecified)

/-- The stream could not be opened: a peer that will never serve is given up, and the client is told. -/
def rejectStream (peer : PeerId) (e : StreamError) : SessionM Unit := do
  if e.isTerminalForPeer then ask (SessionCall.peerUnusable peer)
  sendGeneralFailure

/-- The session over the opened stream, from its initialisation to the bandwidth report. -/
def serveStream (ctx : SessionContext) (sessionId : SessionId) (peer : PeerId) (target : TargetAddr) :
    SessionM Unit := do
  match ← ask (SessionCall.clientInit sessionId target ctx.token) with
  | .error _ => pure ()
  | .ok () => do
    ask (SessionCall.emit (.session (.new sessionId target peer)))
    let transferred ← ask (SessionCall.relay sessionId)
    ask (SessionCall.streamClosed peer)
    ask (SessionCall.emit (.session (.ends sessionId)))
    ask (SessionCall.reportBandwidth sessionId transferred.1 transferred.2)

/-- What follows the request. -/
def serveRequest (ctx : SessionContext) (sessionId : SessionId) (peer : PeerId) (request : SocksRequest) :
    SessionM Unit := do
  match ← ask (SessionCall.writeReply .succeeded request.address) with
  | .error _ => pure ()
  | .ok () => do
    match ← ask (SessionCall.openStream peer) with
    | .error e => rejectStream peer e
    | .ok () => serveStream ctx sessionId peer (intoTarget request.address)

def handleSocksConnection (ctx : SessionContext) (peer : PeerId) : SessionM Unit := do
  let sessionId ← ask SessionCall.newSessionId
  match ← ask SessionCall.readGreeting with
  | .error _ => pure ()
  | .ok methods =>
    if .noAuth ∉ methods then do
      let _ ← ask (SessionCall.writeMethod .noAcceptableMethods)
    else do
      match ← ask (SessionCall.writeMethod .noAuth) with
      | .error _ => pure ()
      | .ok () => do
        match ← ask SessionCall.readRequest with
        | .error _ => pure ()
        | .ok request => serveRequest ctx sessionId peer request

def runSession (ctx : SessionContext) : SessionM Unit := do
  match ← ask SessionCall.loadDestination with
  | some peer => handleSocksConnection ctx peer
  | none => do
    match ← ask (SessionCall.requestNewPeer ctx.port) with
    | some (some peer) => handleSocksConnection ctx peer
    | _ => sendGeneralFailure

end P2Proxy
