import Flashpoint.Memory.MemoryPool
import Flashpoint.Schema.Check
import Flashpoint.Executor.Execute

/-!
# The gateway

The callbacks of `http_server.cpp` that `libuv` runs, one at a time: `OnNewConnection`, `on_read` and
the flush of a write BIO, with `ParseRequest` and `ForwardRequest` below them. Pointers are indices
into the lists of the server's state. What the callbacks leave unset, and what ends the process (an
exception, `exit`, a null pointer, an empty stack of blocks), has no result here.

OpenSSL, the HTTP parser, the JSON reader and the sizes of the syntax nodes are parameters; the
schema and the query go through the parser and the executor of this development.
-/

namespace Flashpoint

abbrev Bytes := List UInt8

abbrev TcpHandle := Nat

abbrev SslHandle := Nat

abbrev ClientId := Nat

structure HttpRequest where
  body : Option Bytes
deriving DecidableEq, Repr

structure BackendEndpoint where
  origin : Ustring
  host : Ustring
  hostname : Ustring
  port : Nat
  path : Ustring

/-- What the server calls. -/
structure Services (σ : Type) where
  /-- `SSL_new` and `SSL_set_bio` with two empty BIOs. -/
  sslNew : σ
  sslIsInitFinished : σ → Bool
  /-- `BIO_write` to the read BIO. -/
  bioWrite : σ → Bytes → Int → σ
  sslAccept : σ → σ
  /-- `BIO_read` from the write BIO, until it has nothing more. -/
  bioRead : σ → List Bytes × σ
  sslRead : σ → Int × Bytes × σ
  /-- `HttpParser::Parse`, which may throw. -/
  parse : Bytes → Option (Option HttpRequest)
  /-- The string under `query` in a body, which may throw. -/
  queryOf : Bytes → Option Ustring
  /-- The sizes and alignments that `GraphQlSchema` and `GraphQlExecutor` allocate for a query. -/
  allocations : Option Ustring → List (Nat × Nat)
  fieldToEndpoint : UstringMap BackendEndpoint

/-- A `Field*` that was recorded, with the connection whose request the node was read from. -/
structure RecordedField where
  field : Selection
  origin : TcpHandle

/-- The keys of `fields` are pointers into `field_to_endpoint`, one for each name. -/
structure GatewayClient where
  tcpHandle : Option TcpHandle := none
  fields : UstringMap RecordedField := ∅
  fragments : List FragmentDefinition := []
  sslHandle : Option SslHandle := none

structure ClientRequest where
  endpoint : BackendEndpoint
  gatewayClient : ClientId

/-- A `uv_tcp_t` of a client: its `data`, whether `on_read` is called for it, and the handle that was
created when it was accepted. -/
structure Connection where
  data : ClientId
  reading : Bool
  ssl : SslHandle
deriving DecidableEq, Repr

/-- What the callbacks did with bytes. -/
inductive Effect where
  /-- Bytes received on a connection are written to the read BIO of a handle. -/
  | received (c : TcpHandle) (ssl : SslHandle)
  /-- Bytes received on a connection are decrypted by a handle. -/
  | decrypted (c : TcpHandle) (ssl : SslHandle)
  /-- Output of a handle is written to a connection. -/
  | sent (ssl : SslHandle) (c : TcpHandle) (bytes : Bytes)
deriving DecidableEq, Repr

/-- The server with what `libuv` and OpenSSL hold for it. `data` is that of the listening handle. -/
structure HttpServer (σ : Type) where
  memoryPool : MemoryPool
  data : ClientId
  clients : List GatewayClient
  connections : List Connection := []
  sslHandles : List σ := []
  clientRequests : List ClientRequest := []
  effects : List Effect := []

inductive ServerEvent where
  | onNewConnection (status accept readStart : Int)
  | onRead (c : TcpHandle) (length : Int) (base : Bytes) (getaddrinfo : Nat → Int)
  | flushWriteBio (c : TcpHandle)

namespace HttpServer

variable {σ : Type}

/-- `Listen`: the one client that is ever made. -/
def listen (startAddressOfPool : Nat) : HttpServer σ where
  memoryPool := MemoryPool.create (1024 * 4 * 10000) (1024 * 4) startAddressOfPool
  data := 0
  clients := [{}]

def setClient (s : HttpServer σ) (id : ClientId) (f : GatewayClient → GatewayClient) :
    HttpServer σ :=
  { s with clients := s.clients.modify id f }

def setSsl (s : HttpServer σ) (ssl : SslHandle) (state : σ) : HttpServer σ :=
  { s with sslHandles := s.sslHandles.set ssl state }

def record (s : HttpServer σ) (effects : List Effect) : HttpServer σ :=
  { s with effects := s.effects ++ effects }

/-- `uv_close`: there are no more callbacks for the handle. -/
def uvClose (s : HttpServer σ) (c : TcpHandle) : HttpServer σ :=
  { s with connections := s.connections.modify c fun connection =>
      { connection with reading := false } }

section

variable (services : Services σ)

/-- `WriteToSocket` writes nothing when there are no bytes. -/
def writeToSocket (ssl : SslHandle) (c : TcpHandle) (bytes : Bytes) : List Effect :=
  if bytes.length ≤ 0 then [] else [.sent ssl c bytes]

def flushWriteBio (s : HttpServer σ) (id : ClientId) : Option (HttpServer σ) := do
  let client ← s.clients[id]?
  let ssl ← client.sslHandle
  let c ← client.tcpHandle
  let state ← s.sslHandles[ssl]?
  let (chunks, state) := services.bioRead state
  return (s.setSsl ssl state).record (chunks.flatMap (writeToSocket ssl c))

/-- A read before the handshake is over. -/
def handshake (s : HttpServer σ) (c : TcpHandle) (id : ClientId) (ssl : SslHandle) (state : σ)
    (length : Int) (base : Bytes) : Option (HttpServer σ) :=
  let state := services.sslAccept (services.bioWrite state base length)
  ((s.setSsl ssl state).record [.received c ssl]).flushWriteBio services id

/-- The allocations of a ticket, one after the other. -/
def allocateAll (ticket : TicketId) : List (Nat × Nat) → MemoryPool → Option MemoryPool
  | [], pool => some pool
  | (size, alignment) :: rest, pool => do
    let (_, pool) ← pool.allocate size alignment ticket
    allocateAll ticket rest pool

/-- The document for a query, from an executor with the schema of the gateway. -/
def answer (query : Ustring) : Option ExecutableDefinition :=
  match GraphQlSchema.run "type Query \x7b field: Int \x7d".toList with
  | .stop .. => none
  | .ok () schema =>
    match GraphQlExecutor.run schema query with
    | .stop .. => none
    | .ok document _ => some document

/-- The part of `ParseRequest` after the request was parsed: the ticket that is taken is not
returned. -/
def answerRequest (s : HttpServer σ) (request : HttpRequest) :
    Option (Option ExecutableDefinition × HttpServer σ) := do
  let (ticket, memoryPool) ← s.memoryPool.takeTicket
  match request.body with
  | none =>
    let memoryPool ← allocateAll ticket (services.allocations none) memoryPool
    return (none, { s with memoryPool })
  | some body =>
    let query ← services.queryOf body
    let memoryPool ← allocateAll ticket (services.allocations (some query)) memoryPool
    let document ← answer query
    return (some document, { s with memoryPool })

def parseRequest (s : HttpServer σ) (id : ClientId) (readBuffer : Bytes) :
    Option (Option ExecutableDefinition × HttpServer σ) := do
  match ← services.parse readBuffer with
  | none =>
    let client ← s.clients[id]?
    let c ← client.tcpHandle
    return (none, s.uvClose c)
  | some request => s.answerRequest services request

/-- The operation that is forwarded: the only one, or the first one called `default_operation`. The
inner `none` is none such, the outer one an operation without a name before it. -/
def chooseOperation (document : ExecutableDefinition) : Option (Option OperationDefinition) :=
  match document.operationDefinitions with
  | [operation] => some (some operation)
  | operations => find operations
where
  find : List OperationDefinition → Option (Option OperationDefinition)
    | [] => some none
    | operation :: operations =>
      match operation.name with
      | none => none
      | some name =>
        if name.identifier = "default_operation".toList then some (some operation)
        else find operations

/-- `ForwardRequest` closes the handle of the client when the look-up fails at once. -/
def forwardRequest (s : HttpServer σ) (request : ClientRequest) (r : Int) :
    Option (HttpServer σ) := do
  let s := { s with clientRequests := s.clientRequests ++ [request] }
  if r = 0 then return s
  else
    let client ← s.clients[request.gatewayClient]?
    let c ← client.tcpHandle
    return s.uvClose c

/-- The loop over the selections of the operation. It ends at the first one that is no field or has
no endpoint. -/
def forwardSelections (c : TcpHandle) (id : ClientId) (fragments : List FragmentDefinition)
    (getaddrinfo : Nat → Int) : Nat → List Selection → HttpServer σ → Option (HttpServer σ)
  | _, [], s => some s
  | i, .field span fieldAlias name? arguments directives selectionSet :: selections, s => do
    let name ← name?
    match services.fieldToEndpoint.find? name.identifier with
    | none => return s
    | some endpoint =>
      let field := Selection.field span fieldAlias name arguments directives selectionSet
      let s := s.setClient id fun client =>
        { client with fields := client.fields.emplace name.identifier ⟨field, c⟩, fragments }
      let s ← s.forwardRequest ⟨endpoint, id⟩ (getaddrinfo i)
      forwardSelections c id fragments getaddrinfo (i + 1) selections s
  | _, _ :: _, s => some s

/-- What `on_read` does with a document. -/
def forward (s : HttpServer σ) (c : TcpHandle) (id : ClientId) (getaddrinfo : Nat → Int)
    (document : ExecutableDefinition) : Option (HttpServer σ) := do
  match ← chooseOperation document with
  | none => return s
  | some operation =>
    let selectionSet ← operation.selectionSet
    forwardSelections services c id document.fragmentDefinitions getaddrinfo 0
      selectionSet.selections s

/-- A read after the handshake. -/
def request (s : HttpServer σ) (c : TcpHandle) (id : ClientId) (ssl : SslHandle) (state : σ)
    (length : Int) (base : Bytes) (getaddrinfo : Nat → Int) : Option (HttpServer σ) := do
  let (readSize, readBuffer, state) := services.sslRead (services.bioWrite state base length)
  let s := (s.setSsl ssl state).record [.received c ssl, .decrypted c ssl]
  if readSize ≤ 0 then return s
  else
    let (document?, s) ← s.parseRequest services id readBuffer
    match document? with
    | none => return s
    | some document => s.forward services c id getaddrinfo document

def onRead (s : HttpServer σ) (c : TcpHandle) (length : Int) (base : Bytes)
    (getaddrinfo : Nat → Int) : Option (HttpServer σ) := do
  if length = 0 then return s.uvClose c
  else
    let connection ← s.connections[c]?
    let client ← s.clients[connection.data]?
    let ssl ← client.sslHandle
    let state ← s.sslHandles[ssl]?
    if services.sslIsInitFinished state then
      s.request services c connection.data ssl state length base getaddrinfo
    else s.handshake services c connection.data ssl state length base

/-- `OnNewConnection`: the client of the listening handle is given the handles of the connection,
also when the status is an error and when the connection cannot be accepted. -/
def onNewConnection (s : HttpServer σ) (accept readStart : Int) : Option (HttpServer σ) :=
  let ssl := s.sslHandles.length
  let c := s.connections.length
  let s := s.setClient s.data fun client => { client with sslHandle := ssl, tcpHandle := c }
  let s := { s with
    sslHandles := s.sslHandles ++ [services.sslNew]
    connections := s.connections ++ [⟨s.data, accept = 0, ssl⟩] }
  if accept = 0 ∧ readStart = -1 then none else some s

/-- A callback. `on_read` is only called for a handle that is being read. -/
def step (s : HttpServer σ) : ServerEvent → Option (HttpServer σ)
  | .onNewConnection _ accept readStart => s.onNewConnection services accept readStart
  | .onRead c length base getaddrinfo =>
    if s.connections[c]?.any (·.reading) then s.onRead services c length base getaddrinfo
    else none
  | .flushWriteBio c =>
    match s.connections[c]? with
    | none => none
    | some connection => s.flushWriteBio services connection.data

/-- The states of a run at which a callback happens, with the callback, all meet a condition. -/
def Along (p : HttpServer σ → ServerEvent → Prop) : HttpServer σ → List ServerEvent → Prop
  | _, [] => True
  | s, event :: events => p s event ∧ ∀ s', s.step services event = some s' → Along p s' events

/-- The callbacks one after the other. -/
def run : HttpServer σ → List ServerEvent → Option (HttpServer σ)
  | s, [] => some s
  | s, event :: events =>
    match s.step services event with
    | none => none
    | some s' => run s' events

end

/-! ## Services without encryption -/

def bytesOf (text : String) : Bytes := text.toList.map fun c => UInt8.ofNat c.toNat

/-- A `GET` request, which has no body. -/
def getRequest : Bytes := bytesOf "GET / HTTP/1.1\r\n\r\n"

/-- A handle that is done with its handshake after the first read and then hands on what it receives,
and the two parsers on `getRequest`. -/
def plain : Services (Bool × Bytes) where
  sslNew := (false, [])
  sslIsInitFinished := (·.1)
  bioWrite state bytes _ := (state.1, state.2 ++ bytes)
  sslAccept _ := (true, [])
  bioRead state := ([[22]], state)
  sslRead state := (state.2.length, state.2, (state.1, []))
  parse bytes := if bytes = getRequest then some (some ⟨none⟩) else none
  queryOf _ := none
  allocations _ := [(24, 8)]
  fieldToEndpoint := ∅

end HttpServer

end Flashpoint
