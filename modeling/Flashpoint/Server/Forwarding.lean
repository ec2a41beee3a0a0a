import Flashpoint.Server.Requests

/-!
# Forwarding the root fields

What happens after `ForwardRequest`: `OnResolvedIpv4` opens a connection to the backend, and
`OnClientConnect` writes the request on it. A `Gateway` is the server with the forwards that it has
started; `libuv` runs their callbacks in any order, between the callbacks of the server.

`OnClientConnect` writes a request for every field that is recorded in the client, not for the field
it was started for. As long as all the root fields have one name there is one (`forwardsOnce_of_oneName`).
-/

namespace Flashpoint

open Library

/-- A root field that a query selects, and the client whose connection the query was read on. -/
structure SelectedField where
  client : ClientId
  name : Ustring
deriving DecidableEq, Repr

/-- How far the forward of a `ClientRequest` is. -/
inductive Forward where
  /-- `uv_getaddrinfo` has failed at once. -/
  | failed
  | resolving
  /-- `OnResolvedIpv4` has returned early. -/
  | abandoned
  | connecting (handle : Nat)
  | connected (handle : Nat)
deriving DecidableEq, Repr

/-- A `uv_tcp_t` to a backend: the host that was looked up, and the port. -/
structure BackendHandle where
  hostname : Ustring
  port : Nat
deriving DecidableEq, Repr

/-- A request that `OnClientConnect` has written. -/
structure WrittenRequest where
  handle : Nat
  text : Ustring
deriving DecidableEq, Repr

/-- The server and what it forwards; `forwards` are those of `clientRequests`. The member `selected`
is not in the source: it records the root fields of the queries that were read. -/
structure Gateway (σ : Type) where
  server : HttpServer σ
  forwards : List Forward := []
  handles : List BackendHandle := []
  written : List WrittenRequest := []
  selected : List SelectedField := []

inductive GatewayEvent where
  | server (event : ServerEvent)
  /-- `uv_ip4_name` and `uv_ip4_addr` give the last two results; without an address `res` is null. -/
  | onResolvedIpv4 (i : Nat) (found : Bool) (ip4Name ip4Addr : Int)
  | onClientConnect (i : Nat) (status : Int)

namespace Gateway

open HttpServer

variable {σ : Type}

/-- The text that `OnClientConnect` writes with the `HttpWriter`. -/
def requestText (path host : Ustring) : Ustring :=
  "POST ".toList ++ path ++ " HTTP/1.1\r\n".toList ++
  "Host: ".toList ++ host ++ "\r\n".toList ++
  "User-Agent: flash\r\n".toList ++
  "Accept: */*\r\n".toList ++
  "Content-Type: application/json; charset=utf-8\r\n".toList ++
  "Content-Length: 24\r\n".toList ++
  "\r\n".toList ++
  "\x7b \"query\": \"\x7b field \x7d\" \x7d".toList

/-- The name of a root selection that is a field. -/
def fieldName : Selection → Option Ustring
  | .field _ _ name _ _ _ => name.map (·.identifier)
  | _ => none

section

variable (services : Services σ)

/-- The document of the query that a callback reads. -/
def documentRead (s : HttpServer σ) : ServerEvent → Option ExecutableDefinition
  | .onRead c length base _ => (readBuffer services s c length base).bind (documentOf services)
  | _ => none

/-- The root fields of the query that a callback reads. -/
def selectedBy (s : HttpServer σ) (event : ServerEvent) : List Selection :=
  ((documentRead services s event).map rootSelections).getD []

/-- The client of the connection that a callback is for. -/
def clientOf (s : HttpServer σ) : ServerEvent → Option ClientId
  | .onRead c _ _ _ => s.dataOf c
  | _ => none

def selectedFields (s : HttpServer σ) (event : ServerEvent) : List SelectedField :=
  match clientOf s event with
  | none => []
  | some client => (selectedBy services s event).filterMap fun selection =>
      (fieldName selection).map (SelectedField.mk client)

/-- What the calls of `uv_getaddrinfo` in a callback return, one after the other. -/
def getaddrinfoOf : ServerEvent → Nat → Int
  | .onRead _ _ _ getaddrinfo => getaddrinfo
  | _ => fun _ => 0

/-- The forwards that a callback has started: the first `n` calls of `uv_getaddrinfo`. -/
def startForwards (event : ServerEvent) (n : Nat) : List Forward :=
  (List.range n).map fun k => if getaddrinfoOf event k = 0 then .resolving else .failed

def onResolvedIpv4 (g : Gateway σ) (i : Nat) (found : Bool) (ip4Name ip4Addr : Int) :
    Option (Gateway σ) :=
  if g.forwards[i]? = some .resolving ∧ found then
    if ip4Name ≠ 0 ∨ ip4Addr ≠ 0 then some { g with forwards := g.forwards.set i .abandoned }
    else do
      let request ← g.server.clientRequests[i]?
      return { g with
        handles := g.handles ++ [⟨request.endpoint.hostname, request.endpoint.port⟩]
        forwards := g.forwards.set i (.connecting g.handles.length) }
  else none

/-- The loop goes over all the fields of the client; the status is only printed. -/
def onClientConnect (g : Gateway σ) (i : Nat) : Option (Gateway σ) :=
  match g.forwards[i]? with
  | some (.connecting handle) => do
    let request ← g.server.clientRequests[i]?
    let client ← g.server.clients[request.gatewayClient]?
    return { g with
      written := g.written ++ client.fields.entries.map fun _ =>
        ⟨handle, requestText request.endpoint.path request.endpoint.host⟩
      forwards := g.forwards.set i (.connected handle) }
  | _ => none

def onServer (g : Gateway σ) (event : ServerEvent) : Option (Gateway σ) := do
  let server ← g.server.step services event
  let started := server.clientRequests.length - g.server.clientRequests.length
  return { g with
    server
    forwards := g.forwards ++ startForwards event started
    selected := g.selected ++ selectedFields services g.server event }

def step (g : Gateway σ) : GatewayEvent → Option (Gateway σ)
  | .server event => g.onServer services event
  | .onResolvedIpv4 i found ip4Name ip4Addr => g.onResolvedIpv4 i found ip4Name ip4Addr
  | .onClientConnect i _ => g.onClientConnect i

def run : Gateway σ → List GatewayEvent → Option (Gateway σ)
  | g, [] => some g
  | g, event :: events => (g.step services event).bind (run · events)

/-- The states of a run at which a callback happens, with the callback, all meet a condition. -/
def Along (p : Gateway σ → GatewayEvent → Prop) : Gateway σ → List GatewayEvent → Prop
  | _, [] => True
  | g, event :: events => p g event ∧ ∀ g', g.step services event = some g' → Along p g' events

/-- The gateway after `Listen`. -/
def listen (startAddressOfPool : Nat) : Gateway σ where
  server := HttpServer.listen startAddressOfPool

/-! ## What has to be written -/

/-- The request for a selected field whose connection is there. -/
def requestOf (field : SelectedField) : Forward → Option WrittenRequest
  | .connected handle => (services.fieldToEndpoint.find? field.name).map fun endpoint =>
      ⟨handle, requestText endpoint.path endpoint.host⟩
  | _ => none

/-- There is one forward for each selected field; the requests that are written are those of the
fields whose connections are there, once each; and the connections go to the backends of the
fields. -/
structure ForwardsOnce (g : Gateway σ) : Prop where
  forwards : g.forwards.length = g.selected.length
  written : g.written.Perm
    ((g.selected.zip g.forwards).filterMap fun x => requestOf services x.1 x.2)
  backends : ∀ (i : Nat) (field : SelectedField) (handle : Nat), g.selected[i]? = some field →
    g.forwards[i]? = some (.connected handle) →
    ∃ endpoint, services.fieldToEndpoint.find? field.name = some endpoint ∧
      g.handles[handle]? = some ⟨endpoint.hostname, endpoint.port⟩

/-- The selection is a field, and there is an endpoint for its name. -/
def HasEndpoint (selection : Selection) : Prop :=
  ((fieldName selection).bind services.fieldToEndpoint.find?).isSome

/-- The root selections of the queries that are read are fields with endpoints. -/
def HaveEndpoints (g : Gateway σ) : GatewayEvent → Prop
  | .server event => ∀ selection ∈ selectedBy services g.server event, HasEndpoint services selection
  | _ => True

/-- When a connection to a backend is there, the root fields that the client has selected so far have
one name. -/
def OneName (g : Gateway σ) : GatewayEvent → Prop
  | .onClientConnect i _ => ∀ request, g.server.clientRequests[i]? = some request →
      ∀ x ∈ g.selected, ∀ y ∈ g.selected, x.client = request.gatewayClient →
        y.client = request.gatewayClient → x.name = y.name
  | _ => True

end

/-! ## What a callback of the server adds -/

variable {services : Services σ}

/-- A field of the name is recorded in the client. -/
def HasField (s : HttpServer σ) (id : ClientId) (name : Ustring) : Prop :=
  ∃ client, s.clients[id]? = some client ∧ (client.fields.find? name).isSome = true

/-- The request is for the endpoint of a field of the name. -/
def IsRequestFor (services : Services σ) (id : ClientId) (name : Ustring)
    (request : ClientRequest) : Prop :=
  request.gatewayClient = id ∧ services.fieldToEndpoint.find? name = some request.endpoint

/-- A request was made, and a field recorded, for each of the names. -/
structure Selects (services : Services σ) (id : ClientId) (names : List Ustring)
    (s s' : HttpServer σ) : Prop where
  requests : ∃ requests, s'.clientRequests = s.clientRequests ++ requests ∧
    List.Forall₂ (IsRequestFor services id) names requests
  fields : ∀ j name, HasField s' j name ↔ HasField s j name ∨ j = id ∧ name ∈ names

theorem Selects.refl (services : Services σ) (id : ClientId) (s : HttpServer σ) :
    Selects services id [] s s where
  requests := ⟨[], (List.append_nil _).symm, .nil⟩
  fields _ _ := by simp

/-- Nothing that matters here has changed. -/
theorem Selects.of_eq {id : ClientId} {s s' : HttpServer σ}
    (hrequests : s'.clientRequests = s.clientRequests)
    (hfields : ∀ j name, HasField s' j name ↔ HasField s j name) : Selects services id [] s s' where
  requests := ⟨[], by rw [hrequests, List.append_nil], .nil⟩
  fields j name := by simp [hfields j name]

theorem Selects.trans {id : ClientId} {names names' : List Ustring} {s s' s'' : HttpServer σ}
    (h : Selects services id names s s') (h' : Selects services id names' s' s'') :
    Selects services id (names ++ names') s s'' where
  requests := by
    obtain ⟨requests, heq, hfor⟩ := h.requests
    obtain ⟨requests', heq', hfor'⟩ := h'.requests
    refine ⟨requests ++ requests', ?_, List.rel_append hfor hfor'⟩
    rw [heq', heq, List.append_assoc]
  fields j name := by
    rw [h'.fields, h.fields, List.mem_append]
    tauto

theorem hasField_setClient {s : HttpServer σ} {id : ClientId}
    {f : GatewayClient → GatewayClient} {key : Ustring}
    (hf : ∀ client name, ((f client).fields.find? name).isSome =
      ((client.fields.find? name).isSome || decide (name = key)))
    (hid : (s.clients[id]?).isSome) (j : ClientId) (name : Ustring) :
    HasField (s.setClient id f) j name ↔ HasField s j name ∨ j = id ∧ name = key := by
  unfold HasField
  simp only [setClient, List.getElem?_modify]
  by_cases hj : id = j
  · subst hj
    obtain ⟨client, hclient⟩ := Option.isSome_iff_exists.1 hid
    simp [hclient, hf]
  · have hne : ¬ j = id := fun h => hj h.symm
    simp [hj, hne]

theorem isSome_find?_emplace (fields : UstringMap RecordedField) (key name : Ustring)
    (field : RecordedField) :
    ((fields.emplace key field).find? name).isSome =
      ((fields.find? name).isSome || decide (name = key)) := by
  rw [SortedMap.find?_emplace]
  by_cases hname : name = key
  · subst hname
    cases fields.find? name <;> simp
  · simp [hname]

theorem selects_uvClose (id : ClientId) (s : HttpServer σ) (c : TcpHandle) :
    Selects services id [] s (s.uvClose c) := .of_eq rfl fun _ _ => Iff.rfl

theorem selects_forwardRequest {id : ClientId} {name : Ustring} {endpoint : BackendEndpoint}
    {r : Int} {s s' : HttpServer σ} (hend : services.fieldToEndpoint.find? name = some endpoint)
    (hname : HasField s id name) (h : s.forwardRequest ⟨endpoint, id⟩ r = some s') :
    Selects services id [name] s s' := by
  have hrequest : Selects services id [name] s
      { s with clientRequests := s.clientRequests ++ [⟨endpoint, id⟩] } := by
    refine ⟨⟨_, rfl, .cons ⟨rfl, hend⟩ .nil⟩, fun j name' => ?_⟩
    constructor
    · exact .inl
    · rintro (h | ⟨rfl, hmem⟩)
      · exact h
      · rw [List.mem_singleton.1 hmem]
        exact hname
  unfold forwardRequest at h
  split at h
  · cases h
    exact hrequest
  · simp only [Option.bind_eq_bind, Option.bind_eq_some_iff] at h
    obtain ⟨client, -, i, -, h⟩ := h
    cases h
    exact hrequest.trans (selects_uvClose id _ i)

/-- The loop over selections that all have endpoints. -/
theorem selects_forwardSelections {c : TcpHandle} {id : ClientId}
    {fragments : List FragmentDefinition} {getaddrinfo : Nat → Int} {i : Nat}
    {selections : List Selection} {s s' : HttpServer σ}
    (hends : ∀ selection ∈ selections, HasEndpoint services selection)
    (hid : (s.clients[id]?).isSome)
    (h : forwardSelections services c id fragments getaddrinfo i selections s = some s') :
    Selects services id (selections.filterMap fieldName) s s' := by
  induction selections generalizing i s with
  | nil =>
    cases h
    exact Selects.refl services id _
  | cons selection selections ih =>
    obtain ⟨endpoint, hend⟩ := Option.isSome_iff_exists.1 (hends selection (List.mem_cons_self ..))
    obtain ⟨name, hname, hend⟩ := Option.bind_eq_some_iff.1 hend
    cases selection with
    | fragmentSpread => cases hname
    | inlineFragment => cases hname
    | field span fieldAlias name? arguments directives selectionSet =>
      simp only [forwardSelections, Option.bind_eq_bind, Option.bind_eq_some_iff] at h
      obtain ⟨node, rfl, h⟩ := h
      obtain rfl : node.identifier = name := by simpa [fieldName] using hname
      simp only [hend, Option.bind_eq_some_iff] at h
      obtain ⟨s₁, hforward, h⟩ := h
      rw [List.filterMap_cons_some hname, ← List.singleton_append]
      let field := Selection.field span fieldAlias node arguments directives selectionSet
      let s₀ := s.setClient id fun client =>
        { client with fields := client.fields.emplace node.identifier ⟨field, c⟩, fragments }
      have hset : ∀ j name, HasField s₀ j name ↔
          HasField s j name ∨ j = id ∧ name = node.identifier :=
        hasField_setClient (fun client name =>
          isSome_find?_emplace client.fields node.identifier name ⟨field, c⟩) hid
      have hone : Selects services id [node.identifier] s₀ s₁ :=
        selects_forwardRequest hend ((hset _ _).2 (.inr ⟨rfl, rfl⟩)) hforward
      have hone' : Selects services id [node.identifier] s s₁ := by
        refine ⟨hone.requests, fun j name => ?_⟩
        rw [hone.fields, hset, List.mem_singleton]
        tauto
      have hid₁ : (s₁.clients[id]?).isSome := by
        obtain ⟨client, hclient, -⟩ := (hone.fields id node.identifier).2 (.inr ⟨rfl, by simp⟩)
        rw [hclient]
        rfl
      exact hone'.trans (ih (fun selection hmem => hends selection (List.mem_cons_of_mem _ hmem)) hid₁ h)

theorem selects_forward {c : TcpHandle} {id : ClientId} {getaddrinfo : Nat → Int}
    {document : ExecutableDefinition} {s s' : HttpServer σ}
    (hends : ∀ selection ∈ rootSelections document, HasEndpoint services selection)
    (hid : (s.clients[id]?).isSome)
    (h : s.forward services c id getaddrinfo document = some s') :
    Selects services id ((rootSelections document).filterMap fieldName) s s' := by
  simp only [forward, Option.bind_eq_bind, Option.bind_eq_some_iff] at h
  obtain ⟨operation?, hchoose, h⟩ := h
  cases operation? with
  | none =>
    cases h
    simp only [rootSelections, hchoose]
    exact Selects.refl services id _
  | some operation =>
    simp only [Option.bind_eq_some_iff] at h
    obtain ⟨selectionSet, hset, h⟩ := h
    simp only [rootSelections, hchoose, hset, Option.map_some, Option.getD_some] at hends ⊢
    exact selects_forwardSelections hends hid h

theorem parseRequest_document {id : ClientId} {bytes : Bytes}
    {document? : Option ExecutableDefinition} {s s' : HttpServer σ}
    (h : s.parseRequest services id bytes = some (document?, s')) :
    document? = documentOf services bytes ∧ s'.clients = s.clients ∧
      s'.clientRequests = s.clientRequests := by
  simp only [parseRequest, Option.bind_eq_bind, Option.bind_eq_some_iff] at h
  obtain ⟨request?, hparse, h⟩ := h
  cases request? with
  | none =>
    simp only [Option.bind_eq_some_iff] at h
    obtain ⟨client, -, i, -, h⟩ := h
    cases h
    refine ⟨?_, rfl, rfl⟩
    simp only [documentOf, hparse, Option.bind_eq_bind, Option.bind_some, Option.bind_none]
  | some request =>
    simp only [answerRequest, Option.bind_eq_bind, Option.bind_eq_some_iff] at h
    obtain ⟨⟨ticket, pool⟩, -, h⟩ := h
    cases hbody : request.body with
    | none =>
      simp only [hbody, Option.bind_eq_some_iff] at h
      obtain ⟨pool', -, h⟩ := h
      cases h
      refine ⟨?_, rfl, rfl⟩
      simp only [documentOf, hparse, hbody, Option.bind_eq_bind, Option.bind_some, Option.bind_none]
    | some body =>
      simp only [hbody, Option.bind_eq_some_iff] at h
      obtain ⟨query, hquery, pool', -, document, hanswer, h⟩ := h
      cases h
      refine ⟨?_, rfl, rfl⟩
      simp only [documentOf, hparse, hbody, hquery, Option.bind_eq_bind, Option.bind_some]
      exact hanswer.symm

/-- A read selects the root fields of its query. -/
theorem selects_onRead {c : TcpHandle} {length : Int} {base : Bytes} {getaddrinfo : Nat → Int}
    {s s' : HttpServer σ}
    (hends : ∀ selection ∈ selectedBy services s (.onRead c length base getaddrinfo),
      HasEndpoint services selection)
    (h : s.onRead services c length base getaddrinfo = some s') :
    ∃ id, (s.dataOf c = some id ∨ selectedBy services s (.onRead c length base getaddrinfo) = []) ∧
      Selects services id ((selectedBy services s (.onRead c length base getaddrinfo)).filterMap
        fieldName) s s' := by
  unfold onRead at h
  by_cases hlength : length = 0
  · rw [if_pos hlength] at h
    cases h
    have hnone : selectedBy services s (.onRead c length base getaddrinfo) = [] := by
      simp [selectedBy, documentRead, readBuffer, hlength]
    rw [hnone]
    exact ⟨0, .inr rfl, selects_uvClose 0 s c⟩
  · rw [if_neg hlength] at h
    simp only [Option.bind_eq_bind, Option.bind_eq_some_iff] at h
    obtain ⟨connection, hconnection, client, hclient, ssl, hssl, state, hstate, h⟩ := h
    refine ⟨connection.data, .inl (by simp [dataOf, hconnection]), ?_⟩
    have hid : (s.clients[connection.data]?).isSome := by
      rw [hclient]
      rfl
    by_cases hfinished : services.sslIsInitFinished state = true
    · rw [if_pos hfinished] at h
      unfold request at h
      rcases hread : services.sslRead (services.bioWrite state base length) with
        ⟨readSize, bytes, state'⟩
      simp only [hread] at h
      by_cases hsize : readSize ≤ 0
      · rw [if_pos hsize] at h
        cases h
        have hnone : selectedBy services s (.onRead c length base getaddrinfo) = [] := by
          simp [selectedBy, documentRead, readBuffer, hlength, hconnection, hclient, hssl, hstate,
            hread, hfinished, hsize]
        rw [hnone]
        exact .of_eq rfl fun _ _ => Iff.rfl
      · rw [if_neg hsize] at h
        have hselected : selectedBy services s (.onRead c length base getaddrinfo) =
            ((documentOf services bytes).map rootSelections).getD [] := by
          simp [selectedBy, documentRead, readBuffer, hlength, hconnection, hclient, hssl, hstate,
            hread, hfinished, hsize]
        simp only [Option.bind_eq_bind, Option.bind_eq_some_iff] at h
        obtain ⟨⟨document?, s₁⟩, hparse, h⟩ := h
        obtain ⟨hdocument, hclients, hrequests⟩ := parseRequest_document hparse
        have hfields : ∀ j name, HasField s₁ j name ↔ HasField s j name := by
          intro j name
          unfold HasField
          rw [hclients]
          rfl
        have hbefore : Selects services connection.data [] s s₁ := .of_eq hrequests hfields
        rw [hselected, ← hdocument] at hends ⊢
        cases document? with
        | none =>
          cases h
          exact hbefore
        | some document =>
          have hid₁ : (s₁.clients[connection.data]?).isSome := by
            rw [hclients]
            exact hid
          exact hbefore.trans (selects_forward hends hid₁ h)
    · rw [if_neg hfinished] at h
      obtain ⟨client', ssl', i, hclient', hssl', hi, handles, effects, rfl, heffects⟩ :=
        flushWriteBio_spec h
      have hnone : selectedBy services s (.onRead c length base getaddrinfo) = [] := by
        simp [selectedBy, documentRead, readBuffer, hlength, hconnection, hclient, hssl, hstate,
          hfinished]
      rw [hnone]
      exact .of_eq rfl fun _ _ => Iff.rfl

theorem selects_step {event : ServerEvent} {s s' : HttpServer σ}
    (hends : ∀ selection ∈ selectedBy services s event, HasEndpoint services selection)
    (h : s.step services event = some s') :
    ∃ id, (clientOf s event = some id ∨ selectedBy services s event = []) ∧
      Selects services id ((selectedBy services s event).filterMap fieldName) s s' := by
  cases event with
  | onNewConnection status accept readStart =>
    refine ⟨0, .inr rfl, ?_⟩
    simp only [HttpServer.step, onNewConnection] at h
    split at h
    · cases h
    · cases h
      refine .of_eq rfl fun j name => ?_
      unfold HasField
      simp only [setClient, List.getElem?_modify]
      by_cases hj : s.data = j
      · cases hclient : s.clients[j]? <;> simp [hj]
      · simp [hj]
  | onRead c length base getaddrinfo =>
    simp only [HttpServer.step] at h
    split at h
    · exact selects_onRead hends h
    · cases h
  | flushWriteBio c =>
    refine ⟨0, .inr rfl, ?_⟩
    simp only [HttpServer.step] at h
    split at h
    · cases h
    · obtain ⟨client, ssl, i, -, -, -, handles, effects, rfl, -⟩ := flushWriteBio_spec h
      exact .of_eq rfl fun _ _ => Iff.rfl

/-! ## What the gateway keeps -/

/-- The forwards and the requests are those of the selected fields, the fields that are recorded have
their names, and connections go to the backends of their requests. -/
structure Tracks (services : Services σ) (g : Gateway σ) : Prop where
  requests : List.Forall₂ (fun field request => IsRequestFor services field.client field.name request)
    g.selected g.server.clientRequests
  forwards : g.forwards.length = g.selected.length
  fields : ∀ id name, HasField g.server id name ↔ ⟨id, name⟩ ∈ g.selected
  backends : ∀ (i handle : Nat), g.forwards[i]? = some (.connecting handle) ∨
    g.forwards[i]? = some (.connected handle) → ∃ request, g.server.clientRequests[i]? = some request ∧
      g.handles[handle]? = some ⟨request.endpoint.hostname, request.endpoint.port⟩

/-- The requests that have to be written. -/
def requestsFor (services : Services σ) (g : Gateway σ) : List WrittenRequest :=
  (g.selected.zip g.forwards).filterMap fun x => requestOf services x.1 x.2

theorem Tracks.forwardsOnce {g : Gateway σ} (h : Tracks services g)
    (hwritten : g.written.Perm (requestsFor services g)) : ForwardsOnce services g where
  forwards := h.forwards
  written := hwritten
  backends i field handle hfield hforward := by
    obtain ⟨request, hrequest, hhandle⟩ := h.backends i handle (.inr hforward)
    obtain ⟨hi, rfl⟩ := List.getElem?_eq_some_iff.1 hfield
    obtain ⟨hi', rfl⟩ := List.getElem?_eq_some_iff.1 hrequest
    have hfor := h.requests.get hi hi'
    exact ⟨_, hfor.2, hhandle⟩

theorem tracks_listen (startAddress : Nat) : Tracks services (listen startAddress : Gateway σ) where
  requests := .nil
  forwards := rfl
  fields id name := by
    simp only [listen, List.not_mem_nil, iff_false]
    rintro ⟨client, hclient, hfield⟩
    cases id with
    | zero =>
      cases hclient
      simp at hfield
    | succ id => cases hclient
  backends i handle h := by
    rcases h with h | h <;> cases h

theorem selectedFields_eq {g : Gateway σ} {event : ServerEvent} {id : ClientId}
    (hid : clientOf g.server event = some id ∨ selectedBy services g.server event = []) :
    selectedFields services g.server event =
      ((selectedBy services g.server event).filterMap fieldName).map (SelectedField.mk id) := by
  unfold selectedFields
  rcases hid with hid | hnil
  · rw [hid]
    simp only
    induction selectedBy services g.server event with
    | nil => rfl
    | cons selection selections ih =>
      cases hname : fieldName selection <;> simp [hname, ih]
  · rw [hnil]
    cases clientOf g.server event <;> rfl

theorem requestOf_startForwards {event : ServerEvent} {n : Nat} {fields : List SelectedField} :
    ((fields.zip (startForwards event n)).filterMap fun x => requestOf services x.1 x.2) = [] := by
  refine List.filterMap_eq_nil_iff.2 fun x hx => ?_
  have hmem := (List.of_mem_zip hx).2
  obtain ⟨k, -, hk⟩ := List.mem_map.1 hmem
  rw [← hk]
  split <;> rfl

theorem tracks_server {g g' : Gateway σ} {event : ServerEvent} (h : Tracks services g)
    (hends : HaveEndpoints services g (.server event)) (hstep : g.onServer services event = some g') :
    Tracks services g' ∧ g'.written = g.written ∧
      requestsFor services g' = requestsFor services g := by
  simp only [onServer, Option.bind_eq_bind, Option.bind_eq_some_iff] at hstep
  obtain ⟨server, hserver, hg'⟩ := hstep
  cases hg'
  obtain ⟨id, hid, hselects⟩ := selects_step hends hserver
  obtain ⟨requests, hrequests, hfor⟩ := hselects.requests
  have hselected := selectedFields_eq hid
  have hlength := hfor.length_eq
  have hcount : server.clientRequests.length - g.server.clientRequests.length =
      (selectedFields services g.server event).length := by
    rw [hrequests, hselected, List.length_append, List.length_map]
    omega
  have hstarted : (startForwards event (server.clientRequests.length -
      g.server.clientRequests.length)).length = (selectedFields services g.server event).length := by
    rw [startForwards, List.length_map, List.length_range, hcount]
  refine ⟨?_, rfl, ?_⟩
  · exact {
      requests := by
        show List.Forall₂ _ (g.selected ++ selectedFields services g.server event)
          server.clientRequests
        rw [hrequests, hselected]
        refine List.rel_append h.requests ?_
        rw [List.forall₂_map_left_iff]
        exact hfor
      forwards := by
        rw [List.length_append, List.length_append, h.forwards, hstarted]
      fields := fun j name => by
        show HasField server j name ↔ _ ∈ g.selected ++ selectedFields services g.server event
        rw [hselects.fields, h.fields, List.mem_append, hselected]
        simp only [List.mem_map, SelectedField.mk.injEq]
        constructor
        · rintro (hold | ⟨rfl, hnew⟩)
          · exact .inl hold
          · exact .inr ⟨name, hnew, rfl, rfl⟩
        · rintro (hold | ⟨name', hnew, rfl, rfl⟩)
          · exact .inl hold
          · exact .inr ⟨rfl, hnew⟩
      backends := fun i handle hi => by
        have hold : g.forwards[i]? = some (.connecting handle) ∨
            g.forwards[i]? = some (.connected handle) := by
          simp only [List.getElem?_append] at hi
          split at hi
          · exact hi
          · simp only [startForwards, List.getElem?_map] at hi
            obtain hi | hi := hi
            all_goals
              obtain ⟨k, -, hk⟩ := Option.map_eq_some_iff.1 hi
              split at hk <;> cases hk
        obtain ⟨request, hrequest, hhandle⟩ := h.backends i handle hold
        refine ⟨request, ?_, hhandle⟩
        show server.clientRequests[i]? = some request
        rw [hrequests, List.getElem?_append_left (List.getElem?_eq_some_iff.1 hrequest).1]
        exact hrequest }
  · show ((g.selected ++ selectedFields services g.server event).zip _).filterMap _ = _
    rw [List.zip_append h.forwards.symm, List.filterMap_append, requestOf_startForwards,
      List.append_nil]
    rfl

/-- The forward of a field changes, and no request is written for it yet. -/
theorem filterMap_zip_set (services : Services σ) (fields : List SelectedField) {forwards : List Forward} {i : Nat}
    {forward : Forward} (forward' : Forward) (hforward : forwards[i]? = some forward)
    (hold : ∀ field, requestOf services field forward = none) :
    ((fields.zip (forwards.set i forward')).filterMap fun x => requestOf services x.1 x.2).Perm
      ((fields[i]?.bind fun field => requestOf services field forward').toList ++
        (fields.zip forwards).filterMap fun x => requestOf services x.1 x.2) := by
  induction fields generalizing forwards i with
  | nil => simp
  | cons field fields ih =>
    cases forwards with
    | nil => cases hforward
    | cons first forwards =>
      cases i with
      | zero =>
        cases hforward
        simp only [List.set_cons_zero, List.zip_cons_cons, List.filterMap_cons,
          List.getElem?_cons_zero, Option.bind_some, hold]
        cases requestOf services field forward' <;> simp
      | succ i =>
        have hrest : forwards[i]? = some forward := hforward
        have ih := ih hrest
        simp only [List.set_cons_succ, List.zip_cons_cons, List.filterMap_cons,
          List.getElem?_cons_succ]
        cases requestOf services field first with
        | none => exact ih
        | some request => exact (ih.cons request).trans List.perm_middle.symm

/-- A forward goes on; handles may be added. -/
theorem Tracks.set {g : Gateway σ} (h : Tracks services g) (i : Nat) (forward : Forward)
    (more : List BackendHandle) (written : List WrittenRequest)
    (hnew : ∀ handle, forward = .connecting handle ∨ forward = .connected handle →
      ∃ request, g.server.clientRequests[i]? = some request ∧
        (g.handles ++ more)[handle]? = some ⟨request.endpoint.hostname, request.endpoint.port⟩) :
    Tracks services { g with
      forwards := g.forwards.set i forward, handles := g.handles ++ more, written } where
  requests := h.requests
  forwards := by
    rw [List.length_set]
    exact h.forwards
  fields := h.fields
  backends j handle hj := by
    simp only [List.getElem?_set] at hj
    split at hj
    next hij =>
      split at hj
      · rw [← hij]
        refine hnew handle ?_
        simpa only [Option.some.injEq] using hj
      · rcases hj with hj | hj <;> cases hj
    next =>
      obtain ⟨request, hrequest, hhandle⟩ := h.backends j handle hj
      refine ⟨request, hrequest, ?_⟩
      rw [List.getElem?_append_left (List.getElem?_eq_some_iff.1 hhandle).1]
      exact hhandle

theorem tracks_onResolvedIpv4 {g g' : Gateway σ} {i : Nat} {found : Bool} {ip4Name ip4Addr : Int}
    (h : Tracks services g) (hstep : g.onResolvedIpv4 i found ip4Name ip4Addr = some g') :
    Tracks services g' ∧ g'.written = g.written ∧
      (requestsFor services g').Perm (requestsFor services g) := by
  unfold onResolvedIpv4 at hstep
  split at hstep
  swap
  · cases hstep
  next hresolving =>
  have hperm : ∀ forward' : Forward, (∀ field, requestOf services field forward' = none) →
      ((g.selected.zip (g.forwards.set i forward')).filterMap
        fun x => requestOf services x.1 x.2).Perm (requestsFor services g) := by
    intro forward' hnone
    have hset := filterMap_zip_set services g.selected forward' hresolving.1
      fun _ => rfl
    have hempty : g.selected[i]?.bind (fun field => requestOf services field forward') = none := by
      cases g.selected[i]? with
      | none => rfl
      | some field => exact hnone field
    rw [hempty] at hset
    exact hset
  split at hstep
  · cases hstep
    refine ⟨?_, rfl, hperm .abandoned fun _ => rfl⟩
    have hset := h.set i .abandoned [] g.written
      fun _ hor => by rcases hor with hor | hor <;> cases hor
    rw [List.append_nil] at hset
    exact hset
  · simp only [Option.bind_eq_bind, Option.bind_eq_some_iff] at hstep
    obtain ⟨request, hrequest, hstep⟩ := hstep
    cases hstep
    refine ⟨h.set i _ _ g.written ?_, rfl, hperm _ fun _ => rfl⟩
    rintro handle (hor | hor)
    · cases hor
      exact ⟨request, hrequest, by simp⟩
    · cases hor

/-- A client whose selected fields have one name has recorded one field. -/
theorem exists_entries_eq {g : Gateway σ} (h : Tracks services g) {field : SelectedField}
    {client : GatewayClient} (hclient : g.server.clients[field.client]? = some client)
    (hfield : field ∈ g.selected)
    (hone : ∀ x ∈ g.selected, x.client = field.client → x.name = field.name) :
    ∃ entry, client.fields.entries = [entry] := by
  have hkeys : ∀ entry ∈ client.fields.entries, entry.1 = field.name := by
    rintro ⟨key, value⟩ hmem
    have hfind := SortedMap.mem_entries_iff.1 hmem
    have hmem := (h.fields field.client key).1 ⟨client, hclient, by rw [hfind]; rfl⟩
    exact hone _ hmem rfl
  obtain ⟨client', hclient', hfind⟩ := (h.fields field.client field.name).2 hfield
  cases hclient.symm.trans hclient'
  obtain ⟨value, hfind⟩ := Option.isSome_iff_exists.1 hfind
  have hmem := SortedMap.mem_entries_iff.2 hfind
  have hsorted := client.fields.sorted
  cases hentries : client.fields.entries with
  | nil =>
    rw [hentries] at hmem
    cases hmem
  | cons entry entries =>
    cases entries with
    | nil => exact ⟨entry, rfl⟩
    | cons next entries =>
      -- Two entries have different keys.
      rw [hentries] at hsorted hkeys
      have hlt := (List.pairwise_cons.1 hsorted).1 next (List.mem_cons_self ..)
      rw [hkeys entry (by simp), hkeys next (by simp)] at hlt
      exact absurd hlt (lt_irrefl _)

theorem tracks_onClientConnect {g g' : Gateway σ} {i : Nat} {status : Int} (h : Tracks services g)
    (hone : OneName g (.onClientConnect i status)) (hwritten : g.written.Perm (requestsFor services g))
    (hstep : g.onClientConnect i = some g') :
    Tracks services g' ∧ g'.written.Perm (requestsFor services g') := by
  unfold onClientConnect at hstep
  split at hstep
  swap
  · cases hstep
  next handle hforward =>
  simp only [Option.bind_eq_bind, Option.bind_eq_some_iff] at hstep
  obtain ⟨request, hrequest, client, hclient, hstep⟩ := hstep
  cases hstep
  obtain ⟨hi, hget⟩ := List.getElem?_eq_some_iff.1 hrequest
  have hi' : i < g.selected.length := by
    have hlength := h.requests.length_eq
    omega
  have hfor := h.requests.get hi' hi
  have hfield : g.selected[i]? = some g.selected[i] := List.getElem?_eq_getElem hi'
  simp only [List.get_eq_getElem, hget] at hfor
  obtain ⟨hsame, hendpoint⟩ := hfor
  rw [hsame] at hclient
  obtain ⟨entry, hentry⟩ := exists_entries_eq h hclient (List.getElem_mem hi')
    fun x hx hxc => hone request hrequest x hx _ (List.getElem_mem hi') (hxc.trans hsame.symm) hsame.symm
  have hset := h.set i (.connected handle) []
    (g.written ++ client.fields.entries.map fun _ =>
      ⟨handle, requestText request.endpoint.path request.endpoint.host⟩)
    fun handle' hor => by
      rw [List.append_nil]
      rcases hor with hor | hor <;> cases hor
      exact h.backends i handle (.inl hforward)
  rw [List.append_nil] at hset
  refine ⟨hset, ?_⟩
  have hperm := filterMap_zip_set services g.selected (.connected handle) hforward
    fun _ => rfl
  rw [hfield, Option.bind_some, requestOf, hendpoint] at hperm
  refine List.Perm.trans ?_ hperm.symm
  show (g.written ++ client.fields.entries.map fun _ =>
      (⟨handle, requestText request.endpoint.path request.endpoint.host⟩ : WrittenRequest)).Perm _
  rw [hentry]
  exact List.perm_append_comm.trans (hwritten.append_left _)

/-! ## Runs -/

theorem tracks_step {g g' : Gateway σ} {event : GatewayEvent} (h : Tracks services g)
    (hwritten : g.written.Perm (requestsFor services g)) (hends : HaveEndpoints services g event)
    (hone : OneName g event) (hstep : g.step services event = some g') :
    Tracks services g' ∧ g'.written.Perm (requestsFor services g') := by
  cases event with
  | server event =>
    obtain ⟨h', hsame, hrequests⟩ := tracks_server h hends hstep
    rw [hsame, hrequests]
    exact ⟨h', hwritten⟩
  | onResolvedIpv4 i found ip4Name ip4Addr =>
    obtain ⟨h', hsame, hrequests⟩ := tracks_onResolvedIpv4 h hstep
    rw [hsame]
    exact ⟨h', hwritten.trans hrequests.symm⟩
  | onClientConnect i status => exact tracks_onClientConnect h hone hwritten hstep

theorem tracks_run {g g' : Gateway σ} {events : List GatewayEvent} (h : Tracks services g)
    (hwritten : g.written.Perm (requestsFor services g))
    (hends : Along services (HaveEndpoints services) g events)
    (hone : Along services OneName g events) (hrun : run services g events = some g') :
    Tracks services g' ∧ g'.written.Perm (requestsFor services g') := by
  induction events generalizing g with
  | nil =>
    cases hrun
    exact ⟨h, hwritten⟩
  | cons event events ih =>
    obtain ⟨g₁, hstep, hrest⟩ := Option.bind_eq_some_iff.1 hrun
    obtain ⟨h₁, hwritten₁⟩ := tracks_step h hwritten hends.1 hone.1 hstep
    exact ih h₁ hwritten₁ (hends.2 g₁ hstep) (hone.2 g₁ hstep) hrest

/-- **Every root field is forwarded once to its own backend in every run in which, whenever a
connection to a backend is there, the root fields that were selected so far have one name.** -/
theorem forwardsOnce_of_oneName (services : Services σ) {startAddress : Nat}
    {events : List GatewayEvent} {g : Gateway σ}
    (hends : Along services (HaveEndpoints services) (listen startAddress) events)
    (hone : Along services OneName (listen startAddress) events)
    (hrun : run services (listen startAddress) events = some g) : ForwardsOnce services g := by
  obtain ⟨h, hwritten⟩ := tracks_run (tracks_listen startAddress) (List.Perm.refl _) hends hone hrun
  exact h.forwardsOnce hwritten

/-! ## Two backends -/

instance (services : Services σ) (g : Gateway σ) :
    ∀ event, Decidable (HaveEndpoints services g event)
  | .server event => inferInstanceAs (Decidable
      (∀ selection ∈ selectedBy services g.server event,
        ((fieldName selection).bind services.fieldToEndpoint.find?).isSome = true))
  | .onResolvedIpv4 .. => .isTrue trivial
  | .onClientConnect .. => .isTrue trivial

theorem oneName_onClientConnect {g : Gateway σ} {i : Nat} {status : Int} :
    OneName g (.onClientConnect i status) ↔
      ∀ request ∈ g.server.clientRequests[i]?, ∀ x ∈ g.selected, ∀ y ∈ g.selected,
        x.client = request.gatewayClient → y.client = request.gatewayClient → x.name = y.name := by
  simp only [OneName, Option.mem_def]

instance (g : Gateway σ) : ∀ event, Decidable (OneName g event)
  | .onClientConnect i _ => match h : g.server.clientRequests[i]? with
    | none => .isTrue (by simp [oneName_onClientConnect, h])
    | some request => decidable_of_iff (∀ x ∈ g.selected, ∀ y ∈ g.selected,
        x.client = request.gatewayClient → y.client = request.gatewayClient → x.name = y.name)
        (by simp [oneName_onClientConnect, h])
  | .server _ => .isTrue trivial
  | .onResolvedIpv4 .. => .isTrue trivial

/-- What holds along a run can be evaluated. -/
def decidableAlong (services : Services σ) (p : Gateway σ → GatewayEvent → Prop)
    [∀ g event, Decidable (p g event)] : ∀ g events, Decidable (Along services p g events)
  | _, [] => .isTrue trivial
  | g, event :: events =>
    match hstep : g.step services event with
    | none => decidable_of_iff (p g event) (by simp [Along, hstep])
    | some g' =>
      have := decidableAlong services p g' events
      decidable_of_iff (p g event ∧ Along services p g' events) (by simp [Along, hstep])

instance (services : Services σ) (p : Gateway σ → GatewayEvent → Prop)
    [∀ g event, Decidable (p g event)] (g : Gateway σ) (events : List GatewayEvent) :
    Decidable (Along services p g events) :=
  decidableAlong services p g events

/-- The services of `plain`, with two backends and parsers for a request that is only its query. -/
def twoBackends : Services (Bool × Bytes) where
  __ := plain
  parse bytes := some (some ⟨some bytes⟩)
  queryOf body := some (body.map fun byte => Char.ofNat byte.toNat)
  allocations _ := []
  fieldToEndpoint := (SortedMap.emplace ∅ "field".toList ⟨"http://localhost:4000/graphql".toList,
    "localhost:4000".toList, "localhost".toList, 4000, "/graphql".toList⟩).emplace "b".toList
      ⟨"http://localhost:5000/b".toList, "localhost:5000".toList, "localhost".toList, 5000,
        "/b".toList⟩

/-- A connection is made, and a query is read on it. -/
def queryEvents (query : String) : List GatewayEvent :=
  [.server (.onNewConnection 0 0 0), .server (.onRead 0 1 [22] fun _ => 0),
    .server (.onRead 0 query.length (query.toList.map fun ch => UInt8.ofNat ch.toNat) fun _ => 0)]

/-- One root field gets its request. -/
theorem forwardsOnce_of_oneField : ∃ g, run twoBackends (listen 0)
    (queryEvents "{field}" ++ [.onResolvedIpv4 0 true 0 0, .onClientConnect 0 0]) = some g ∧
      g.written.length = 1 ∧ ForwardsOnce twoBackends g := by
  have hrun : (run twoBackends (listen 0) (queryEvents "{field}" ++
      [.onResolvedIpv4 0 true 0 0, .onClientConnect 0 0])).map (·.written.length) = some 1 := by
    decide +kernel
  obtain ⟨g, hg, hlength⟩ := Option.map_eq_some_iff.1 hrun
  refine ⟨g, hg, hlength, forwardsOnce_of_oneName twoBackends ?_ ?_ hg⟩
  · decide +kernel
  · decide +kernel

/-- Two root fields get two requests each. -/
theorem not_forwardsOnce_of_twoFields : ∃ events g,
    Along twoBackends (HaveEndpoints twoBackends) (listen 0) events ∧
      run twoBackends (listen 0) events = some g ∧ ¬ ForwardsOnce twoBackends g := by
  have hrun : (run twoBackends (listen 0) (queryEvents "{field field:b}" ++
      [.onResolvedIpv4 0 true 0 0, .onResolvedIpv4 1 true 0 0, .onClientConnect 0 0,
        .onClientConnect 1 0])).map (fun g => (g.written.length,
          ((g.selected.zip g.forwards).filterMap fun x => requestOf twoBackends x.1 x.2).length)) =
      some (4, 2) := by
    decide +kernel
  obtain ⟨g, hg, hlengths⟩ := Option.map_eq_some_iff.1 hrun
  refine ⟨_, g, ?_, hg, fun h => ?_⟩
  · decide +kernel
  · have hlength := h.written.length_eq
    rw [Prod.mk.injEq] at hlengths
    omega

end Gateway

end Flashpoint
