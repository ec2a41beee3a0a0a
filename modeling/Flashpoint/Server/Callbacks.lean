import Flashpoint.Server.HttpServer

/-!
# What a callback leaves alone

`Follows c s s'` says what `on_read` on the connection `c` may have done to the server besides
talking to OpenSSL and the pool: connections may have been closed, and fields may have been recorded,
each with `c` as the connection it came from.
-/

namespace Flashpoint

namespace HttpServer

variable {σ : Type} {services : Services σ}

/-- The handle that was created for a connection. -/
def sslOf (s : HttpServer σ) (c : TcpHandle) : Option SslHandle := s.connections[c]?.map (·.ssl)

/-- The client that the `data` of a connection points to. -/
def dataOf (s : HttpServer σ) (c : TcpHandle) : Option ClientId := s.connections[c]?.map (·.data)

def Reading (s : HttpServer σ) (c : TcpHandle) : Prop :=
  s.connections[c]?.any (·.reading) = true

/-- A client after fields may have been recorded for `c`. -/
structure Recorded (c : TcpHandle) (client client' : GatewayClient) : Prop where
  tcpHandle : client'.tcpHandle = client.tcpHandle
  sslHandle : client'.sslHandle = client.sslHandle
  fields : ∀ x ∈ client'.fields.entries, x ∈ client.fields.entries ∨ x.2.origin = c

theorem Recorded.refl (c : TcpHandle) (client : GatewayClient) : Recorded c client client :=
  ⟨rfl, rfl, fun _ => .inl⟩

theorem Recorded.trans {c : TcpHandle} {client client' client'' : GatewayClient}
    (h : Recorded c client client') (h' : Recorded c client' client'') :
    Recorded c client client'' where
  tcpHandle := h'.tcpHandle.trans h.tcpHandle
  sslHandle := h'.sslHandle.trans h.sslHandle
  fields x hx := (h'.fields x hx).elim (h.fields x) .inr

structure Follows (c : TcpHandle) (s s' : HttpServer σ) : Prop where
  data : s'.data = s.data
  ssl : ∀ i, s'.sslOf i = s.sslOf i
  clientData : ∀ i, s'.dataOf i = s.dataOf i
  count : s'.connections.length = s.connections.length
  reading : ∀ i, s'.Reading i → s.Reading i
  clientCount : s'.clients.length = s.clients.length
  clients : ∀ (id : ClientId) client', s'.clients[id]? = some client' →
    ∃ client, s.clients[id]? = some client ∧ Recorded c client client'
  effects : s'.effects = s.effects

namespace Follows

theorem refl (c : TcpHandle) (s : HttpServer σ) : Follows c s s where
  data := rfl
  ssl _ := rfl
  clientData _ := rfl
  count := rfl
  reading _ := fun h => h
  clientCount := rfl
  clients _ client' h := ⟨client', h, Recorded.refl c client'⟩
  effects := rfl

theorem trans {c : TcpHandle} {s s' s'' : HttpServer σ} (h : Follows c s s')
    (h' : Follows c s' s'') : Follows c s s'' where
  data := h'.data.trans h.data
  ssl i := (h'.ssl i).trans (h.ssl i)
  clientData i := (h'.clientData i).trans (h.clientData i)
  count := h'.count.trans h.count
  reading i hi := h.reading i (h'.reading i hi)
  clientCount := h'.clientCount.trans h.clientCount
  clients id client'' hclient := by
    obtain ⟨client', hclient', hrecorded'⟩ := h'.clients id client'' hclient
    obtain ⟨client, hclient, hrecorded⟩ := h.clients id client' hclient'
    exact ⟨client, hclient, hrecorded.trans hrecorded'⟩
  effects := h'.effects.trans h.effects

end Follows

theorem follows_uvClose (c i : TcpHandle) (s : HttpServer σ) : Follows c s (s.uvClose i) where
  data := rfl
  ssl j := by
    simp only [sslOf, uvClose, List.getElem?_modify]
    cases s.connections[j]? with
    | none => rfl
    | some connection => by_cases h : i = j <;> simp [h]
  clientData j := by
    simp only [dataOf, uvClose, List.getElem?_modify]
    cases s.connections[j]? with
    | none => rfl
    | some connection => by_cases h : i = j <;> simp [h]
  count := by simp [uvClose]
  reading j := by
    simp only [Reading, uvClose, List.getElem?_modify]
    cases s.connections[j]? with
    | none => simp
    | some connection => by_cases h : i = j <;> simp [h]
  clientCount := rfl
  clients _ client' h := ⟨client', h, Recorded.refl c client'⟩
  effects := rfl

theorem follows_setClient {c : TcpHandle} (s : HttpServer σ) (id : ClientId)
    {f : GatewayClient → GatewayClient} (hf : ∀ client, Recorded c client (f client)) :
    Follows c s (s.setClient id f) where
  data := rfl
  ssl _ := rfl
  clientData _ := rfl
  count := rfl
  reading _ := fun h => h
  clientCount := by simp [setClient]
  effects := rfl
  clients i client' h := by
    simp only [setClient, List.getElem?_modify] at h
    cases hclient : s.clients[i]? with
    | none =>
      rw [hclient] at h
      cases h
    | some client =>
      rw [hclient] at h
      by_cases hid : id = i
      · simp only [hid, if_true, Option.map_eq_map, Option.map_some, Option.some.injEq] at h
        subst h
        exact ⟨client, rfl, hf client⟩
      · simp only [hid, if_false, Option.map_eq_map, Option.map_some, Option.some.injEq] at h
        subst h
        exact ⟨client, rfl, Recorded.refl c client⟩

theorem recorded_emplace {c : TcpHandle} (client : GatewayClient) (name : Ustring)
    (field : Selection) (fragments : List FragmentDefinition) :
    Recorded c client
      { client with fields := client.fields.emplace name ⟨field, c⟩, fragments } where
  tcpHandle := rfl
  sslHandle := rfl
  fields x hx := by
    have hfind := Library.SortedMap.mem_entries_iff.1 hx
    rcases Library.SortedMap.find?_emplace_cases hfind with h | ⟨-, h, -⟩
    · exact .inl (Library.SortedMap.mem_entries_iff.2 h)
    · exact .inr (by rw [h])

/-- What forwarding a document does: it does not touch the pool. -/
def Forwards (c : TcpHandle) (s s' : HttpServer σ) : Prop :=
  Follows c s s' ∧ s'.memoryPool = s.memoryPool

theorem Forwards.refl (c : TcpHandle) (s : HttpServer σ) : Forwards c s s :=
  ⟨Follows.refl c s, rfl⟩

theorem Forwards.trans {c : TcpHandle} {s s' s'' : HttpServer σ} (h : Forwards c s s')
    (h' : Forwards c s' s'') : Forwards c s s'' :=
  ⟨h.1.trans h'.1, h'.2.trans h.2⟩

theorem forwards_forwardRequest {c : TcpHandle} {s s' : HttpServer σ} {request : ClientRequest}
    {r : Int} (h : s.forwardRequest request r = some s') : Forwards c s s' := by
  have hrequest : Forwards c s { s with clientRequests := s.clientRequests ++ [request] } :=
    ⟨{ Follows.refl c s with }, rfl⟩
  unfold forwardRequest at h
  split at h
  · cases h
    exact hrequest
  · simp only [Option.bind_eq_bind, Option.bind_eq_some_iff] at h
    obtain ⟨client, -, i, -, h⟩ := h
    cases h
    exact hrequest.trans ⟨follows_uvClose c i _, rfl⟩

theorem forwards_forwardSelections {c : TcpHandle} {id : ClientId}
    {fragments : List FragmentDefinition} {getaddrinfo : Nat → Int} {i : Nat}
    {selections : List Selection} {s s' : HttpServer σ}
    (h : forwardSelections services c id fragments getaddrinfo i selections s = some s') :
    Forwards c s s' := by
  induction selections generalizing i s with
  | nil =>
    cases h
    exact Forwards.refl c _
  | cons selection selections ih =>
    cases selection with
    | field span fieldAlias name? arguments directives selectionSet =>
      simp only [forwardSelections, Option.bind_eq_bind, Option.bind_eq_some_iff] at h
      obtain ⟨name, -, h⟩ := h
      cases hend : services.fieldToEndpoint.find? name.identifier with
      | none =>
        rw [hend] at h
        cases h
        exact Forwards.refl c _
      | some endpoint =>
        simp only [hend, Option.bind_eq_some_iff] at h
        obtain ⟨s₁, hforward, h⟩ := h
        have hset := follows_setClient s id fun client =>
          recorded_emplace (c := c) client name.identifier
            (.field span fieldAlias name arguments directives selectionSet) fragments
        exact Forwards.trans ⟨hset, rfl⟩ ((forwards_forwardRequest hforward).trans (ih h))
    | fragmentSpread =>
      cases h
      exact Forwards.refl c _
    | inlineFragment =>
      cases h
      exact Forwards.refl c _

/-- The selections of the operation that is forwarded. -/
def rootSelections (document : ExecutableDefinition) : List Selection :=
  match chooseOperation document with
  | some (some operation) => (operation.selectionSet.map (·.selections)).getD []
  | _ => []

/-- The first selection is a field with an endpoint. -/
def recordsField (services : Services σ) : List Selection → Bool
  | .field _ _ (some name) _ _ _ :: _ =>
    (services.fieldToEndpoint.find? name.identifier).isSome
  | _ => false

theorem forwards_forward {c : TcpHandle} {id : ClientId} {getaddrinfo : Nat → Int}
    {document : ExecutableDefinition} {s s' : HttpServer σ}
    (h : s.forward services c id getaddrinfo document = some s') : Forwards c s s' := by
  simp only [forward, Option.bind_eq_bind, Option.bind_eq_some_iff] at h
  obtain ⟨operation?, -, h⟩ := h
  cases operation? with
  | none =>
    cases h
    exact Forwards.refl c _
  | some operation =>
    simp only [Option.bind_eq_some_iff] at h
    obtain ⟨selectionSet, -, h⟩ := h
    exact forwards_forwardSelections h

/-- A document whose first selection has no endpoint is not forwarded at all. -/
theorem forward_of_not_recordsField {c : TcpHandle} {id : ClientId} {getaddrinfo : Nat → Int}
    {document : ExecutableDefinition} {s s' : HttpServer σ}
    (h : s.forward services c id getaddrinfo document = some s')
    (hnone : recordsField services (rootSelections document) = false) : s' = s := by
  simp only [forward, Option.bind_eq_bind, Option.bind_eq_some_iff] at h
  obtain ⟨operation?, hchoose, h⟩ := h
  cases operation? with
  | none =>
    cases h
    rfl
  | some operation =>
    simp only [Option.bind_eq_some_iff] at h
    obtain ⟨selectionSet, hset, h⟩ := h
    simp only [rootSelections, hchoose, hset, Option.map_some, Option.getD_some] at hnone
    cases hselections : selectionSet.selections with
    | nil =>
      rw [hselections] at h
      cases h
      rfl
    | cons selection selections =>
      rw [hselections] at h hnone
      cases selection with
      | field span fieldAlias name? arguments directives selectionSet =>
        simp only [forwardSelections, Option.bind_eq_bind, Option.bind_eq_some_iff] at h
        obtain ⟨name, hname, h⟩ := h
        subst hname
        simp only [recordsField, Option.isSome_eq_false_iff, Option.isNone_iff_eq_none] at hnone
        rw [hnone] at h
        cases h
        rfl
      | fragmentSpread =>
        cases h
        rfl
      | inlineFragment =>
        cases h
        rfl

/-! ## Reads -/

/-- The bytes of a request that a read hands to `ParseRequest`. -/
def readBuffer (services : Services σ) (s : HttpServer σ) (c : TcpHandle) (length : Int)
    (base : Bytes) : Option Bytes :=
  if length = 0 then none
  else do
    let connection ← s.connections[c]?
    let client ← s.clients[connection.data]?
    let ssl ← client.sslHandle
    let state ← s.sslHandles[ssl]?
    if services.sslIsInitFinished state then
      let (readSize, readBuffer, _) := services.sslRead (services.bioWrite state base length)
      if readSize ≤ 0 then none else some readBuffer
    else none

/-- The document that is read from the bytes of a request. -/
def documentOf (services : Services σ) (bytes : Bytes) : Option ExecutableDefinition := do
  let request? ← services.parse bytes
  let request ← request?
  let body ← request.body
  let query ← services.queryOf body
  answer query

/-- The request of a read selects a field with an endpoint first, which is then recorded. -/
def Records (services : Services σ) (s : HttpServer σ) (c : TcpHandle) (length : Int)
    (base : Bytes) : Prop :=
  ∃ bytes document, readBuffer services s c length base = some bytes ∧
    documentOf services bytes = some document ∧
    recordsField services (rootSelections document) = true

theorem follows_parseRequest {id : ClientId} {bytes : Bytes} (c : TcpHandle)
    {document? : Option ExecutableDefinition} {s s' : HttpServer σ}
    (h : s.parseRequest services id bytes = some (document?, s')) :
    Follows c s s' ∧ s'.clients = s.clients ∧
      ∀ document, document? = some document → documentOf services bytes = some document := by
  simp only [parseRequest, Option.bind_eq_bind, Option.bind_eq_some_iff] at h
  obtain ⟨request?, hparse, h⟩ := h
  cases request? with
  | none =>
    simp only [Option.bind_eq_some_iff] at h
    obtain ⟨client, -, i, -, h⟩ := h
    cases h
    exact ⟨follows_uvClose c i s, rfl, fun _ hnone => by cases hnone⟩
  | some request =>
    simp only [answerRequest, Option.bind_eq_bind, Option.bind_eq_some_iff] at h
    obtain ⟨⟨ticket, pool⟩, -, h⟩ := h
    cases hbody : request.body with
    | none =>
      simp only [hbody, Option.bind_eq_some_iff] at h
      obtain ⟨pool', -, h⟩ := h
      cases h
      exact ⟨{ Follows.refl c s with }, rfl, fun _ hnone => by cases hnone⟩
    | some body =>
      simp only [hbody, Option.bind_eq_some_iff] at h
      obtain ⟨query, hquery, pool', -, document, hanswer, h⟩ := h
      cases h
      refine ⟨{ Follows.refl c s with }, rfl, fun document' hdocument => ?_⟩
      cases hdocument
      simp only [documentOf, hparse, hbody, hquery, Option.bind_eq_bind, Option.bind_some]
      exact hanswer

/-- The effects of a read through the handles of a client. -/
def Through (c : TcpHandle) (client : GatewayClient) (ssl : SslHandle) (effect : Effect) : Prop :=
  effect = .received c ssl ∨ effect = .decrypted c ssl ∨
    ∃ i bytes, client.tcpHandle = some i ∧ effect = .sent ssl i bytes

theorem flushWriteBio_spec {id : ClientId} {s s' : HttpServer σ}
    (h : s.flushWriteBio services id = some s') :
    ∃ client ssl i, s.clients[id]? = some client ∧ client.sslHandle = some ssl ∧
      client.tcpHandle = some i ∧ ∃ handles effects,
        s' = { s with sslHandles := handles, effects := s.effects ++ effects } ∧
          ∀ effect ∈ effects, ∃ bytes, effect = .sent ssl i bytes := by
  simp only [flushWriteBio, Option.bind_eq_bind, Option.bind_eq_some_iff] at h
  obtain ⟨client, hclient, ssl, hssl, i, hi, state, -, h⟩ := h
  cases h
  refine ⟨client, ssl, i, hclient, hssl, hi, _, _, rfl, fun effect heffect => ?_⟩
  obtain ⟨bytes, -, hbytes⟩ := List.mem_flatMap.1 heffect
  unfold writeToSocket at hbytes
  split at hbytes
  · cases hbytes
  · exact ⟨bytes, List.mem_singleton.1 hbytes⟩

/-- What a read does: it closes the connection, or works through the handles that its client has at
that time and goes on to record fields, if the request has one to record. -/
theorem onRead_cases {c : TcpHandle} {length : Int} {base : Bytes} {getaddrinfo : Nat → Int}
    {s s' : HttpServer σ} (h : s.onRead services c length base getaddrinfo = some s') :
    (length = 0 ∧ s' = s.uvClose c) ∨
      ∃ connection client ssl, length ≠ 0 ∧ s.connections[c]? = some connection ∧
        s.clients[connection.data]? = some client ∧ client.sslHandle = some ssl ∧
        ∃ handles effects, (∀ effect ∈ effects, Through c client ssl effect) ∧
          Follows c { s with sslHandles := handles, effects := s.effects ++ effects } s' ∧
          (¬ Records services s c length base → s'.clients = s.clients) := by
  unfold onRead at h
  by_cases hlength : length = 0
  · rw [if_pos hlength] at h
    cases h
    exact .inl ⟨hlength, rfl⟩
  · rw [if_neg hlength] at h
    simp only [Option.bind_eq_bind, Option.bind_eq_some_iff] at h
    obtain ⟨connection, hconnection, client, hclient, ssl, hssl, state, hstate, h⟩ := h
    refine .inr ⟨connection, client, ssl, hlength, hconnection, hclient, hssl, ?_⟩
    by_cases hfinished : services.sslIsInitFinished state = true
    · rw [if_pos hfinished] at h
      unfold request at h
      rcases hread : services.sslRead (services.bioWrite state base length) with
        ⟨readSize, bytes, state'⟩
      simp only [hread] at h
      have hthrough : ∀ effect ∈ [Effect.received c ssl, .decrypted c ssl],
          Through c client ssl effect := by
        intro effect heffect
        rcases List.mem_cons.1 heffect with rfl | heffect
        · exact .inl rfl
        · exact .inr (.inl (List.mem_singleton.1 heffect))
      refine ⟨s.sslHandles.set ssl state', _, hthrough, ?_⟩
      split at h
      · cases h
        exact ⟨Follows.refl c _, fun _ => rfl⟩
      · next hsize =>
        simp only [Option.bind_eq_bind, Option.bind_eq_some_iff] at h
        obtain ⟨⟨document?, s₁⟩, hparse, h⟩ := h
        obtain ⟨hfollows, hclients, hdocument⟩ := follows_parseRequest c hparse
        cases document? with
        | none =>
          cases h
          exact ⟨hfollows, fun _ => hclients⟩
        | some document =>
          refine ⟨hfollows.trans (forwards_forward h).1, fun hrecords => ?_⟩
          have hnone : recordsField services (rootSelections document) = false := by
            refine Bool.eq_false_iff.2 fun hfield =>
              hrecords ⟨bytes, document, ?_, hdocument _ rfl, hfield⟩
            simp only [readBuffer, if_neg hlength, hconnection, hclient, hssl, hstate, hread,
              Option.bind_eq_bind, Option.bind_some, if_pos hfinished, if_neg hsize]
          rw [forward_of_not_recordsField h hnone]
          exact hclients
    · rw [if_neg hfinished] at h
      obtain ⟨client', ssl', i, hclient', hssl', hi, handles, effects, rfl, heffects⟩ :=
        flushWriteBio_spec h
      have hsame : client' = client := by
        have := hclient'.symm.trans hclient
        exact Option.some.inj this
      subst hsame
      have hhandle : ssl' = ssl := Option.some.inj (hssl'.symm.trans hssl)
      subst hhandle
      refine ⟨handles, .received c ssl' :: effects, ?_, ?_, fun _ => rfl⟩
      · intro effect heffect
        rcases List.mem_cons.1 heffect with rfl | heffect
        · exact .inl rfl
        · obtain ⟨bytes, rfl⟩ := heffects effect heffect
          exact .inr (.inr ⟨i, bytes, hi, rfl⟩)
      · have hbefore : s.effects ++ .received c ssl' :: effects =
            (s.effects ++ [.received c ssl']) ++ effects := by simp
        rw [hbefore]
        exact Follows.refl c _

end HttpServer

end Flashpoint
