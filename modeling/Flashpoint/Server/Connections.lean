import Flashpoint.Server.Requests

/-!
# Connections

`Listen` makes one `GatewayClient`, and each new connection puts its handles in the place of those of
the connection before. As long as only the last connection is read, and no two connections are open
once a field was recorded, every byte goes through the handle of its own connection.
-/

namespace Flashpoint

namespace HttpServer

variable {σ : Type} {services : Services σ}

/-- Bytes are decrypted by the handle that was created for their connection, the output of a handle
goes to its connection, and the fields that are recorded for a connection came from it. -/
structure Isolated (s : HttpServer σ) : Prop where
  received : ∀ c ssl, .received c ssl ∈ s.effects → s.sslOf c = some ssl
  decrypted : ∀ c ssl, .decrypted c ssl ∈ s.effects → s.sslOf c = some ssl
  sent : ∀ ssl c bytes, .sent ssl c bytes ∈ s.effects → s.sslOf c = some ssl
  fields : ∀ c id client, s.Reading c → s.dataOf c = some id → s.clients[id]? = some client →
    ∀ x ∈ client.fields.entries, x.2.origin = c

/-- A connection is accepted before any field is recorded, only the last connection is read, and a
field is recorded only while no other connection is read. -/
def OneAtATime (services : Services σ) (s : HttpServer σ) : ServerEvent → Prop
  | .onNewConnection _ accept _ =>
    accept = 0 → ∀ client, s.clients[s.data]? = some client → client.fields.entries = []
  | .onRead c length base _ =>
    (length ≠ 0 → c + 1 = s.connections.length) ∧
      (Records services s c length base → ∀ i, s.Reading i → i = c)
  | .flushWriteBio _ => True

/-- The client has the handles of the last connection, and every connection has the client. -/
structure Wired (s : HttpServer σ) : Prop where
  client : ∃ client, s.clients[s.data]? = some client ∧
    (s.connections.length = 0 ∨ ∃ c, c + 1 = s.connections.length ∧
      client.tcpHandle = some c ∧ s.sslOf c = client.sslHandle)
  data : ∀ c id, s.dataOf c = some id → id = s.data

/-! ## One callback -/

theorem isolated_follows {c : TcpHandle} {s s' : HttpServer σ} (h : Isolated s)
    (hfollows : Follows c s s')
    (hfields : s'.clients = s.clients ∨ ∀ i, s.Reading i → i = c) : Isolated s' where
  received i ssl hmem := by
    rw [hfollows.effects] at hmem
    rw [hfollows.ssl]
    exact h.received i ssl hmem
  decrypted i ssl hmem := by
    rw [hfollows.effects] at hmem
    rw [hfollows.ssl]
    exact h.decrypted i ssl hmem
  sent ssl i bytes hmem := by
    rw [hfollows.effects] at hmem
    rw [hfollows.ssl]
    exact h.sent ssl i bytes hmem
  fields i id client' hreading hdata hclient x hx := by
    have hbefore := hfollows.reading i hreading
    rw [hfollows.clientData] at hdata
    rcases hfields with hsame | honly
    · rw [hsame] at hclient
      exact h.fields i id client' hbefore hdata hclient x hx
    · obtain ⟨client, hclient, hrecorded⟩ := hfollows.clients id client' hclient
      rcases hrecorded.fields x hx with hold | horigin
      · exact h.fields i id client hbefore hdata hclient x hold
      · rw [horigin, honly i hbefore]

theorem wired_follows {c : TcpHandle} {s s' : HttpServer σ} (h : Wired s)
    (hfollows : Follows c s s') : Wired s' where
  client := by
    obtain ⟨client, hclient, hhandles⟩ := h.client
    have hbound : s'.data < s'.clients.length := by
      rw [hfollows.data, hfollows.clientCount]
      exact (List.getElem?_eq_some_iff.1 hclient).1
    refine ⟨s'.clients[s'.data], List.getElem?_eq_getElem hbound, ?_⟩
    obtain ⟨client₀, hclient₀, hrecorded⟩ :=
      hfollows.clients s'.data _ (List.getElem?_eq_getElem hbound)
    rw [hfollows.data] at hclient₀
    cases hclient.symm.trans hclient₀
    rw [hrecorded.tcpHandle, hrecorded.sslHandle, hfollows.count]
    rcases hhandles with hempty | ⟨i, hi, htcp, hssl⟩
    · exact .inl hempty
    · exact .inr ⟨i, hi, htcp, (hfollows.ssl i).trans hssl⟩
  data i id hdata := by
    rw [hfollows.clientData] at hdata
    rw [hfollows.data]
    exact h.data i id hdata

/-- Working through the handles of the client keeps the connections apart when these are the handles
of the connection. -/
theorem isolated_effects {s : HttpServer σ} (h : Isolated s) (handles : List σ)
    {effects : List Effect}
    (heffects : ∀ effect ∈ effects, ∃ c ssl, s.sslOf c = some ssl ∧
      (effect = .received c ssl ∨ effect = .decrypted c ssl ∨ ∃ bytes, effect = .sent ssl c bytes)) :
    Isolated { s with sslHandles := handles, effects := s.effects ++ effects } where
  received c ssl hmem := by
    rcases List.mem_append.1 hmem with hmem | hmem
    · exact h.received c ssl hmem
    · obtain ⟨i, ssl', hssl, heq | heq | ⟨_, heq⟩⟩ := heffects _ hmem
      · cases heq
        exact hssl
      · cases heq
      · cases heq
  decrypted c ssl hmem := by
    rcases List.mem_append.1 hmem with hmem | hmem
    · exact h.decrypted c ssl hmem
    · obtain ⟨i, ssl', hssl, heq | heq | ⟨_, heq⟩⟩ := heffects _ hmem
      · cases heq
      · cases heq
        exact hssl
      · cases heq
  sent ssl c bytes hmem := by
    rcases List.mem_append.1 hmem with hmem | hmem
    · exact h.sent ssl c bytes hmem
    · obtain ⟨i, ssl', hssl, heq | heq | ⟨_, heq⟩⟩ := heffects _ hmem
      · cases heq
      · cases heq
      · cases heq
        exact hssl
  fields := h.fields

/-- The client of a connection has the handles of the last connection. -/
theorem Wired.client_of {s : HttpServer σ} (h : Wired s) {i : TcpHandle} {connection : Connection}
    {client : GatewayClient} (hconnection : s.connections[i]? = some connection)
    (hclient : s.clients[connection.data]? = some client) :
    ∃ c, c + 1 = s.connections.length ∧ client.tcpHandle = some c ∧
      s.sslOf c = client.sslHandle := by
  have hdata : connection.data = s.data := by
    apply h.data i
    simp [dataOf, hconnection]
  obtain ⟨client', hclient', hhandles⟩ := h.client
  rw [hdata] at hclient
  cases hclient.symm.trans hclient'
  rcases hhandles with hempty | hhandles
  · have hlt := (List.getElem?_eq_some_iff.1 hconnection).1
    omega
  · exact hhandles

theorem isolated_onRead {c : TcpHandle} {length : Int} {base : Bytes} {getaddrinfo : Nat → Int}
    {s s' : HttpServer σ} (h : Isolated s) (hwired : Wired s)
    (hone : OneAtATime services s (.onRead c length base getaddrinfo))
    (hs : s.onRead services c length base getaddrinfo = some s') : Isolated s' ∧ Wired s' := by
  rcases onRead_cases hs with ⟨-, rfl⟩ | ⟨connection, client, ssl, hlength, hconnection, hclient,
    hssl, handles, effects, hthrough, hfollows, hclients⟩
  · exact ⟨isolated_follows h (follows_uvClose c c s) (.inl rfl),
      wired_follows hwired (follows_uvClose c c s)⟩
  · obtain ⟨i, hi, htcp, hhandle⟩ := hwired.client_of hconnection hclient
    rw [hssl] at hhandle
    have hlast : i = c := by
      have hcount : c + 1 = s.connections.length := hone.1 hlength
      exact Nat.add_right_cancel (hi.trans hcount.symm)
    subst hlast
    have heffects : ∀ effect ∈ effects, ∃ c ssl, s.sslOf c = some ssl ∧
        (effect = .received c ssl ∨ effect = .decrypted c ssl ∨
          ∃ bytes, effect = .sent ssl c bytes) := by
      intro effect hmem
      refine ⟨i, ssl, hhandle, ?_⟩
      rcases hthrough effect hmem with heq | heq | ⟨j, bytes, hj, heq⟩
      · exact .inl heq
      · exact .inr (.inl heq)
      · cases htcp.symm.trans hj
        exact .inr (.inr ⟨bytes, heq⟩)
    have hfields : s'.clients = s.clients ∨ ∀ j, s.Reading j → j = i := by
      by_cases hrecords : Records services s i length base
      · exact .inr (hone.2 hrecords)
      · exact .inl (hclients hrecords)
    have hwired' : Wired { s with sslHandles := handles, effects := s.effects ++ effects } :=
      ⟨hwired.client, hwired.data⟩
    exact ⟨isolated_follows (isolated_effects h handles heffects) hfollows hfields,
      wired_follows hwired' hfollows⟩

theorem isolated_flushWriteBio {c : TcpHandle} {connection : Connection} {s s' : HttpServer σ}
    (h : Isolated s) (hwired : Wired s) (hconnection : s.connections[c]? = some connection)
    (hs : s.flushWriteBio services connection.data = some s') : Isolated s' ∧ Wired s' := by
  obtain ⟨client, ssl, i, hclient, hssl, hi, handles, effects, rfl, heffects⟩ :=
    flushWriteBio_spec hs
  obtain ⟨j, -, htcp, hhandle⟩ := hwired.client_of hconnection hclient
  cases htcp.symm.trans hi
  refine ⟨isolated_effects h handles fun effect hmem => ?_, hwired.client, hwired.data⟩
  exact ⟨i, ssl, hhandle.trans hssl, .inr (.inr (heffects effect hmem))⟩

/-- The server with one more connection, whose handles the client is given. -/
def withConnection (s : HttpServer σ) (state : σ) (reading : Bool) : HttpServer σ :=
  { s.setClient s.data fun client =>
      { client with
        sslHandle := some s.sslHandles.length
        tcpHandle := some s.connections.length } with
    sslHandles := s.sslHandles ++ [state]
    connections := s.connections ++ [⟨s.data, reading, s.sslHandles.length⟩] }

theorem connections_withConnection (s : HttpServer σ) (state : σ) (reading : Bool) (i : Nat) :
    (s.withConnection state reading).connections[i]? =
      if i = s.connections.length then some ⟨s.data, reading, s.sslHandles.length⟩
      else s.connections[i]? := by
  by_cases hi : i = s.connections.length
  · simp [withConnection, hi]
  · rw [if_neg hi]
    simp only [withConnection]
    by_cases hlt : i < s.connections.length
    · exact List.getElem?_append_left hlt
    · rw [List.getElem?_eq_none_iff.2 (by simp; omega), List.getElem?_eq_none_iff.2 (by omega)]

theorem sslOf_withConnection {s : HttpServer σ} (state : σ) (reading : Bool) {i : TcpHandle}
    {ssl : SslHandle} (h : s.sslOf i = some ssl) :
    (s.withConnection state reading).sslOf i = some ssl := by
  have hi : i ≠ s.connections.length := by
    rintro rfl
    simp [sslOf] at h
  simp only [sslOf, connections_withConnection, if_neg hi]
  exact h

theorem isolated_withConnection {s : HttpServer σ} (state : σ) {reading : Bool} (h : Isolated s)
    (hnone : reading = true → ∀ client, s.clients[s.data]? = some client →
      client.fields.entries = []) : Isolated (s.withConnection state reading) where
  received c ssl hmem := sslOf_withConnection state reading (h.received c ssl hmem)
  decrypted c ssl hmem := sslOf_withConnection state reading (h.decrypted c ssl hmem)
  sent ssl c bytes hmem := sslOf_withConnection state reading (h.sent ssl c bytes hmem)
  fields c id client' hreading hdata hclient x hx := by
    have hfields : ∃ client, s.clients[id]? = some client ∧ client'.fields = client.fields := by
      simp only [withConnection, setClient, List.getElem?_modify] at hclient
      obtain ⟨client, hbefore, hafter⟩ := Option.map_eq_some_iff.1 hclient
      refine ⟨client, hbefore, ?_⟩
      by_cases hid : s.data = id
      · rw [if_pos hid] at hafter
        rw [← hafter]
      · rw [if_neg hid] at hafter
        rw [← hafter]
    obtain ⟨client, hbefore, hsame⟩ := hfields
    rw [hsame] at hx
    simp only [Reading, dataOf, connections_withConnection] at hreading hdata
    by_cases hc : c = s.connections.length
    · rw [if_pos hc] at hreading hdata
      simp only [Option.map_some, Option.some.injEq] at hdata
      rw [← hdata] at hbefore
      rw [hnone (by simpa using hreading) client hbefore] at hx
      cases hx
    · rw [if_neg hc] at hreading hdata
      exact h.fields c id client hreading hdata hbefore x hx

theorem wired_withConnection {s : HttpServer σ} (state : σ) (reading : Bool) (h : Wired s) :
    Wired (s.withConnection state reading) where
  client := by
    obtain ⟨client, hclient, -⟩ := h.client
    refine ⟨{ client with
      sslHandle := some s.sslHandles.length
      tcpHandle := some s.connections.length }, ?_, .inr ⟨s.connections.length, ?_, rfl, ?_⟩⟩
    · simp only [withConnection, setClient, List.getElem?_modify, hclient, Option.map_eq_map,
        Option.map_some, if_true]
    · simp [withConnection]
    · simp [sslOf, connections_withConnection]
  data c id hdata := by
    simp only [dataOf, connections_withConnection] at hdata
    by_cases hc : c = s.connections.length
    · rw [if_pos hc] at hdata
      simp only [Option.map_some, Option.some.injEq] at hdata
      exact hdata.symm
    · rw [if_neg hc] at hdata
      exact h.data c id hdata

theorem onNewConnection_eq {accept readStart : Int} {s s' : HttpServer σ}
    (hs : s.onNewConnection services accept readStart = some s') :
    s' = s.withConnection services.sslNew (accept = 0) := by
  simp only [onNewConnection] at hs
  split at hs
  · cases hs
  · cases hs
    rfl

/-! ## Runs -/

theorem isolated_step {s s' : HttpServer σ} {event : ServerEvent} (h : Isolated s)
    (hwired : Wired s) (hone : OneAtATime services s event)
    (hs : s.step services event = some s') : Isolated s' ∧ Wired s' := by
  cases event with
  | onNewConnection status accept readStart =>
    have hnew : s.onNewConnection services accept readStart = some s' := hs
    have heq := onNewConnection_eq hnew
    subst heq
    refine ⟨isolated_withConnection _ h ?_, wired_withConnection _ _ hwired⟩
    intro haccept
    exact hone (of_decide_eq_true haccept)
  | onRead c length base getaddrinfo =>
    simp only [step] at hs
    split at hs
    · exact isolated_onRead h hwired hone hs
    · cases hs
  | flushWriteBio c =>
    simp only [step] at hs
    split at hs
    · cases hs
    · next connection hconnection => exact isolated_flushWriteBio h hwired hconnection hs

theorem isolated_run {s s' : HttpServer σ} {events : List ServerEvent} (h : Isolated s)
    (hwired : Wired s) (hone : Along services (OneAtATime services) s events)
    (hs : run services s events = some s') : Isolated s' := by
  induction events generalizing s with
  | nil =>
    cases hs
    exact h
  | cons event events ih =>
    simp only [run] at hs
    split at hs
    · cases hs
    · next s₁ hs₁ =>
      obtain ⟨hisolated, hwired⟩ := isolated_step h hwired hone.1 hs₁
      exact ih hisolated hwired (hone.2 s₁ hs₁) hs

theorem isolated_listen (startAddress : Nat) : Isolated (listen startAddress : HttpServer σ) where
  received _ _ hmem := by cases hmem
  decrypted _ _ hmem := by cases hmem
  sent _ _ _ hmem := by cases hmem
  fields c _ _ hreading := by simp [Reading, listen] at hreading

theorem wired_listen (startAddress : Nat) : Wired (listen startAddress : HttpServer σ) where
  client := ⟨_, rfl, .inl rfl⟩
  data c id hdata := by simp [dataOf, listen] at hdata

/-- In a run that reads only the last connection, and records fields only while no other is read, the
connections are kept apart in every state. -/
theorem isolated_of_oneAtATime (services : Services σ) {startAddress : Nat}
    {events : List ServerEvent} {s : HttpServer σ}
    (hone : Along services (OneAtATime services) (listen startAddress) events)
    (hs : run services (listen startAddress) events = some s) : Isolated s :=
  isolated_run (isolated_listen startAddress) (wired_listen startAddress) hone hs

theorem isolated_of_one_connection : ∃ s : HttpServer (Bool × Bytes),
    run plain (listen 0) [.onNewConnection 0 0 0, .onRead 0 1 [22] fun _ => 0] = some s ∧
      Isolated s := by
  have hrun : run plain (listen 0)
      [.onNewConnection 0 0 0, .onRead 0 1 [22] fun _ => 0] = some afterHandshake := rfl
  refine ⟨afterHandshake, hrun, isolated_of_oneAtATime plain ?_ hrun⟩
  rw [along_cons step_listen, along_cons step_accepted]
  refine ⟨fun _ client hclient => ?_, ⟨fun _ => rfl, ?_⟩, trivial⟩
  · cases hclient
    rfl
  · rintro ⟨bytes, document, hbuffer, -⟩
    have hnone : readBuffer plain accepted 0 1 [22] = none := by decide
    cases hnone.symm.trans hbuffer

/-- The first bytes of a connection go to the handle of the connection that was accepted after it. -/
theorem not_isolated_of_two_connections : ∃ s : HttpServer (Bool × Bytes),
    run plain (listen 0)
      [.onNewConnection 0 0 0, .onNewConnection 0 0 0, .onRead 0 1 [22] fun _ => 0] = some s ∧
      ¬ Isolated s := by
  refine ⟨_, rfl, fun h => ?_⟩
  have hssl := h.received 0 1 (by decide)
  cases hssl

end HttpServer

end Flashpoint
