import WsIo.Client.Exchange
import WsIo.Protocol.Link
import WsIo.Server.Exchange

/-!
# A client session and a server connection

One session and one connection with the same codec, over a FIFO link in each direction.
Every step of either end is a step of the pair: its tasks, its timeouts, its callers. A
packet is read from the link only; the ends of the stream, transport errors and control
frames may come at any time.

`handshake_agreement` is the joint guarantee. Its invariant `Agreement` holds what each
end keeps by itself (`Exchange`) together with the two links, so that how often a packet
was received on one side is bounded by how often it was sent on the other.
-/

namespace WsIo

open Async Core

/-- The configurations of the two ends. -/
structure PairConfig where
  server : Server.NamespaceConfig
  client : Client.ClientConfig
  same_codec : client.codec = server.codec

/-- Both ends and the two directions of the websocket between them. -/
structure Pair where
  server : Server.Connection
  client : Client.Session
  toClient : Link
  toServer : Link

namespace Pair

inductive Action
  | server (a : Server.Action)
  | client (a : Client.Action)
  | emit (k : Nat) (event : String) (data : Option Bytes)
  | serverReads
  | clientReads

/-- A frame that is no data frame of the other end. -/
def control : Frame → Bool
  | some (some (.text _)) | some (some (.binary _)) => false
  | _ => true

/-- What a step of the server puts on the link: the message its write task has sent, or
the disconnect packet for a request that it rejects. -/
def serverWrites (cfg : Server.NamespaceConfig) (c : Server.Connection) :
    Server.Action → List Outgoing
  | .write i => Link.written c.write i
  | .main .go =>
    if c.main = .reject then
      match encodePacketToMessage cfg.codec .newDisconnect with
      | .ok m => [⟨.disconnect, m⟩]
      | .error _ => []
    else []
  | _ => []

def clientWrites (s : Client.Session) : Client.Action → List Outgoing
  | .write i => Link.written s.write i
  | _ => []

/-- A step of the server that does not read from the link. -/
def serverStep (cfg : PairConfig) (p : Pair) (a : Server.Action) : Option Pair :=
  match Server.Connection.step cfg.server p.server a with
  | none => none
  | some server => some { p with
      server
      toClient := p.toClient.push (serverWrites cfg.server p.server a) }

def clientStep (cfg : PairConfig) (p : Pair) (a : Client.Action) : Option Pair :=
  match Client.Session.step cfg.client p.client a with
  | none => none
  | some client => some { p with
      client
      toServer := p.toServer.push (clientWrites p.client a) }

def step (cfg : PairConfig) (p : Pair) : Action → Option Pair
  | .server (.read (.frame f)) =>
    if control f then serverStep cfg p (.read (.frame f)) else none
  | .server a => serverStep cfg p a
  | .client (.read (.frame f)) =>
    if control f then clientStep cfg p (.read (.frame f)) else none
  | .client (.emit _ _) => none
  | .client a => clientStep cfg p a
  | .emit k event data =>
    match encodePacketToMessage cfg.client.codec (.newEvent event data) with
    | .error _ => none
    | .ok m => clientStep cfg p (.emit k m)
  | .serverReads =>
    match p.toServer.flight with
    | [] => none
    | m :: rest =>
      match Server.Connection.step cfg.server p.server (.read (.frame (some (some m.message)))) with
      | none => none
      | some server => some { p with
          server
          toServer := { arrived := p.toServer.arrived ++ [m], flight := rest } }
  | .clientReads =>
    match p.toClient.flight with
    | [] => none
    | m :: rest =>
      match Client.Session.step cfg.client p.client (.read (.frame (some (some m.message)))) with
      | none => none
      | some client => some { p with
          client
          toClient := { arrived := p.toClient.arrived ++ [m], flight := rest } }

def initial (cfg : PairConfig) : Pair where
  server := .initial cfg.server
  client := .initial cfg.client
  toClient := .empty
  toServer := .empty

/-- The two ends under every interleaving of their steps and of the deliveries. -/
def system (cfg : PairConfig) : System Pair Action where
  init := initial cfg
  step := step cfg

variable {cfg : PairConfig} {p p' : Pair}

/-! ## The four kinds of steps -/

/-- A step of the pair is a step of one end, with its part in the links. -/
theorem step_cases {a : Action} (h : step cfg p a = some p') :
    (∃ b server, Server.Connection.step cfg.server p.server b = some server ∧
      (∀ f, b = .read (.frame f) → control f = true) ∧
      p' = { p with server, toClient := p.toClient.push (serverWrites cfg.server p.server b) }) ∨
    (∃ b client, Client.Session.step cfg.client p.client b = some client ∧
      (∀ f, b = .read (.frame f) → control f = true) ∧
      Client.Session.EmitsEvents cfg.client.codec b ∧
      p' = { p with client, toServer := p.toServer.push (clientWrites p.client b) }) ∨
    (∃ m rest server, p.toServer.flight = m :: rest ∧
      Server.Connection.step cfg.server p.server (.read (.frame (some (some m.message)))) =
        some server ∧
      p' = { p with server, toServer := ⟨p.toServer.arrived ++ [m], rest⟩ }) ∨
    (∃ m rest client, p.toClient.flight = m :: rest ∧
      Client.Session.step cfg.client p.client (.read (.frame (some (some m.message)))) =
        some client ∧
      p' = { p with client, toClient := ⟨p.toClient.arrived ++ [m], rest⟩ }) := by
  have hserver : ∀ b, serverStep cfg p b = some p' →
      ∃ server, Server.Connection.step cfg.server p.server b = some server ∧
        p' = { p with server, toClient := p.toClient.push (serverWrites cfg.server p.server b) } := by
    intro b hb
    unfold serverStep at hb
    split at hb
    · cases hb
    · rename_i server hs
      cases hb
      exact ⟨server, hs, rfl⟩
  have hclient : ∀ b, clientStep cfg p b = some p' →
      ∃ client, Client.Session.step cfg.client p.client b = some client ∧
        p' = { p with client, toServer := p.toServer.push (clientWrites p.client b) } := by
    intro b hb
    unfold clientStep at hb
    split at hb
    · cases hb
    · rename_i client hs
      cases hb
      exact ⟨client, hs, rfl⟩
  unfold step at h
  split at h
  · rename_i f
    split at h
    · rename_i hc
      obtain ⟨server, hs, rfl⟩ := hserver _ h
      exact .inl ⟨_, server, hs, by rintro f' ⟨⟩; exact hc, rfl⟩
    · cases h
  · rename_i b hne
    obtain ⟨server, hs, rfl⟩ := hserver _ h
    exact .inl ⟨_, server, hs, fun f hf => absurd hf (hne f), rfl⟩
  · rename_i f
    split at h
    · rename_i hc
      obtain ⟨client, hs, rfl⟩ := hclient _ h
      exact .inr (.inl ⟨_, client, hs, by rintro f' ⟨⟩; exact hc, by rintro k m ⟨⟩, rfl⟩)
    · cases h
  · cases h
  · rename_i b hne hne'
    obtain ⟨client, hs, rfl⟩ := hclient _ h
    exact .inr (.inl ⟨_, client, hs, fun f hf => absurd hf (hne f),
      fun k m hm => absurd hm (hne' k m), rfl⟩)
  · rename_i k event data
    split at h
    · cases h
    · rename_i m hm
      obtain ⟨client, hs, rfl⟩ := hclient _ h
      exact .inr (.inl ⟨_, client, hs, by rintro f ⟨⟩, by rintro k m ⟨⟩; exact ⟨event, data, hm⟩,
        rfl⟩)
  · split at h
    · cases h
    · rename_i m rest hf
      split at h
      · cases h
      · rename_i server hs
        cases h
        exact .inr (.inr (.inl ⟨m, rest, server, hf, hs, rfl⟩))
  · split at h
    · cases h
    · rename_i m rest hf
      split at h
      · cases h
      · rename_i client hs
        cases h
        exact .inr (.inr (.inr ⟨m, rest, client, hf, hs, rfl⟩))

/-! ## What is received is what arrived -/

theorem not_carries_control {codec : PacketCodec} {heartbeats : Bool} {m : Message}
    (h : control (some (some m)) = true) (t : WsIoPacketType) :
    carries codec heartbeats t m = false := by
  cases m <;> first | rfl | cases h

theorem server_quiet {c c' : Server.Connection} {b : Server.Action}
    (h : Server.Connection.step cfg.server c b = some c')
    (hb : ∀ f, b = .read (.frame f) → control f = true) (t : WsIoPacketType) :
    Server.Connection.packetsReceived cfg.server.codec t c'.log =
      Server.Connection.packetsReceived cfg.server.codec t c.log := by
  by_cases hf : ∃ f, b = .read (.frame f)
  · obtain ⟨f, rfl⟩ := hf
    have hc := hb f rfl
    rw [Server.Connection.log_frame h]
    match f with
    | none | some none => rfl
    | some (some m) =>
      simp [Server.Connection.received, Server.Connection.receivedPacket, not_carries_control hc]
  · push Not at hf
    exact Server.Connection.packetsReceived_quiet h hf t

theorem client_quiet {s s' : Client.Session} {b : Client.Action}
    (h : Client.Session.step cfg.client s b = some s')
    (hb : ∀ f, b = .read (.frame f) → control f = true) (t : WsIoPacketType) :
    Client.Session.packetsReceived cfg.client.codec t s'.log =
      Client.Session.packetsReceived cfg.client.codec t s.log := by
  by_cases hf : ∃ f, b = .read (.frame f)
  · obtain ⟨f, rfl⟩ := hf
    have hc := hb f rfl
    rw [Client.Session.log_frame h]
    match f with
    | none | some none => rfl
    | some (some m) =>
      simp [Client.Session.received, Client.Session.receivedPacket, not_carries_control hc]
  · push Not at hf
    exact Client.Session.packetsReceived_quiet h hf t

/-! ## The joint invariant -/

/-- What the server may put on the link, and what the client may. -/
def fromServer (codec : PacketCodec) (m : Outgoing) : Prop :=
  Authentic codec m ∧ m.origin ≠ .ping

def fromClient (codec : PacketCodec) (m : Outgoing) : Prop :=
  Authentic codec m ∧ m.origin ≠ .ready ∧ m.origin ≠ .disconnect

structure Agreement (cfg : PairConfig) (p : Pair) : Prop where
  server : Server.Connection.Exchange cfg.server p.server
  client : Client.Session.Exchange cfg.client p.client
  down : Link.Carried (fromServer cfg.server.codec) p.server.toEndpoint p.server.write p.toClient
  up : Link.Carried (fromClient cfg.client.codec) p.client.toEndpoint p.client.write p.toServer
  clientRead : ∀ t, Client.Session.packetsReceived cfg.client.codec t p.client.log =
    p.toClient.arrived.countP (fun m => carries cfg.client.codec false t m.message)
  serverRead : ∀ t, Server.Connection.packetsReceived cfg.server.codec t p.server.log =
    p.toServer.arrived.countP (fun m => carries cfg.server.codec true t m.message)
  serverBails : ∀ e s, .bailed .init e s ∈ p.server.log → isDown s = true
  clientBails : ∀ t e s, t = .init ∨ t = .ready → .bailed t e s ∈ p.client.log → isDown s = true

namespace Agreement

/-- The client has received no more init, ready or event packets than the server sent. -/
theorem clientReceived_le (h : Agreement cfg p) {t : WsIoPacketType} {o : Origin}
    (ho : ∀ o' : Origin, o'.type = some t ↔ o' = o) (hd : o ≠ .disconnect) :
    Client.Session.packetsReceived cfg.client.codec t p.client.log ≤
      countOf o p.server.channel.sent := by
  rw [h.clientRead, cfg.same_codec, Link.countP_carries ?_ ho]
  · exact h.down.arrived_le hd
  · intro m hm
    have hg := h.down.good m (by simp [Link.taken, hm])
    exact ⟨hg.1, fun _ => hg.2⟩

theorem serverReceived_le (h : Agreement cfg p) {t : WsIoPacketType} {o : Origin}
    (ho : ∀ o' : Origin, o'.type = some t ↔ o' = o) (hd : o ≠ .disconnect) :
    Server.Connection.packetsReceived cfg.server.codec t p.server.log ≤
      countOf o p.client.channel.sent := by
  rw [h.serverRead, Link.countP_carries ?_ ho]
  · exact h.up.arrived_le hd
  · intro m hm
    have hg := h.up.good m (by simp [Link.taken, hm])
    rw [← cfg.same_codec]
    exact ⟨hg.1, fun h => absurd h (by simp)⟩

theorem clientInits (h : Agreement cfg p) :
    Client.Session.packetsReceived cfg.client.codec .init p.client.log ≤
      countOf .init p.server.channel.sent :=
  h.clientReceived_le (by intro o; cases o <;> decide) (by simp)

theorem clientReadies (h : Agreement cfg p) :
    Client.Session.packetsReceived cfg.client.codec .ready p.client.log ≤
      countOf .ready p.server.channel.sent :=
  h.clientReceived_le (by intro o; cases o <;> decide) (by simp)

theorem serverInits (h : Agreement cfg p) :
    Server.Connection.packetsReceived cfg.server.codec .init p.server.log ≤
      countOf .init p.client.channel.sent :=
  h.serverReceived_le (by intro o; cases o <;> decide) (by simp)

theorem serverEvents (h : Agreement cfg p) :
    Server.Connection.packetsReceived cfg.server.codec .event p.server.log ≤
      countOf .event p.client.channel.sent :=
  h.serverReceived_le (by intro o; cases o <;> decide) (by simp)

/-- Once the client has received a ready packet, the server is past its handshake. -/
theorem server_past (h : Agreement cfg p)
    (hr : 1 ≤ Client.Session.packetsReceived cfg.client.codec .ready p.client.log) :
    p.server.state = .ready ∨ isDown p.server.state = true :=
  (h.server.reading.sent (Nat.le_trans hr h.clientReadies)).2

/-- An init packet reaches the server in `AwaitingInit`, or too late. -/
theorem server_entering (h : Agreement cfg p) (he : p.server.read.entering = true)
    (hs : p.server.state ≠ .awaitingInit) : isDown p.server.state = true := by
  have hn := h.server.reading.entering he
  have hi := h.serverInits
  have honce := h.client.reading.once
  have hpast := h.server.reading.past
  -- the client answered an init packet, so the server has sent one
  have hsent := (h.client.reading.sent (by omega)).1
  have hcreated := h.server.initState (.inr (Nat.le_trans hsent h.clientInits))
  cases hst : p.server.state with
  | created => exact absurd hst hcreated
  | awaitingInit => exact absurd hst hs
  | closed => rfl
  | closing => rfl
  | initiating | activating | ready =>
    rw [hst] at hpast
    have := (hpast rfl).2 he
    omega

/-- An init packet reaches the client in `AwaitingInit`, or too late. -/
theorem client_entering (h : Agreement cfg p) (he : p.client.read.entering = true)
    (hs : p.client.state ≠ .awaitingInit) : isDown p.client.state = true := by
  have hi := h.clientInits
  have honce := h.server.initOnce.1
  have hpast := h.client.reading.past
  cases hst : p.client.state with
  | created =>
    rw [h.client.reading.created hst] at he
    cases he
  | awaitingInit => exact absurd hst hs
  | closed => rfl
  | closing => rfl
  | readying => exact absurd hst h.client.reading.valid
  | initiating | awaitingReady | ready =>
    rw [hst] at hpast
    have := (hpast rfl).2 he
    omega

/-- A ready packet reaches the client in `AwaitingReady`, or too late. -/
theorem client_readying (h : Agreement cfg p) (he : p.client.read.readying = true)
    (hs : p.client.state ≠ .awaitingReady) : isDown p.client.state = true := by
  have hn := h.client.reading.readying he
  have hr := h.clientReadies
  have honce := h.server.reading.once
  -- the server answered the client's init packet
  have hserver := (h.server.reading.sent (by omega)).1
  have hsent := (h.client.reading.sent (Nat.le_trans hserver h.serverInits)).2
  rcases hsent with hst | hst | hst
  · exact absurd hst hs
  · have := (h.client.reading.ready hst).2 he
    omega
  · exact hst

end Agreement

/-! ## Steps -/

/-- A step of the server and the link to its client. -/
theorem down_step {c c' : Server.Connection} {b : Server.Action} {w : Link}
    (h : Server.Connection.step cfg.server c b = some c')
    (hx : Server.Connection.Exchange cfg.server c)
    (hd : Link.Carried (fromServer cfg.server.codec) c.toEndpoint c.write w) :
    Link.Carried (fromServer cfg.server.codec) c'.toEndpoint c'.write
      (w.push (serverWrites cfg.server c b)) := by
  by_cases hb : ∃ i, b = .write i
  · obtain ⟨i, rfl⟩ := hb
    obtain ⟨e, pc, he, rfl, -⟩ := Server.Connection.writeStep_some h
    exact hd.writeStep hx.authentic he
  · push Not at hb
    have hframe : Link.Carried (fromServer cfg.server.codec) c'.toEndpoint c'.write w := by
      rcases Server.Connection.step_write h with ⟨hw, -, hr⟩ | ⟨-, -, hw, hc⟩ | ⟨i, e, pc, hi, -⟩
      · exact hd.frame hr (.inl hw)
      · exact hd.frame (by rw [hc]) (.inr (by rw [hw]; rfl))
      · exact absurd hi (hb i)
    unfold serverWrites
    split
    · rename_i i
      exact absurd rfl (hb i)
    · split
      · split
        · rename_i m hm
          exact hframe.push_disconnect ⟨⟨_, rfl, hm⟩, by simp⟩ rfl
        · simpa [Link.push] using hframe
      · simpa [Link.push] using hframe
    · simpa [Link.push] using hframe

/-- A step of the client and the link to its server. -/
theorem up_step {s s' : Client.Session} {b : Client.Action} {w : Link}
    (h : Client.Session.step cfg.client s b = some s')
    (hx : Client.Session.Exchange cfg.client s)
    (hu : Link.Carried (fromClient cfg.client.codec) s.toEndpoint s.write w) :
    Link.Carried (fromClient cfg.client.codec) s'.toEndpoint s'.write
      (w.push (clientWrites s b)) := by
  by_cases hb : ∃ i, b = .write i
  · obtain ⟨i, rfl⟩ := hb
    obtain ⟨e, pc, he, rfl, -⟩ := Client.Session.writeStep_some h
    exact hu.writeStep hx.authentic he
  · push Not at hb
    have hframe : Link.Carried (fromClient cfg.client.codec) s'.toEndpoint s'.write w := by
      rcases Client.Session.step_write h with ⟨hw, -, hr⟩ | ⟨-, -, hw, hc⟩ | ⟨i, e, pc, hi, -⟩
      · exact hu.frame hr (.inl hw)
      · exact hu.frame (by rw [hc]) (.inr (by rw [hw]; rfl))
      · exact absurd hi (hb i)
    unfold clientWrites
    split
    · rename_i i
      exact absurd rfl (hb i)
    · simpa [Link.push] using hframe

theorem serverBails_step {c' : Server.Connection} {b : Server.Action} (hi : Agreement cfg p)
    (h : Server.Connection.step cfg.server p.server b = some c') (e : Error)
    (s : Server.ConnectionState) (hb : .bailed .init e s ∈ c'.log) : isDown s = true := by
  rcases Server.Connection.step_bailed h hb with hb | ⟨he, rfl, hs⟩
  · exact hi.serverBails e s hb
  · exact hi.server_entering he hs

theorem clientBails_step {s' : Client.Session} {b : Client.Action} (hi : Agreement cfg p)
    (h : Client.Session.step cfg.client p.client b = some s') (t : WsIoPacketType) (e : Error)
    (s : Client.SessionState) (ht : t = .init ∨ t = .ready) (hb : .bailed t e s ∈ s'.log) :
    isDown s = true := by
  rcases Client.Session.step_bailed h ht hb with hb | ⟨-, he, rfl, hs⟩ | ⟨-, he, rfl, hs⟩
  · exact hi.clientBails t e s ht hb
  · exact hi.client_entering he hs
  · exact hi.client_readying he hs

theorem agreement_step {a : Action} (h : step cfg p a = some p') (hi : Agreement cfg p) :
    Agreement cfg p' := by
  rcases step_cases h with ⟨b, server, hs, hf, rfl⟩ | ⟨b, client, hs, hf, he, rfl⟩ |
    ⟨m, rest, server, hw, hs, rfl⟩ | ⟨m, rest, client, hw, hs, rfl⟩
  · exact {
      server := Server.Connection.exchange_step hs hi.server
      client := hi.client
      down := down_step hs hi.server hi.down
      up := hi.up
      clientRead := hi.clientRead
      serverRead := fun t => (server_quiet hs hf t).trans (hi.serverRead t)
      serverBails := serverBails_step hi hs
      clientBails := hi.clientBails }
  · exact {
      server := hi.server
      client := Client.Session.exchange_step hs he hi.client
      down := hi.down
      up := up_step hs hi.client hi.up
      clientRead := fun t => (client_quiet hs hf t).trans (hi.clientRead t)
      serverRead := hi.serverRead
      serverBails := hi.serverBails
      clientBails := clientBails_step hi hs }
  · have hdown := down_step hs hi.server hi.down
    exact {
      server := Server.Connection.exchange_step hs hi.server
      client := hi.client
      down := by simpa [serverWrites, Link.push] using hdown
      up := hi.up.deliver hw
      clientRead := hi.clientRead
      serverRead := by
        intro t
        have hr := hi.serverRead t
        rw [Server.Connection.log_frame hs]
        simp [Server.Connection.received, Server.Connection.receivedPacket, hr]
        rfl
      serverBails := serverBails_step hi hs
      clientBails := hi.clientBails }
  · have hup := up_step hs hi.client hi.up
    exact {
      server := hi.server
      client := Client.Session.exchange_step hs (by rintro k m ⟨⟩) hi.client
      down := hi.down.deliver hw
      up := by simpa [clientWrites, Link.push] using hup
      clientRead := by
        intro t
        have hr := hi.clientRead t
        rw [Client.Session.log_frame hs]
        simp [Client.Session.received, Client.Session.receivedPacket, hr]
        rfl
      serverRead := hi.serverRead
      serverBails := hi.serverBails
      clientBails := clientBails_step hi hs }

theorem agreement_initial (cfg : PairConfig) : Agreement cfg (initial cfg) where
  server := Server.Connection.exchange_initial cfg.server
  client := Client.Session.exchange_initial cfg.client
  down := .empty _ rfl
  up := .empty _ rfl
  clientRead := fun _ => rfl
  serverRead := fun _ => rfl
  serverBails := by simp [initial, Server.Connection.initial]
  clientBails := by simp [initial, Client.Session.initial]

theorem agreement_of_reachable (h : (system cfg).Reachable p) : Agreement cfg p :=
  h.invariant (I := Agreement cfg) (agreement_initial cfg)
    fun _ _ _ _ hs hi => agreement_step hs hi

/-- An event of the client finds the server past its handshake. -/
theorem Agreement.eventCheck (hi : Agreement cfg p) {e : Option String} {d : Option Bytes}
    (hr : p.server.read = .eventCheck e d) :
    p.server.state = .ready ∨ isDown p.server.state = true := by
  have hev := hi.server.checking e d hr
  exact hi.server_past (hi.client.events (Nat.le_trans hev hi.serverEvents))

/-- **Handshake agreement.** In every run of a session and a connection with the same
codec, under every interleaving of deliveries, handler outcomes, timeouts and closes:

* a client in `Ready` has a server in `Ready`, `Closing` or `Closed`;
* an event of the client never finds the server still in its handshake;
* neither end takes its "invalid state" bail on an init or ready packet of the other
  unless it is already closing. -/
theorem handshake_agreement (h : (system cfg).Reachable p) :
    (p.client.state = .ready → p.server.state = .ready ∨ isDown p.server.state = true) ∧
    (∀ e d, p.server.read = .eventCheck e d →
      p.server.state = .ready ∨ isDown p.server.state = true) ∧
    (∀ e s, .bailed .init e s ∈ p.server.log → isDown s = true) ∧
    (∀ t e s, t = .init ∨ t = .ready → .bailed t e s ∈ p.client.log → isDown s = true) := by
  have hi := agreement_of_reachable h
  refine ⟨fun hc => ?_, fun e d hr => hi.eventCheck hr, hi.serverBails, hi.clientBails⟩
  exact hi.server_past (hi.client.reading.ready hc).1

/-- Both ends with the postcard codec and no handlers. -/
def postcard : PairConfig where
  server := .postcard false
  client := .postcard false
  same_codec := rfl

/-- A handshake over the links, up to the client's first event at the server. -/
def handshakeRun : List Action := List.flatten [
  [.server (.main .go), .server (.main (.upgraded true)), .server (.main (.status true)),
    .server (.main (.status true))],
  List.replicate 8 (.server (.main .go)), List.replicate 2 (.server (.write .go)),
  List.replicate 10 (.client (.owner .go)), [.clientReads],
  List.replicate 8 (.client (.read .go)), List.replicate 2 (.client (.write .go)),
  [.serverReads], List.replicate 13 (.server (.read .go)),
  List.replicate 2 (.server (.write .go)), [.clientReads],
  List.replicate 5 (.client (.read .go)),
  [.emit 0 "a" none, .client (.emitter 0), .client (.emitter 0)],
  List.replicate 2 (.client (.write .go)), [.serverReads]]

theorem handshake_agreement_run : ∃ p, (system postcard).Reachable p ∧
    p.client.state = .ready ∧ p.server.read = .eventCheck (some "a") none ∧
    (p.server.state = .ready ∨ isDown p.server.state = true) := by
  obtain ⟨p, hr, hp⟩ := System.exists_reachable_of_exec (S := system postcard)
    (l := handshakeRun)
    (p := fun p => decide (p.client.state = .ready ∧ p.server.read = .eventCheck (some "a") none))
    (by decide +kernel)
  obtain ⟨hc, hs⟩ := of_decide_eq_true hp
  exact ⟨p, hr, hc, hs, (handshake_agreement hr).1 hc⟩

end Pair

end WsIo
