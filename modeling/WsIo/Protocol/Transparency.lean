import WsIo.Client.Session
import WsIo.Core.Codecs
import WsIo.Server.Connection

/-!
# What a packet is on the other end

Both ends write a packet as a text or a binary message, by the codec; the reader of the other
end passes text that is UTF-8 only, and the server's read loop takes a binary message of one
byte for a heartbeat. `wire_transparent`: nothing of this shows. Every packet is handed on as it
was sent, under each of the five codecs, and every ping is a heartbeat.
-/

namespace WsIo

open Core

/-- What the reader of the other end yields for a message: tungstenite refuses a text that is
not UTF-8. -/
def delivered : Message → Frame
  | .text bytes => if isUtf8 bytes then some (some (.text bytes)) else some none
  | m => some (some m)

/-- Where `handle_incoming_packet` of the server begins with a packet. -/
def Server.incoming (p : WsIoPacket) : Server.ReadPc :=
  match p.type with
  | .event => .eventCheck p.key p.data
  | .init => .initGet p.data
  | .disconnect | .ready => .next

/-- Where `handle_incoming_packet` of the client begins with a packet. -/
def Client.incoming (p : WsIoPacket) : Client.ReadPc :=
  match p.type with
  | .disconnect => .disconnect
  | .event => .eventCheck p.key p.data
  | .init => .initGet p.data
  | .ready => .readyGet

/-- A frame that carries the packet: the read loops do not skip it, and it decodes to it. -/
def Carries (codec : PacketCodec) (heartbeats : Bool) (f : Frame) (p : WsIoPacket) : Prop :=
  ∃ m bytes, f = some (some m) ∧ packetBytes heartbeats m = some bytes ∧
    codec.decode bytes = .ok p

section

variable {libs : SerdeLibraries} {codec : WsIoPacketCodec}

theorem delivered_encoded (h : codec.Lawful libs) {p : WsIoPacket} {m : Message}
    (he : encodePacketToMessage (codec.toPacketCodec h) p = .ok m) :
    delivered m = some (some m) := by
  unfold encodePacketToMessage at he
  split at he
  · cases he
  · rename_i bytes hb
    change codec.encode libs p = .ok bytes at hb
    rw [WsIoPacketCodec.encode_eq] at hb
    split at he
    · rename_i htext
      cases he
      rw [delivered, if_pos (h.utf8 htext hb)]
    · cases he
      rfl

theorem carries_delivered (h : codec.Lawful libs) {p : WsIoPacket} {m : Message}
    (he : encodePacketToMessage (codec.toPacketCodec h) p = .ok m) (heartbeats : Bool) :
    Carries (codec.toPacketCodec h) heartbeats (delivered m) p := by
  obtain ⟨bytes, hb, hd⟩ := decode_packetBytes he heartbeats
  exact ⟨m, bytes, delivered_encoded h he, hb, hd⟩

theorem server_handleFrame {cfg : Server.NamespaceConfig} {f : Frame} {p : WsIoPacket}
    (h : Carries cfg.codec true f p) :
    Server.Connection.handleFrame cfg f = Server.incoming p := by
  obtain ⟨m, bytes, rfl, hb, hd⟩ := h
  cases m with
  | text b | binary b =>
    cases htype : p.type <;>
      simp only [Server.Connection.handleFrame, hb, hd, Server.incoming, htype]
  | _ => cases hb

theorem client_handleFrame {cfg : Client.ClientConfig} {f : Frame} {p : WsIoPacket}
    (h : Carries cfg.codec false f p) :
    Client.Session.handleFrame cfg f = Client.incoming p := by
  obtain ⟨m, bytes, rfl, hb, hd⟩ := h
  cases m with
  | text b | binary b =>
    cases htype : p.type <;>
      simp only [Client.Session.handleFrame, hb, hd, Client.incoming, htype]
  | _ => cases hb

/-- **The wire is transparent.** Under each of the five codecs, over a library that keeps its
promises, the read loop of either end hands on every packet that the other end encodes, and it
decodes to that packet; and the server's read loop takes every ping for a heartbeat and does
not decode it. -/
theorem wire_transparent {server : Server.NamespaceConfig} {client : Client.ClientConfig}
    (h : codec.Lawful libs) (hserver : server.codec = codec.toPacketCodec h)
    (hclient : client.codec = codec.toPacketCodec h) :
    (∀ p m, encodePacketToMessage client.codec p = .ok m →
      Carries server.codec true (delivered m) p ∧
        Server.Connection.handleFrame server (delivered m) = Server.incoming p) ∧
    (∀ p m, encodePacketToMessage server.codec p = .ok m →
      Carries client.codec false (delivered m) p ∧
        Client.Session.handleFrame client (delivered m) = Client.incoming p) ∧
    packetBytes true Client.Session.pingMessage = none ∧
    Server.Connection.handleFrame server (delivered Client.Session.pingMessage) = .next := by
  refine ⟨fun p m he => ?_, fun p m he => ?_, rfl, rfl⟩
  · rw [hclient] at he
    have hcarries : Carries server.codec true (delivered m) p := by
      rw [hserver]
      exact carries_delivered h he true
    exact ⟨hcarries, server_handleFrame hcarries⟩
  · rw [hserver] at he
    have hcarries : Carries client.codec false (delivered m) p := by
      rw [hclient]
      exact carries_delivered h he false
    exact ⟨hcarries, client_handleFrame hcarries⟩

end

theorem wire_transparent_postcard :
    Server.Connection.handleFrame (.postcard false)
      (delivered (.binary [1, 1, 4, 99, 104, 97, 116, 1, 1, 7])) =
        .eventCheck (some "chat") (some [7]) ∧
    Server.Connection.handleFrame (.postcard false) (delivered Client.Session.pingMessage) =
      .next := by
  have hwire := @wire_transparent Postcard.libraries .postcard (.postcard false) (.postcard false)
    Postcard.library_lawful Postcard.toPacketCodec_postcard.symm Postcard.toPacketCodec_postcard.symm
  exact ⟨(hwire.1 (.newEvent "chat" (some [7])) _ (by decide +kernel)).2, hwire.2.2.2⟩

end WsIo
