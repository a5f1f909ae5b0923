import Cnet.Net.AddressText
import Cnet.Net.ServerConnections
import Cnet.Net.TcpClient

/-!
# The names of connections

A server's buffer has room for every address and every number. A client's is too small for
the longer addresses, and then it is the number that is cut off.
-/

namespace Cnet.Net

open Cnet.Base (snprintf snprintf_append snprintf_append_repr append_repr_injective)
open Cnet.Support (CharArray Endian)
open Servers (Settings)
open Servers.World (intMax connName connName_injective)

/-- `connName` in `TcpClient::newConnection`, for a peer that prints as `ipPort`. -/
def Clients.connName (name_ ipPort : String) (connId : Nat) : String :=
  name_ ++ snprintf 32 (":" ++ ipPort ++ "#" ++ Nat.repr connId)

/-- Connections with different numbers have different names. -/
def Differ (name : Nat → String) : Prop :=
  ∀ i j, 1 ≤ i → i ≤ intMax → 1 ≤ j → j ≤ intMax → i ≠ j → name i ≠ name j

theorem clientNames_differ_iff {name ipPort : String} :
    Differ (Clients.connName name ipPort) ↔ ipPort.length ≤ 19 := by
  constructor
  · intro hdiffer
    by_contra hlong
    -- the first nine digits fill the buffer
    have hcut : ∀ digit : String, snprintf 32 (":" ++ ipPort ++ "#" ++ ("100000000" ++ digit)) =
        snprintf 32 (":" ++ ipPort ++ "#" ++ "100000000") := by
      intro digit
      rw [← String.append_assoc]
      apply snprintf_append
      rw [String.length_append, String.length_append, String.length_append]
      show 31 ≤ 1 + ipPort.length + 1 + 9
      omega
    have hsame : Clients.connName name ipPort 1000000000 =
        Clients.connName name ipPort 1000000001 := by
      have hzero : Nat.repr 1000000000 = "100000000" ++ "0" := by decide
      have hone : Nat.repr 1000000001 = "100000000" ++ "1" := by decide
      rw [Clients.connName, Clients.connName, hzero, hone, hcut, hcut]
    exact hdiffer 1000000000 1000000001 (by decide) (by decide) (by decide) (by decide)
      (by decide) hsame
  · intro hshort i j hi hi' hj hj' hne heq
    have hroom : (":" ++ ipPort ++ "#").length + 10 < 32 := by
      rw [String.length_append, String.length_append]
      show 1 + ipPort.length + 1 + 10 < 32
      omega
    have hwhole : ∀ k, k ≤ intMax → Clients.connName name ipPort k =
        name ++ (":" ++ ipPort ++ "#") ++ Nat.repr k := by
      intro k hk
      rw [Clients.connName, snprintf_append_repr (Nat.lt_of_le_of_lt hk (by decide)) hroom]
      exact String.append_assoc.symm
    rw [hwhole i hi', hwhole j hj'] at heq
    exact hne (append_repr_injective heq)

/-- The names that `TcpServer::newConnection` gives. -/
def ServerNamesDiffer (host : Endian) (net : Presentation) (listen : InetAddress) (name : String) :
    Prop :=
  ∃ s : Settings, s.name_ = name ∧ listen.toIpPort host net = some s.ipPort_ ∧
    Differ (connName s)

/-- The names that `TcpClient::newConnection` gives. -/
def ClientNamesDiffer (host : Endian) (net : Presentation) (peer : InetAddress) (name : String) :
    Prop :=
  ∃ ipPort, peer.toIpPort host net = some ipPort ∧ Differ (Clients.connName name ipPort)

variable {host : Endian} {net : Presentation} {af : Family} {text : String}

/-- An address with its port has room in the server's buffer. -/
theorem server_names_differ (hnet : Documented net) {listen : InetAddress}
    (hlisten : listen.family host = af.value) (name : String) :
    ServerNamesDiffer host net listen name := by
  obtain ⟨text, htext⟩ := hnet.prints af (listen.get af.addrField)
  have hfits : (text ++ ":" ++ Nat.repr (listen.toPort host).toNat).length ≤ 51 := by
    have hlt : text.length < 46 := Nat.lt_of_lt_of_le htext.fits (by cases af <;> decide)
    have hport := length_port (listen.toPort host)
    rw [String.append_assoc, String.length_append]
    omega
  refine ⟨⟨name, _, 0, hfits⟩, rfl, toIpPort_eq hlisten htext, ?_⟩
  intro i j _ hi _ hj hne heq
  exact hne (connName_injective hi hj heq)

theorem client_names_differ_iff {peer : InetAddress} (hpeer : peer.family host = af.value)
    (htext : Prints net af (peer.get af.addrField) text) (name : String) :
    ClientNamesDiffer host net peer name ↔
      text.length + (Nat.repr (peer.toPort host).toNat).length ≤ 18 := by
  have hprints := toIpPort_eq hpeer htext
  have hlength : (text ++ ":" ++ Nat.repr (peer.toPort host).toNat).length =
      text.length + 1 + (Nat.repr (peer.toPort host).toNat).length := by
    rw [String.length_append, String.length_append]
    rfl
  constructor
  · rintro ⟨ipPort, hipPort, hdiffer⟩
    obtain rfl := Option.some.inj (hprints.symm.trans hipPort)
    have hle := clientNames_differ_iff.mp hdiffer
    omega
  · intro hle
    exact ⟨_, hprints, clientNames_differ_iff.mpr (by omega)⟩

/-- The names of a server's connections are always different, and those of a client's exactly
if the text of the peer's IP and port is short enough. -/
theorem names_differ_iff (hnet : Documented net) {af' : Family} {listen peer : InetAddress}
    (hlisten : listen.family host = af'.value) (hpeer : peer.family host = af.value)
    (htext : Prints net af (peer.get af.addrField) text) (server client : String) :
    ServerNamesDiffer host net listen server ∧ ClientNamesDiffer host net peer client ↔
      text.length + (Nat.repr (peer.toPort host).toNat).length ≤ 18 :=
  (and_iff_right (server_names_differ hnet hlisten server)).trans
    (client_names_differ_iff hpeer htext client)

/-- A dotted address with a port, and what it holds. -/
def endpoint (ip : CharArray 4) (port : UInt16) : InetAddress :=
  InetAddress.ofIp .little plain (dotted ip) port false (.zero 28)

theorem holds_endpoint (ip : CharArray 4) (port : UInt16) :
    Holds .little (endpoint ip port) .AF_INET ip port :=
  holds_ofIp .little port (.zero 28) (plain_documented.dotted ip)

theorem prints_endpoint (ip : CharArray 4) (port : UInt16) :
    Prints plain .AF_INET ((endpoint ip port).get Family.AF_INET.addrField) (dotted ip) := by
  have hip := (holds_endpoint ip port).ip
  rw [hip]
  exact plain_prints .AF_INET ip

theorem names_differ_iff_short :
    ServerNamesDiffer .little plain (endpoint ⟨[10, 0, 0, 1], rfl⟩ 80) "server" ∧
        ClientNamesDiffer .little plain (endpoint ⟨[10, 0, 0, 1], rfl⟩ 80) "client" ↔
      (dotted ⟨[10, 0, 0, 1], rfl⟩).length +
        (Nat.repr ((endpoint ⟨[10, 0, 0, 1], rfl⟩ 80).toPort .little).toNat).length ≤ 18 :=
  names_differ_iff plain_documented (holds_endpoint _ 80).family_eq (holds_endpoint _ 80).family_eq
    (prints_endpoint _ 80) "server" "client"

/-- With the longest IPv4 address only nine digits of the number are kept. -/
theorem names_differ_fails :
    ¬ (ServerNamesDiffer .little plain (endpoint ⟨[255, 255, 255, 255], rfl⟩ 65535) "server" ∧
      ClientNamesDiffer .little plain (endpoint ⟨[255, 255, 255, 255], rfl⟩ 65535) "client") := by
  rintro ⟨-, hclient⟩
  have hport : (endpoint ⟨[255, 255, 255, 255], rfl⟩ 65535).toPort .little = 65535 :=
    (holds_endpoint _ 65535).toPort
  have hshort := (client_names_differ_iff (holds_endpoint _ 65535).family_eq
    (prints_endpoint _ 65535) "client").mp hclient
  rw [hport] at hshort
  exact absurd hshort (by decide)

end Cnet.Net
