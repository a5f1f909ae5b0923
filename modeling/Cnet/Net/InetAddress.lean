import Cnet.Base.Printf
import Cnet.Net.Endian
import Cnet.Support.Layout

/-!
# Socket addresses

An `InetAddress` is the bytes of its union, over which `sockaddr_in` and `sockaddr_in6` are
laid. Its constructors write into whatever these bytes were.

`inet_ntop` and `inet_pton` are parameters. A text that does not fit is `none`, as is one
that is not an address. The errors are not logged here.
-/

namespace Cnet.Net

open Cnet.Base (snprintf snprintf_of_lt)
open Cnet.Support

inductive Family
  | AF_INET
  | AF_INET6
deriving DecidableEq, Repr

namespace Family

/-- The `sa_family_t`. -/
def value : Family → Nat
  | AF_INET => 2
  | AF_INET6 => 10

/-- The size of an `in_addr`, and of an `in6_addr`. -/
def addrSize : Family → Nat
  | AF_INET => 4
  | AF_INET6 => 16

/-- `INET_ADDRSTRLEN` and `INET6_ADDRSTRLEN` -/
def strLen : Family → Nat
  | AF_INET => 16
  | AF_INET6 => 46

end Family

/-- The functions that turn addresses into text and back. -/
structure Presentation where
  inet_ntop : (af : Family) → CharArray af.addrSize → Nat → Option String
  inet_pton : (af : Family) → String → Option (CharArray af.addrSize)

/-- The union. -/
abbrev InetAddress := CharArray 28

namespace InetAddress

def addr_ : Field 28 16 := ⟨0, by decide⟩

def sin_family : Field 28 2 := ⟨0, by decide⟩

def sin_port : Field 28 2 := ⟨2, by decide⟩

def sin_addr : Field 28 4 := ⟨4, by decide⟩

def addr6_ : Field 28 28 := ⟨0, by decide⟩

def sin6_family : Field 28 2 := ⟨0, by decide⟩

def sin6_port : Field 28 2 := ⟨2, by decide⟩

def sin6_addr : Field 28 16 := ⟨8, by decide⟩

end InetAddress

open InetAddress

def kInaddrAny : Nat := 0

def kInaddrLoopback : Nat := 0x7f000001

def in6addr_any : CharArray 16 := .zero 16

def in6addr_loopback : CharArray 16 := ⟨List.replicate 15 0 ++ [1], by decide⟩

variable (host : Endian) (net : Presentation)

namespace sockets

def fromIpPort (ip : String) (port : UInt16) (addr : InetAddress) : InetAddress :=
  let addr := addr.put sin_family (host.block 2 Family.AF_INET.value)
  let addr := addr.put sin_port (host.block 2 (hostToNetwork16 host port).toNat)
  match net.inet_pton .AF_INET ip with
  | some a => addr.put sin_addr a
  | none => addr

/-- `fromIpPort`, for a `sockaddr_in6`. -/
def fromIpPort6 (ip : String) (port : UInt16) (addr : InetAddress) : InetAddress :=
  let addr := addr.put sin6_family (host.block 2 Family.AF_INET6.value)
  let addr := addr.put sin6_port (host.block 2 (hostToNetwork16 host port).toNat)
  match net.inet_pton .AF_INET6 ip with
  | some a => addr.put sin6_addr a
  | none => addr

/-- `toIp`, from what is in the buffer to what is then in it. -/
def toIp (buf : String) (size : Nat) (addr : InetAddress) : Option String :=
  if host.value (addr.get sin_family).cells = Family.AF_INET.value then do
    assert (Family.AF_INET.strLen ≤ size)
    some ((net.inet_ntop .AF_INET (addr.get sin_addr) size).getD buf)
  else if host.value (addr.get sin_family).cells = Family.AF_INET6.value then do
    assert (Family.AF_INET6.strLen ≤ size)
    some ((net.inet_ntop .AF_INET6 (addr.get sin6_addr) size).getD buf)
  else some buf

def toIpPort (buf : String) (size : Nat) (addr : InetAddress) : Option String := do
  let buf ← toIp host net buf size addr
  let port := networkToHost16 host (.ofNat (host.value (addr.get sin_port).cells))
  assert (buf.length < size)
  some (buf ++ snprintf (size - buf.length) (":" ++ Nat.repr port.toNat))

end sockets

namespace InetAddress

/-- `InetAddress(uint16_t, bool, bool)` -/
def ofPort (port : UInt16) (loopbackOnly ipv6 : Bool) (raw : InetAddress) : InetAddress :=
  if ipv6 then
    let addr := raw.put addr6_ (.zero 28)
    let addr := addr.put sin6_family (host.block 2 Family.AF_INET6.value)
    let ip := if loopbackOnly then in6addr_loopback else in6addr_any
    let addr := addr.put sin6_addr ip
    addr.put sin6_port (host.block 2 (sockets.hostToNetwork16 host port).toNat)
  else
    let addr := raw.put addr_ (.zero 16)
    let addr := addr.put sin_family (host.block 2 Family.AF_INET.value)
    let ip := if loopbackOnly then kInaddrLoopback else kInaddrAny
    let addr := addr.put sin_addr (host.block 4 ip)
    addr.put sin_port (host.block 2 (sockets.hostToNetwork16 host port).toNat)

/-- `InetAddress(StringArg, uint16_t, bool)` -/
def ofIp (ip : String) (port : UInt16) (ipv6 : Bool) (raw : InetAddress) : InetAddress :=
  if ipv6 then sockets.fromIpPort6 host net ip port (raw.put addr6_ (.zero 28))
  else sockets.fromIpPort host net ip port (raw.put addr_ (.zero 16))

def family (addr : InetAddress) : Nat := host.value (addr.get sin_family).cells

def toIpPort (addr : InetAddress) : Option String := sockets.toIpPort host net "" 64 addr

def toPort (addr : InetAddress) : UInt16 :=
  sockets.networkToHost16 host (.ofNat (host.value (addr.get sin_port).cells))

end InetAddress

end Cnet.Net
