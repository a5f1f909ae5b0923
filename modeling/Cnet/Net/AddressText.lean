import Cnet.Net.InetAddress

/-!
# Addresses and their text

What a constructor leaves in the fields decides what `toIpPort` prints and `toPort`
returns, on a host of either byte order. The port is converted in every constructor, and
the constant for the IPv4 loopback address in none.
-/

namespace Cnet.Net

open Cnet.Base (snprintf snprintf_of_lt)
open Cnet.Support
open InetAddress

def Family.addrField : (af : Family) → Field 28 af.addrSize
  | .AF_INET => sin_addr
  | .AF_INET6 => sin6_addr

/-- `inet_ntop` prints the address as `text`, which fits where it is promised to fit. -/
structure Prints (net : Presentation) (af : Family) (ip : CharArray af.addrSize) (text : String) :
    Prop where
  fits : text.length < af.strLen
  ntop : ∀ size, af.strLen ≤ size → net.inet_ntop af ip size = some text

/-- `text` is the canonical text of the address. -/
structure Names (net : Presentation) (af : Family) (ip : CharArray af.addrSize) (text : String) :
    Prop extends Prints net af ip text where
  pton : net.inet_pton af text = some ip

/-- An IPv4 address in dotted form. -/
def dotted (ip : CharArray 4) : String := ".".intercalate (ip.cells.map fun b => Nat.repr b.toNat)

/-- What the manual says of the two functions. -/
structure Documented (net : Presentation) : Prop where
  prints : ∀ af ip, ∃ text, Prints net af ip text
  dotted : ∀ ip, Names net .AF_INET ip (dotted ip)
  any : Names net .AF_INET6 in6addr_any "::"
  loopback : Names net .AF_INET6 in6addr_loopback "::1"

theorem length_port (port : UInt16) : (":" ++ Nat.repr port.toNat).length ≤ 6 := by
  have hport : (Nat.repr port.toNat).length ≤ 5 :=
    (Nat.length_repr_le_iff (by decide)).mpr (Nat.lt_trans port.toNat_lt (by decide))
  rw [String.length_append]
  exact Nat.add_le_add_left hport 1

section
variable {host : Endian} {net : Presentation} {addr : InetAddress} {af : Family} {text : String}
  (hfamily : addr.family host = af.value) (hprints : Prints net af (addr.get af.addrField) text)
include hfamily hprints

theorem toIp_eq (buf : String) : sockets.toIp host net buf 64 addr = some text := by
  have hntop := hprints.ntop 64 (by cases af <;> decide)
  rw [InetAddress.family] at hfamily
  rw [sockets.toIp, hfamily]
  cases af with
  | AF_INET =>
    rw [Family.addrField] at hntop
    rw [if_pos rfl, hntop]
    rfl
  | AF_INET6 =>
    rw [Family.addrField] at hntop
    rw [if_neg (by decide), if_pos rfl, hntop]
    rfl

/-- The buffer holds every address with its port. -/
theorem toIpPort_eq :
    addr.toIpPort host net = some (text ++ ":" ++ Nat.repr (addr.toPort host).toNat) := by
  have hfits : text.length < 46 := Nat.lt_of_lt_of_le hprints.fits (by cases af <;> decide)
  have hport := length_port (addr.toPort host)
  rw [InetAddress.toPort] at hport
  rw [InetAddress.toIpPort, sockets.toIpPort, toIp_eq hfamily hprints, Option.bind_eq_bind,
    Option.bind_some, assert_pos (by omega), Option.bind_eq_bind, Option.bind_some,
    snprintf_of_lt (by omega), InetAddress.toPort, String.append_assoc]

end

/-- The address holds this IP and this port, in network order. -/
structure Holds (host : Endian) (addr : InetAddress) (af : Family) (ip : CharArray af.addrSize)
    (port : UInt16) : Prop where
  family : addr.get sin_family = host.block 2 af.value
  port : addr.get sin_port = host.block 2 (sockets.hostToNetwork16 host port).toNat
  ip : addr.get af.addrField = ip

namespace Holds

variable {host : Endian} {net : Presentation} {addr : InetAddress} {af : Family}
  {ip : CharArray af.addrSize} {port : UInt16} {text : String}

theorem toPort (h : Holds host addr af ip port) : addr.toPort host = port := by
  have hbytes : (host.block 2 (sockets.hostToNetwork16 host port).toNat).cells =
      bigBytes 2 port.toNat := by
    rw [sockets.toNat_hostToNetwork16]
    exact host.bytes_convert 2 port.toNat
  rw [InetAddress.toPort, h.port, hbytes, sockets.networkToHost16_value]

theorem family_eq (h : Holds host addr af ip port) : addr.family host = af.value := by
  rw [InetAddress.family, h.family]
  apply host.value_bytes
  cases af <;> decide

theorem toIpPort (h : Holds host addr af ip port) (hprints : Prints net af ip text) :
    addr.toIpPort host net = some (text ++ ":" ++ Nat.repr port.toNat) := by
  rw [toIpPort_eq h.family_eq (h.ip ▸ hprints), h.toPort]

end Holds

namespace Family

theorem disjoint_family (af : Family) : sin_family.Disjoint af.addrField := by
  cases af <;> decide

theorem disjoint_port (af : Family) : sin_port.Disjoint af.addrField := by
  cases af <;> decide

end Family

section
variable {host : Endian} (af : Family) (ip : CharArray af.addrSize)
  (port : UInt16) (raw : InetAddress)

/-- The family, then the IP, then the port. -/
theorem holds_put_port :
    Holds host (((raw.put sin_family (host.block 2 af.value)).put af.addrField ip).put sin_port
      (host.block 2 (sockets.hostToNetwork16 host port).toNat)) af ip port where
  family := by
    rw [CharArray.get_put_of_disjoint _ _ (by decide),
      CharArray.get_put_of_disjoint _ _ af.disjoint_family.symm, CharArray.get_put]
  port := CharArray.get_put _ _ _
  ip := by rw [CharArray.get_put_of_disjoint _ _ af.disjoint_port, CharArray.get_put]

/-- The family, then the port, then the IP. -/
theorem holds_put_ip :
    Holds host (((raw.put sin_family (host.block 2 af.value)).put sin_port
      (host.block 2 (sockets.hostToNetwork16 host port).toNat)).put af.addrField ip)
      af ip port where
  family := by
    rw [CharArray.get_put_of_disjoint _ _ af.disjoint_family.symm,
      CharArray.get_put_of_disjoint _ _ (by decide), CharArray.get_put]
  port := by rw [CharArray.get_put_of_disjoint _ _ af.disjoint_port.symm, CharArray.get_put]
  ip := CharArray.get_put _ _ _

end

section
variable (host : Endian) {net : Presentation} (port : UInt16) (raw : InetAddress)

theorem holds_ofPort (loopbackOnly : Bool) :
    Holds host (ofPort host port loopbackOnly false raw) .AF_INET
      (host.block 4 (if loopbackOnly then kInaddrLoopback else kInaddrAny)) port :=
  holds_put_port .AF_INET _ port (raw.put addr_ (.zero 16))

theorem holds_ofPort6 (loopbackOnly : Bool) :
    Holds host (ofPort host port loopbackOnly true raw) .AF_INET6
      (if loopbackOnly then in6addr_loopback else in6addr_any) port :=
  holds_put_port .AF_INET6 _ port (raw.put addr6_ (.zero 28))

theorem holds_ofIp {ip : CharArray 4} {text : String} (h : Names net .AF_INET ip text) :
    Holds host (ofIp host net text port false raw) .AF_INET ip port := by
  rw [ofIp, if_neg Bool.false_ne_true, sockets.fromIpPort, h.pton]
  exact holds_put_ip .AF_INET ip port (raw.put addr_ (.zero 16))

theorem holds_ofIp6 {ip : CharArray 16} {text : String} (h : Names net .AF_INET6 ip text) :
    Holds host (ofIp host net text port true raw) .AF_INET6 ip port := by
  rw [ofIp, if_pos rfl, sockets.fromIpPort6, h.pton]
  exact holds_put_ip .AF_INET6 ip port (raw.put addr6_ (.zero 28))

end

/-! ## A presentation

It prints as documented; of IPv6 addresses it shortens only two, and reads only these. -/

def ofDotted (text : String) : Option (CharArray 4) :=
  let bytes := (text.toList.splitOn '.').map fun d => UInt8.ofNat (Nat.ofDigitChars 10 d 0)
  if h : bytes.length = 4 then some ⟨bytes, h⟩ else none

/-- The numbers of two bytes each. -/
def groups : List UInt8 → List Nat
  | a :: b :: rest => (a.toNat * 256 + b.toNat) :: groups rest
  | _ => []

def colons (ip : CharArray 16) : String :=
  if ip = in6addr_any then "::"
  else if ip = in6addr_loopback then "::1"
  else ":".intercalate ((groups ip.cells).map fun g => String.ofList (Nat.toDigits 16 g))

def printed : (af : Family) → CharArray af.addrSize → String
  | .AF_INET, ip => dotted ip
  | .AF_INET6, ip => colons ip

def plain : Presentation where
  inet_ntop af ip size := if (printed af ip).length < size then some (printed af ip) else none
  inet_pton
    | .AF_INET, text => ofDotted text
    | .AF_INET6, text => [in6addr_any, in6addr_loopback].find? fun ip => colons ip = text

theorem length_intercalate_le {α : Type} (x : α) {k : Nat} {ls : List (List α)}
    (h : ∀ l ∈ ls, l.length ≤ k) : ([x].intercalate ls).length ≤ ls.length * (k + 1) - 1 := by
  induction ls with
  | nil =>
    rw [List.intercalate_nil]
    exact Nat.zero_le _
  | cons l ls ih =>
    obtain ⟨hl, hls⟩ := List.forall_mem_cons.mp h
    have hrest := ih hls
    cases ls with
    | nil =>
      rw [List.intercalate_singleton, List.length_singleton]
      omega
    | cons m ls =>
      rw [List.intercalate_cons_cons, List.length_append, List.length_append,
        List.length_singleton]
      rw [List.length_cons, Nat.succ_mul] at hrest ⊢
      rw [List.length_cons, Nat.succ_mul]
      omega

theorem length_dotted_lt (ip : CharArray 4) : (dotted ip).length < 16 := by
  have hbytes : ∀ l ∈ (ip.cells.map fun b => Nat.repr b.toNat).map String.toList,
      l.length ≤ 3 := by
    intro l hl
    obtain ⟨text, htext, rfl⟩ := List.mem_map.mp hl
    obtain ⟨b, -, rfl⟩ := List.mem_map.mp htext
    rw [String.length_toList, Nat.length_repr_le_iff (by decide)]
    exact Nat.lt_trans b.toNat_lt (by decide)
  have hle := length_intercalate_le '.' hbytes
  rw [List.length_map, List.length_map, ip.length_cells] at hle
  rw [← String.length_toList, dotted, String.toList_intercalate]
  exact Nat.lt_of_le_of_lt hle (by decide)

theorem ofDotted_dotted (ip : CharArray 4) : ofDotted (dotted ip) = some ip := by
  have hsplit : (dotted ip).toList.splitOn '.' = ip.cells.map fun b => Nat.toDigits 10 b.toNat := by
    have hlist : (dotted ip).toList =
        ['.'].intercalate (ip.cells.map fun b => Nat.toDigits 10 b.toNat) := by
      rw [dotted, String.toList_intercalate, List.map_map]
      congr 2
      exact funext fun b => Nat.toList_repr
    rw [hlist, List.splitOn_intercalate]
    · intro l hl hdot
      obtain ⟨b, -, rfl⟩ := List.mem_map.mp hl
      exact absurd (Nat.isDigit_of_mem_toDigits (by decide) (by decide) hdot) (by decide)
    · intro hnil
      have hlength := congrArg List.length hnil
      rw [List.length_map, ip.length_cells] at hlength
      exact absurd hlength (by decide)
  have hbytes : ((dotted ip).toList.splitOn '.').map
      (fun d => UInt8.ofNat (Nat.ofDigitChars 10 d 0)) = ip.cells := by
    rw [hsplit, List.map_map]
    apply List.map_id''
    intro b
    show UInt8.ofNat (Nat.ofDigitChars 10 (Nat.toDigits 10 b.toNat) 0) = b
    rw [Nat.ofDigitChars_ten_toDigits, UInt8.ofNat_toNat]
  rw [ofDotted, dif_pos ((congrArg List.length hbytes).trans ip.length_cells)]
  exact congrArg some (CharArray.ext hbytes)

theorem length_groups_le (bytes : List UInt8) : 2 * (groups bytes).length ≤ bytes.length := by
  induction bytes using groups.induct with
  | case1 a b rest ih =>
    rw [groups, List.length_cons, List.length_cons, List.length_cons]
    omega
  | case2 rest h =>
    rw [groups]
    · exact Nat.zero_le _
    · exact h

theorem groups_lt {bytes : List UInt8} {g : Nat} (hg : g ∈ groups bytes) : g < 16 ^ 4 := by
  induction bytes using groups.induct with
  | case1 a b rest ih =>
    rw [groups] at hg
    rcases List.mem_cons.mp hg with rfl | hrest
    · have ha := a.toNat_lt
      have hb := b.toNat_lt
      omega
    · exact ih hrest
  | case2 rest h =>
    rw [groups] at hg
    · exact absurd hg List.not_mem_nil
    · exact h

theorem length_colons_lt (ip : CharArray 16) : (colons ip).length < 46 := by
  rw [colons]
  by_cases hany : ip = in6addr_any
  · rw [if_pos hany]
    decide
  · rw [if_neg hany]
    by_cases hloopback : ip = in6addr_loopback
    · rw [if_pos hloopback]
      decide
    · have hgroups : ∀ l ∈ ((groups ip.cells).map fun g =>
          String.ofList (Nat.toDigits 16 g)).map String.toList, l.length ≤ 4 := by
        intro l hl
        obtain ⟨text, htext, rfl⟩ := List.mem_map.mp hl
        obtain ⟨g, hg, rfl⟩ := List.mem_map.mp htext
        rw [String.toList_ofList, Nat.length_toDigits_le_iff (by decide) (by decide)]
        exact groups_lt hg
      have hle := length_intercalate_le ':' hgroups
      have hcount := length_groups_le ip.cells
      rw [ip.length_cells] at hcount
      rw [List.length_map, List.length_map] at hle
      rw [if_neg hloopback, ← String.length_toList, String.toList_intercalate]
      refine Nat.lt_of_le_of_lt hle ?_
      omega

theorem plain_prints (af : Family) (ip : CharArray af.addrSize) :
    Prints plain af ip (printed af ip) := by
  have hfits : (printed af ip).length < af.strLen := by
    cases af with
    | AF_INET => exact length_dotted_lt ip
    | AF_INET6 => exact length_colons_lt ip
  exact ⟨hfits, fun size hsize => if_pos (Nat.lt_of_lt_of_le hfits hsize)⟩

theorem plain_documented : Documented plain where
  prints af ip := ⟨_, plain_prints af ip⟩
  dotted ip := ⟨plain_prints .AF_INET ip, ofDotted_dotted ip⟩
  any := ⟨plain_prints .AF_INET6 in6addr_any, by decide⟩
  loopback := ⟨plain_prints .AF_INET6 in6addr_loopback, by decide⟩

/-! ## The constructors -/

/-- The ways to construct an address from a port, but for texts that name none. -/
inductive Construction (net : Presentation)
  | ofPort (loopbackOnly ipv6 : Bool)
  | ofDotted (ip : CharArray 4)
  | ofText6 (ip : CharArray 16) (text : String) (names : Names net .AF_INET6 ip text)

namespace Construction

variable {net : Presentation} (host : Endian) (port : UInt16) (raw : InetAddress)

def run : Construction net → InetAddress
  | .ofPort loopbackOnly ipv6 => InetAddress.ofPort host port loopbackOnly ipv6 raw
  | .ofDotted ip => ofIp host net (dotted ip) port false raw
  | .ofText6 _ text _ => ofIp host net text port true raw

/-- The text of the IP that is asked for. -/
def text : Construction net → String
  | .ofPort false false => "0.0.0.0"
  | .ofPort true false => "127.0.0.1"
  | .ofPort false true => "::"
  | .ofPort true true => "::1"
  | .ofDotted ip => dotted ip
  | .ofText6 _ text _ => text

/-- The address prints as what it was constructed from. -/
def Shows (c : Construction net) : Prop :=
  (c.run host port raw).toIpPort host net = some (c.text ++ ":" ++ Nat.repr port.toNat) ∧
    (c.run host port raw).toPort host = port

variable {host port raw}

theorem shows_of_holds {c : Construction net} {af : Family} {ip : CharArray af.addrSize}
    (h : Holds host (c.run host port raw) af ip port) (hprints : Prints net af ip c.text) :
    c.Shows host port raw := ⟨h.toIpPort hprints, h.toPort⟩

/-- An IPv4 address from a constant prints as its bytes in memory. -/
theorem toIpPort_ofPort (hnet : Documented net) (host : Endian) (port : UInt16)
    (raw : InetAddress) (loopbackOnly : Bool) :
    ((ofPort loopbackOnly false : Construction net).run host port raw).toIpPort host net =
      some (dotted (host.block 4 (if loopbackOnly then kInaddrLoopback else kInaddrAny)) ++ ":" ++
        Nat.repr port.toNat) :=
  (holds_ofPort host port raw loopbackOnly).toIpPort (hnet.dotted _).toPrints

/-- Each constructor gives the address that it was asked for, but for the IPv4 loopback
address on a little-endian host. -/
theorem shows_iff (hnet : Documented net) (host : Endian) (port : UInt16) (raw : InetAddress)
    (c : Construction net) :
    c.Shows host port raw ↔ ¬ (host = .little ∧ c = .ofPort true false) := by
  cases c with
  | ofDotted ip =>
    apply iff_of_true
    · exact shows_of_holds (holds_ofIp host port raw (hnet.dotted ip)) (hnet.dotted ip).toPrints
    · rintro ⟨-, hc⟩
      cases hc
  | ofText6 ip text names =>
    apply iff_of_true
    · exact shows_of_holds (holds_ofIp6 host port raw names) names.toPrints
    · rintro ⟨-, hc⟩
      cases hc
  | ofPort loopbackOnly ipv6 =>
    cases ipv6 with
    | true =>
      have hholds := holds_ofPort6 host port raw loopbackOnly
      refine iff_of_true ?_ fun h => Bool.noConfusion (Construction.ofPort.inj h.2).2
      cases loopbackOnly with
      | false => exact shows_of_holds hholds hnet.any.toPrints
      | true => exact shows_of_holds hholds hnet.loopback.toPrints
    | false =>
      have hport := (holds_ofPort host port raw loopbackOnly).toPort
      have hprints := toIpPort_ofPort hnet host port raw loopbackOnly
      cases loopbackOnly with
      | false =>
        have hany : dotted (host.block 4 kInaddrAny) = "0.0.0.0" := by cases host <;> decide
        refine iff_of_true ⟨hprints.trans ?_, hport⟩ fun h =>
          Bool.noConfusion (Construction.ofPort.inj h.2).1
        rw [if_neg Bool.false_ne_true, hany]
        rfl
      | true =>
        rw [if_pos rfl] at hprints
        cases host with
        | big => exact iff_of_true ⟨hprints, hport⟩ fun h => Endian.noConfusion h.1
        | little =>
          refine iff_of_false (fun h => ?_) fun h => h ⟨rfl, rfl⟩
          have hreversed : dotted (Endian.little.block 4 kInaddrLoopback) ≠ "127.0.0.1" := by decide
          have htext := Option.some.inj (hprints.symm.trans h.1)
          rw [String.append_left_inj, String.append_left_inj] at htext
          exact hreversed htext

theorem shows_iff_dotted :
    (ofDotted ⟨[10, 0, 0, 1], rfl⟩ : Construction plain).Shows .little 80 (.zero 28) ↔
      ¬ (Endian.little = .little ∧
        (ofDotted ⟨[10, 0, 0, 1], rfl⟩ : Construction plain) = .ofPort true false) :=
  shows_iff plain_documented .little 80 (.zero 28) _

/-- On a little-endian host the bytes of the constant are reversed. -/
theorem shows_fails :
    ((ofPort true false : Construction plain).run .little 80 (.zero 28)).toIpPort .little plain =
        some "1.0.0.127:80" ∧
      ¬ (ofPort true false : Construction plain).Shows .little 80 (.zero 28) := by
  have hprints : ((ofPort true false : Construction plain).run .little 80 (.zero 28)).toIpPort
      .little plain = some "1.0.0.127:80" :=
    (toIpPort_ofPort plain_documented .little 80 (.zero 28) true).trans (by decide)
  refine ⟨hprints, fun h => ?_⟩
  exact absurd (Option.some.inj (hprints.symm.trans h.1)) (by decide)

end Construction

end Cnet.Net
