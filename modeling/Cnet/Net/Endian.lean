import Cnet.Support.Endian

/-!
# Network byte order

`htobe64` and its kind on a host of either byte order. Both directions are the same
permutation of the bytes.
-/

namespace Cnet.Net.sockets

open Cnet.Support

variable (host : Endian)

def hostToNetwork64 (host64 : UInt64) : UInt64 := .ofNat (host.convert 8 host64.toNat)

def hostToNetwork32 (host32 : UInt32) : UInt32 := .ofNat (host.convert 4 host32.toNat)

def hostToNetwork16 (host16 : UInt16) : UInt16 := .ofNat (host.convert 2 host16.toNat)

def networkToHost64 (net64 : UInt64) : UInt64 := .ofNat (host.convert 8 net64.toNat)

def networkToHost32 (net32 : UInt32) : UInt32 := .ofNat (host.convert 4 net32.toNat)

def networkToHost16 (net16 : UInt16) : UInt16 := .ofNat (host.convert 2 net16.toNat)

theorem toNat_hostToNetwork64 (v : UInt64) :
    (hostToNetwork64 host v).toNat = host.convert 8 v.toNat :=
  UInt64.toNat_ofNat_of_lt' (host.convert_lt 8 _ v.toNat_lt)

theorem toNat_hostToNetwork32 (v : UInt32) :
    (hostToNetwork32 host v).toNat = host.convert 4 v.toNat :=
  UInt32.toNat_ofNat_of_lt' (host.convert_lt 4 _ v.toNat_lt)

theorem toNat_hostToNetwork16 (v : UInt16) :
    (hostToNetwork16 host v).toNat = host.convert 2 v.toNat :=
  UInt16.toNat_ofNat_of_lt' (host.convert_lt 2 _ v.toNat_lt)

theorem networkToHost64_value (v : UInt64) :
    networkToHost64 host (.ofNat (host.value (bigBytes 8 v.toNat))) = v := by
  rw [networkToHost64, UInt64.toNat_ofNat', host.convert_value_mod 8 _ rfl v.toNat_lt,
    UInt64.ofNat_toNat]

theorem networkToHost32_value (v : UInt32) :
    networkToHost32 host (.ofNat (host.value (bigBytes 4 v.toNat))) = v := by
  rw [networkToHost32, UInt32.toNat_ofNat', host.convert_value_mod 4 _ rfl v.toNat_lt,
    UInt32.ofNat_toNat]

theorem networkToHost16_value (v : UInt16) :
    networkToHost16 host (.ofNat (host.value (bigBytes 2 v.toNat))) = v := by
  rw [networkToHost16, UInt16.toNat_ofNat', host.convert_value_mod 2 _ rfl v.toNat_lt,
    UInt16.ofNat_toNat]

end Cnet.Net.sockets
