/-!
# Internet addresses

An address is the bytes that stand for it on the wire: four for the old
addresses, sixteen for the new ones.  The number of bytes is part of the type.
-/

namespace ProxyTiming.Net

@[ext] structure Ipv4 where
  octets : List UInt8
  length_octets : octets.length = 4
deriving DecidableEq

@[ext] structure Ipv6 where
  octets : List UInt8
  length_octets : octets.length = 16
deriving DecidableEq

inductive IpAddr where
  | v4 (address : Ipv4)
  | v6 (address : Ipv6)
deriving DecidableEq

structure SocketAddr where
  ip : IpAddr
  port : UInt16
deriving DecidableEq

def bigEndian (n : UInt16) : List UInt8 :=
  [UInt8.ofNat (n.toNat / 256), UInt8.ofNat (n.toNat % 256)]

/-- The number of sixteen bits whose bytes are `high` and `low`. -/
def ofBigEndian (high low : UInt8) : UInt16 := UInt16.ofNat (high.toNat * 256 + low.toNat)

@[simp] theorem length_bigEndian (n : UInt16) : (bigEndian n).length = 2 := rfl

theorem ofBigEndian_bigEndian (n : UInt16) :
    ofBigEndian (UInt8.ofNat (n.toNat / 256)) (UInt8.ofNat (n.toNat % 256)) = n := by
  have h := n.toNat_lt
  apply UInt16.toNat_inj.1
  simp only [ofBigEndian, UInt16.toNat_ofNat', UInt8.toNat_ofNat']
  omega

namespace Ipv4

def ofBytes (a b c d : UInt8) : Ipv4 := ⟨[a, b, c, d], rfl⟩

end Ipv4

namespace Ipv6

def groupBytes : List UInt16 → List UInt8
  | [] => []
  | g :: gs => bigEndian g ++ groupBytes gs

@[simp] theorem length_groupBytes (gs : List UInt16) :
    (groupBytes gs).length = 2 * gs.length := by
  induction gs with
  | nil => rfl
  | cons g gs ih => simp [groupBytes, ih]; omega

/-- The address of eight groups, if they are eight. -/
def ofGroups? (gs : List UInt16) : Option Ipv6 :=
  if h : gs.length = 8 then some ⟨groupBytes gs, by simp [h]⟩ else none

def pairs : List UInt8 → List UInt16
  | high :: low :: rest => ofBigEndian high low :: pairs rest
  | _ => []

def groups (a : Ipv6) : List UInt16 := pairs a.octets

end Ipv6

end ProxyTiming.Net
