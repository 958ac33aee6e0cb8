import DarkSilk.Stormnode

/-! Network addresses: which ones are routable, and the group an address belongs to, from
which the address manager derives its buckets. -/
namespace DarkSilk

open PrefixCode
open Stormnode (CService)

/-- The sixteen bytes of an address, in network byte order, as one number. -/
abbrev CNetAddr := BitVec 128
instance : Std.TransOrd CNetAddr := inferInstance

inductive Network
  | NET_UNROUTABLE | NET_IPV4 | NET_IPV6 | NET_TOR | NET_I2P
  deriving DecidableEq, Repr

namespace NetAddress

def pchIPv4 : List UInt8 := [0,0,0,0,0,0,0,0,0,0,0xff,0xff]
def pchOnionCat : List UInt8 := [0xFD,0x87,0xD8,0x7E,0xEB,0x43]
def pchGarliCat : List UInt8 := [0xFD,0x60,0xDB,0x4D,0xDD,0xB5]
def pchRFC6052 : List UInt8 := [0,0x64,0xFF,0x9B,0,0,0,0,0,0,0,0]
def pchRFC4862 : List UInt8 := [0xFE,0x80,0,0,0,0,0,0]
def pchRFC6145 : List UInt8 := [0,0,0,0,0,0,0,0,0xFF,0xFF,0,0]
def pchLocal : List UInt8 := [0,0,0,0,0,0,0,0,0,0,0,0,0,0,0,1]

def ipBytes (ip : CNetAddr) : List UInt8 := (leBytes 16 ip.toNat).reverse

def startsWith (pch : List UInt8) (ip : CNetAddr) : Bool := pch.isPrefixOf (ipBytes ip)

variable (ip : CNetAddr)

/-- Bytes are counted from the last one. -/
def getByte (n : ℕ) : UInt8 := .ofNat (ip.toNat/256^n)

def isIPv4 : Bool := startsWith pchIPv4 ip

def isRFC1918 : Bool :=
  isIPv4 ip && (getByte ip 3 = 10 || (getByte ip 3 = 192 && getByte ip 2 = 168) ||
    (getByte ip 3 = 172 && (16 ≤ getByte ip 2 && getByte ip 2 ≤ 31)))

def isRFC3927 : Bool := isIPv4 ip && (getByte ip 3 = 169 && getByte ip 2 = 254)

def isRFC3849 : Bool :=
  getByte ip 15 = 0x20 && getByte ip 14 = 0x01 && getByte ip 13 = 0x0D && getByte ip 12 = 0xB8

def isRFC3964 : Bool := getByte ip 15 = 0x20 && getByte ip 14 = 0x02

def isRFC6052 : Bool := startsWith pchRFC6052 ip

def isRFC4380 : Bool :=
  getByte ip 15 = 0x20 && getByte ip 14 = 0x01 && getByte ip 13 = 0 && getByte ip 12 = 0

def isRFC4862 : Bool := startsWith pchRFC4862 ip

def isRFC4193 : Bool := getByte ip 15 &&& 0xFE = 0xFC

def isRFC6145 : Bool := startsWith pchRFC6145 ip

def isRFC4843 : Bool :=
  getByte ip 15 = 0x20 && getByte ip 14 = 0x01 && getByte ip 13 = 0x00 && getByte ip 12 &&& 0xF0 = 0x10

def isTor : Bool := startsWith pchOnionCat ip

def isI2P : Bool := startsWith pchGarliCat ip

def isLocal : Bool :=
  (isIPv4 ip && (getByte ip 3 = 127 || getByte ip 3 = 0)) || startsWith pchLocal ip

def isValid : Bool :=
  -- addresses shifted by three bytes, from a garbled size field of an old version
  if startsWith (pchIPv4.drop 3) ip then false
  else if ip = 0 then false
  else if isRFC3849 ip then false
  else if isIPv4 ip && ((ipBytes ip).drop 12 = [0xFF,0xFF,0xFF,0xFF] || (ipBytes ip).drop 12 = [0,0,0,0]) then false
  else true

def isRoutable : Bool :=
  isValid ip && !(isRFC1918 ip || isRFC3927 ip || isRFC4862 ip || (isRFC4193 ip && !isTor ip && !isI2P ip) ||
    isRFC4843 ip || isLocal ip)

/-- The class and so many bits of the address from a byte on, the last byte filled up with ones. -/
def groupBits (nClass : Network) (nStartByte nBits : ℕ) : List UInt8 :=
  UInt8.ofNat nClass.ctorIdx::(List.range (nBits/8)).map (fun i => getByte ip (15-(nStartByte+i)))++
    if nBits%8 = 0 then [] else [getByte ip (15-(nStartByte+nBits/8)) ||| UInt8.ofNat (2^(nBits%8)-1)]

def getGroup : List UInt8 :=
  if !isRoutable ip then groupBits ip .NET_UNROUTABLE 0 0
  else if isIPv4 ip || isRFC6145 ip || isRFC6052 ip then groupBits ip .NET_IPV4 12 16
  else if isRFC3964 ip then groupBits ip .NET_IPV4 2 16
  else if isRFC4380 ip then [UInt8.ofNat Network.NET_IPV4.ctorIdx,getByte ip 3 ^^^ 0xFF,getByte ip 2 ^^^ 0xFF]
  else if isTor ip then groupBits ip .NET_TOR 6 4
  else if isI2P ip then groupBits ip .NET_I2P 6 4
  else if getByte ip 15 = 0x20 && getByte ip 14 = 0x11 && getByte ip 13 = 0x04 && getByte ip 12 = 0x70 then
    groupBits ip .NET_IPV6 0 36
  else groupBits ip .NET_IPV6 0 32

end NetAddress

/-- The address and the port in network byte order. -/
def Stormnode.CService.getKey (addr : CService) : List UInt8 :=
  NetAddress.ipBytes addr.ip++[UInt8.ofNat (addr.port.toNat/0x100),UInt8.ofNat addr.port.toNat]

end DarkSilk
