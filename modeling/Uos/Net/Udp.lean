import Uos.Net.Ip

/-!
# UDP sockets

The functions of `net/udp.c` that send packets and set up sockets.
-/

namespace Uos
namespace Ip

def setUdp (ip : Ip) (s : UdpSocketId) (record : UdpSocket) : Ip :=
  { ip with udpSocket := Function.update ip.udpSocket s record }

def udpHeader (totLen localPort port chksum : UShort) : List UChar :=
  [UShort.high localPort, UShort.low localPort, UShort.high port, UShort.low port,
    UShort.high totLen, UShort.low totLen, UShort.high chksum, UShort.low chksum]

/-- The checksum as its two bytes are stored, byte by byte: the inverted order is right after an odd
number of bytes. -/
def udpStore (target : Target) (totLen : UShort) (chksum : UShort) : UShort :=
  let chksum := if chksum = 0 then 0xffff else chksum
  if totLen.getLsbD 0 then
    if target.bigEndian then .ofBytes (UShort.low chksum) (UShort.high chksum)
    else .ofBytes (UShort.high chksum) (UShort.low chksum)
  else
    if target.bigEndian then .ofBytes (UShort.high chksum) (UShort.low chksum)
    else .ofBytes (UShort.low chksum) (UShort.high chksum)

/-- Add UDP header and send the packet to the given interface. -/
def udpSendNetif (ip : Ip) (s : UdpSocketId) (p : Buf) (dest : IpAddr) (port : UShort)
    (netif : NetifId) (localIp gateway : IpAddr) : Option Ip :=
  match p.addHeader 8 with
  | none => some ip
  | some p => do
    let header := udpHeader p.totLen (ip.udpSocket s).localPort port
    let chksum ← bufChksum ip.target (p.fill (header 0)).chunks
      (crc16InetHeader ip.target localIp dest protoUdp p.totLen)
    ip.ipOutputNetif (p.fill (header (udpStore ip.target p.totLen chksum))) dest (some localIp)
      protoUdp (some gateway) netif localIp

def udpSendto (ip : Ip) (s : UdpSocketId) (p : Buf) (dest : IpAddr) (port : UShort) : Option Ip :=
  match ip.routeLookup dest with
  | none => some ip
  | some (netif, gateway, localIp) => ip.udpSendNetif s p dest port netif localIp gateway

def udpSend (ip : Ip) (s : UdpSocketId) (p : Buf) : Option Ip :=
  let socket := ip.udpSocket s
  if socket.peerPort = 0 ∨ socket.peerIp = .any then some ip
  else
    match socket.netif with
    | none => some ip
    | some netif =>
      ip.udpSendNetif s p socket.peerIp socket.peerPort netif socket.localIp socket.gateway

def openUdpSocket (ip : Ip) (s : UdpSocketId) (port : UShort) : Ip :=
  { ip.setUdp s { ip.udpSocket s with localPort := port } with udpSockets := s :: ip.udpSockets }

/-- Connect the UDP socket to the given destination address and port, and find the outgoing
interface for it. -/
def udpConnect (ip : Ip) (s : UdpSocketId) (ipaddr : Option IpAddr) (port : UShort) : Ip :=
  let socket := { ip.udpSocket s with peerPort := port }
  match ipaddr with
  | none => ip.setUdp s socket
  | some ipaddr =>
    match ip.routeLookup ipaddr with
    | none => ip.setUdp s { socket with peerIp := ipaddr, netif := none }
    | some (netif, gateway, localIp) =>
      ip.setUdp s { socket with peerIp := ipaddr, netif := some netif, gateway, localIp }

/-- Close the socket: remove queued data, and the socket from the list. -/
def udpClose (ip : Ip) (s : UdpSocketId) : Ip :=
  { ip.setUdp s { ip.udpSocket s with queue := [] } with udpSockets := ip.udpSockets.erase s }

end Ip
end Uos
