import Ferrite.Core.Net

/-!
# DHCPv4 messages

The decoded message of `dhcp/src/message.rs` with the options of
`dhcp/src/options.rs`: the fixed BOOTP header and the option list, and the
accessors that read an option off it.  An accessor takes the first option of its
kind, so a message that repeats one is read by its first.
-/

namespace Ferrite.Dhcp

/-- DHCP message type (option 53). -/
inductive MessageType where
  | discover | offer | request | decline | ack | nak | release | inform
deriving DecidableEq, Repr

/-- A single DHCP option; whatever the server does not model is kept raw. -/
inductive DhcpOption where
  | messageType (t : MessageType)
  | serverIdentifier (ip : Ipv4Addr)
  | requestedIp (ip : Ipv4Addr)
  | leaseTime (secs : UInt32)
  | subnetMask (mask : Ipv4Addr)
  | router (ips : List Ipv4Addr)
  | dnsServers (ips : List Ipv4Addr)
  | hostname (name : String)
  | domainName (name : String)
  | parameterRequestList (codes : List UInt8)
  | clientIdentifier (id : List UInt8)
  | renewalTime (secs : UInt32)
  | rebindingTime (secs : UInt32)
  | unknown (code : UInt8) (data : List UInt8)
deriving DecidableEq, Repr

/-- BOOTP op code. -/
inductive Op where
  | bootRequest | bootReply
deriving DecidableEq, Repr

/-- A parsed DHCPv4 message. -/
structure DhcpMessage where
  op : Op
  xid : UInt32
  secs : UInt16
  flags : UInt16
  ciaddr : Ipv4Addr
  yiaddr : Ipv4Addr
  siaddr : Ipv4Addr
  giaddr : Ipv4Addr
  chaddr : Mac
  options : List DhcpOption
deriving DecidableEq, Repr

namespace DhcpMessage

/-- `message_type`: option 53, if present. -/
def messageType (m : DhcpMessage) : Option MessageType :=
  m.options.findSome? fun
    | .messageType t => some t
    | _ => none

/-- `requested_ip`: option 50, if present. -/
def requestedIp (m : DhcpMessage) : Option Ipv4Addr :=
  m.options.findSome? fun
    | .requestedIp ip => some ip
    | _ => none

/-- `server_identifier`: option 54, if present. -/
def serverIdentifier (m : DhcpMessage) : Option Ipv4Addr :=
  m.options.findSome? fun
    | .serverIdentifier ip => some ip
    | _ => none

/-- `hostname`: option 12, if present. -/
def hostname (m : DhcpMessage) : Option String :=
  m.options.findSome? fun
    | .hostname h => some h
    | _ => none

end DhcpMessage

end Ferrite.Dhcp
