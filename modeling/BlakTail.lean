import BlakTail.Access.Shares
import BlakTail.AgentGateway.Ledger
import BlakTail.Control.Expiry
import BlakTail.Dataplane.Revocation
import BlakTail.Firewall.Agreement
import BlakTail.Firewall.Enforced
import BlakTail.Firewall.DropLog
import BlakTail.Forwarding.Exit
import BlakTail.Forwarding.Install
import BlakTail.Gateway.Guac
import BlakTail.Ipam.Membership
import BlakTail.Pq.Agreement
import BlakTail.Pq.Epochs
import BlakTail.PublicIngress.Delivery
import BlakTail.PublicIngress.Headers
import BlakTail.Relay.Attribution
import BlakTail.Remote.AtMostOnce
import BlakTail.Services.Permission
import BlakTail.Share.Jail
import BlakTail.Relay.Control
import BlakTail.Access.Monotone
import BlakTail.Dataplane.Eviction
import BlakTail.Dataplane.Counting
import BlakTail.Control.Liveness
import BlakTail.Control.Device
import BlakTail.Share.Dates
import BlakTail.Control.TailnetLock
import BlakTail.Relay.NodeText
