import Simorgh.Lib.Table
import Simorgh.Lib.Int64
import Simorgh.Lib.Run
import Simorgh.Lib.Float64
import Simorgh.Lib.Json
import Simorgh.Lib.JsonTree
import Simorgh.Panel.Model
import Simorgh.Panel.Quote
import Simorgh.Panel.Ledger
import Simorgh.Panel.Inbounds
import Simorgh.Panel.Bulk
import Simorgh.Panel.BulkPrice
import Simorgh.Panel.Requests
import Simorgh.Panel.Interleaving
import Simorgh.Panel.Conservation
import Simorgh.Panel.Solvency
import Simorgh.Panel.Posted
import Simorgh.Panel.Creation
import Simorgh.Panel.Agreement
import Simorgh.Panel.Settlement
import Simorgh.Panel.Depletion
import Simorgh.Radius.Eap
import Simorgh.Lib.Program
import Simorgh.Panel.Store
import Simorgh.Panel.Tick
import Simorgh.Panel.TickSound
import Simorgh.Panel.Serving
import Simorgh.Panel.Slots
import Simorgh.Panel.Edits
import Simorgh.Panel.Atomic
import Simorgh.Panel.Overlap
import Simorgh.Panel.Writers
import Simorgh.Radius.Attribution
import Simorgh.Lib.Doubling
import Simorgh.Vpn.Ranges
import Simorgh.Vpn.Blocks
import Simorgh.Vpn.Addresses
import Simorgh.Vpn.Pool
import Simorgh.Vpn.Stable
import Simorgh.Radius.Devices
import Simorgh.Vpn.Hooks
import Simorgh.Vpn.Leases
import Simorgh.Lib.Bytes
import Simorgh.Lib.Parity
import Simorgh.Tunnel.Fec
import Simorgh.Tunnel.Groups
import Simorgh.Tunnel.Recover
import Simorgh.Tunnel.Resize
import Simorgh.Tunnel.Stream
import Simorgh.Tunnel.Restart
import Simorgh.Tunnel.Quality
import Simorgh.Tunnel.Receive
import Simorgh.Tunnel.Handshake
import Simorgh.Tunnel.KeyAgreement
import Simorgh.Tunnel.Customers
import Simorgh.Tunnel.Isolation
import Simorgh.Tunnel.Comeback
import Simorgh.Vpn.Routing
import Simorgh.Tunnel.Failover
import Simorgh.Tunnel.LinkStats
import Simorgh.Panel.Freeze
import Simorgh.Lib.Chain
import Simorgh.Vpn.Firewall
import Simorgh.Vpn.Verdicts
import Simorgh.Vpn.GreSync
import Simorgh.Vpn.Ikev2
import Simorgh.Vpn.Ssh
import Simorgh.Lib.JsonText
import Simorgh.Panel.Ldap
import Simorgh.Panel.LdapSync
import Simorgh.Panel.Nodes
import Simorgh.Node.Collect
import Simorgh.Node.Generations
import Simorgh.Lib.Threads
import Simorgh.Panel.Admins
import Simorgh.Sub.Devices
import Simorgh.Sub.Routes
import Simorgh.Panel.Booked
import Simorgh.Panel.Placements
import Simorgh.Panel.Scoping
import Simorgh.Panel.Pushes
import Simorgh.Xray.Restarts
import Simorgh.Lib.FirstMatch
import Simorgh.Xray.Rules
import Simorgh.Panel.Entitlements
import Simorgh.Panel.Priced
import Simorgh.Lib.Republish
import Simorgh.Panel.SpeedLimits
import Simorgh.Vpn.WgPeers
import Simorgh.Vpn.OutSecrets
import Simorgh.Vpn.OutPins
import Simorgh.Lib.Effects
import Simorgh.Panel.CustomGeo
import Simorgh.Panel.Import
import Simorgh.Panel.QuoteLaws
import Simorgh.Panel.Deadlines
import Simorgh.Panel.Recharge
import Simorgh.Lib.Traverse
import Simorgh.Panel.Renewal
import Simorgh.Panel.Multiplier
import Simorgh.Panel.Sweeps
import Simorgh.Lib.Clamped
import Simorgh.Panel.Across
import Simorgh.Panel.Removal
import Simorgh.Panel.ByEmail
import Simorgh.Lib.Budget
import Simorgh.Panel.Preview
import Simorgh.Tunnel.RateLimit
import Simorgh.Tunnel.Window
import Simorgh.Lib.Places
import Simorgh.Panel.Ordering
import Simorgh.Lib.Least
import Simorgh.Panel.PublishedLimits
import Simorgh.Vpn.Capacity
import Simorgh.Lib.Separators
import Simorgh.Radius.PppLines
import Simorgh.Lib.Rank
import Simorgh.Radius.Sweeper
import Simorgh.Vpn.Stops
import Simorgh.Lib.Netstring
import Simorgh.Node.HashState
import Simorgh.Lib.OnesComplement
import Simorgh.Tunnel.Icmp
import Simorgh.Tunnel.Stall
import Simorgh.Vpn.SshMeter
import Simorgh.Vpn.MtprotoUsage
import Simorgh.Vpn.SshUdpgw
import Simorgh.Panel.Hub
import Simorgh.Vpn.Procs
import Simorgh.Lib.Toml
import Simorgh.Vpn.MtprotoConfig
import Simorgh.Vpn.WgKeys
import Simorgh.Panel.GeoFiles
import Simorgh.Lib.Padded
import Simorgh.Panel.Versions
import Simorgh.Lib.Scanner
import Simorgh.Vpn.OvpnProfile
import Simorgh.Panel.CertReload
import Simorgh.Panel.Staging
