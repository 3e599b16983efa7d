import Constellation.Policy.Lookup
import Constellation.Policy.Plain
import Constellation.Policy.Round
import Constellation.Ipam.Exclude
import Constellation.Ipam.HandBack
import Constellation.Ipam.Capacity
import Constellation.Linux.Shared
import Constellation.Linux.Lifecycle
import Constellation.Linux.Rounds
import Constellation.K8s.Watchdog
import Constellation.Ipcache.Listener
import Constellation.Nodes.Manager
import Constellation.Multipool.Leftovers
import Constellation.Bitlpm.Stopping
import Constellation.Hubble.Follower
import Constellation.Maglev.Balance
import Constellation.Ipalloc.Exact
import Constellation.Podcidr.Served
import Constellation.Fqdn.Remembered
import Constellation.Policy.Superseded
import Constellation.Ipcache.Revisions
import Constellation.Ces.Reconciler
import Constellation.Ces.Reports
import Constellation.Kvstore.Cache
import Constellation.Kvstore.References
import Constellation.Wal.Log
import Constellation.Route.Batch
import Constellation.Loadbalancer.Select
import Constellation.Container.RingBuffer
