import YAMemcached.Table.LiveItems
import YAMemcached.Table.Scan
import YAMemcached.Request.StoreLines
import YAMemcached.Request.Retries
import YAMemcached.Request.Keys
import YAMemcached.Request.Replies
import YAMemcached.Request.DataRange
import YAMemcached.Request.Writes
import YAMemcached.Session.Postponed
import YAMemcached.Session.Window
import YAMemcached.Session.Pending
import YAMemcached.Table.LockedSet
import YAMemcached.Table.Access
import YAMemcached.Util.Linearizability
import YAMemcached.Util.Ring
import YAMemcached.Queue.Linearizable
import YAMemcached.Session.Output
import YAMemcached.Table.Conservation
import YAMemcached.Table.Refinement
import YAMemcached.Table.Eviction
import YAMemcached.Request.Cas
import YAMemcached.Slots.Linearizable
import YAMemcached.Util.LinearProbing
import YAMemcached.Table.LockBound
import YAMemcached.Table.Recency
import YAMemcached.ServerThread.Ownership
import YAMemcached.ServerThread.Udp
import YAMemcached.Request.LostUpdates
import YAMemcached.Request.Framing
import YAMemcached.Matcher.Complete
import YAMemcached.Util.Skipping
import YAMemcached.Util.Frames
import YAMemcached.Request.Fragments
import YAMemcached.Binary.Lengths
import YAMemcached.Matcher.Sound
import YAMemcached.Matcher.Overloads
import YAMemcached.Request.Decimal
import YAMemcached.Util.RedBlack
import YAMemcached.Util.ThreadedTree
import YAMemcached.TRBTree.Basic
import YAMemcached.TRBTree.Find
import YAMemcached.TRBTree.Insert
import YAMemcached.TRBTree.Rebalance
import YAMemcached.TRBTree.Unlink
import YAMemcached.TRBTree.Remove
import YAMemcached.TRBTree.Beyond
import YAMemcached.TRBTree.Items
import YAMemcached.TRBTree.Destroy
import YAMemcached.TRBTree.Run
import YAMemcached.SsoString.Basic
import YAMemcached.SsoString.Contents
import YAMemcached.SsoString.Ownership
import YAMemcached.SsoString.Run
import YAMemcached.Lru.Invariant
import YAMemcached.Lru.Element
import YAMemcached.Lru.Owner
import YAMemcached.Lru.Steps
import YAMemcached.Lru.Safety
import YAMemcached.Lru.Progress
import YAMemcached.Lru.Sequential
import YAMemcached.Lru.Bounds
