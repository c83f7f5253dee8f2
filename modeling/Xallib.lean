import Xallib.Base.Proof.Claims
import Xallib.Base.Proof.Print
import Xallib.E2E.IndexTree
import Xallib.E2E.FailedIndex
import Xallib.E2E.View
import Xallib.E2E.Extents
import Xallib.E2E.Unsupported
import Xallib.E2E.History
import Xallib.E2E.Descent
import Xallib.E2E.Flatten
import Xallib.E2E.Agree
import Xallib.E2E.Decoded
import Xallib.E2E.Names
import Xallib.E2E.Update
import Xallib.Fiemap.Proof.Read
import Xallib.Watch.Proof.Dirty
import Xallib.Watch.Proof.Locked
import Xallib.Watch.Proof.Reader
import Xallib.Watch.Proof.Threads
import Xallib.Xfs.Proof.DirBtree
import Xallib.Xfs.Proof.Dinodes
import Xallib.Xfs.Proof.Extents
import Xallib.Xfs.Proof.Open
import Xallib.Xfs.Proof.DirExtents
import Xallib.Xfs.Proof.Inside
import Xallib.Xfs.Proof.BtreeRoot
import Xallib.Xfs.Proof.Address
import Xallib.Xfs.Proof.Recursion
import Xallib.E2E.Table
import Xallib.E2E.BmapTool
import Xallib.Fiemap.Proof.Open
import Xallib.Xfs.ShortForm
import Xallib.E2E.Capacity
import Xallib.E2E.Answers
import Xallib.E2E.Device
import Xallib.Open.Proof.Mounts
