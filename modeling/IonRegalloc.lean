import IonRegalloc.Data.ProgPoint
import IonRegalloc.Data.AllocMap
import IonRegalloc.Data.Env
import IonRegalloc.Ion.TryAllocate
import IonRegalloc.Ion.Properties
import IonRegalloc.Ion.Split
import IonRegalloc.Ion.Process
import IonRegalloc.Ion.Stackmap
import IonRegalloc.Proof.MergeScan
import IonRegalloc.Proof.Probe
import IonRegalloc.Proof.Decision
import IonRegalloc.Proof.Evict
import IonRegalloc.Proof.Prune
import IonRegalloc.Proof.SplitPoint
import IonRegalloc.Proof.SplitTrim
import IonRegalloc.Proof.Split
import IonRegalloc.Proof.Retry
import IonRegalloc.Proof.SplitChoice
import IonRegalloc.Proof.Outcome
import IonRegalloc.Proof.LiveRegs
import IonRegalloc.Proof.RoundTrip
import IonRegalloc.Proof.SplitFrame
import IonRegalloc.Proof.Invariant
import IonRegalloc.Proof.Run
import IonRegalloc.Proof.Accounted
import IonRegalloc.Proof.Aborts
import IonRegalloc.Proof.Termination
import IonRegalloc.Proof.Conservation
import IonRegalloc.Proof.Weights
import IonRegalloc.Proof.Held
import IonRegalloc.Proof.VRegIndex
import IonRegalloc.Proof.Placement
import IonRegalloc.Proof.Stackmap
