import Ostadix.CanonicalCbor.Accounting
import Ostadix.CanonicalCbor.EncodedLen
import Ostadix.Fabric.History
import Ostadix.Fabric.Query
import Ostadix.Hgraph.AbstractFidelity
import Ostadix.Hgraph.Chain
import Ostadix.Hosted.TailRepair
import Ostadix.Information.Delta
import Ostadix.Ir.PostOrder
import Ostadix.Mesh.AtMostOnce
import Ostadix.Ocore.FrameLayout
import Ostadix.Ocore.NativeInteger
import Ostadix.Ocore.Statements
import Ostadix.Ocore.Symbols
import Ostadix.Placement.Warrant
import Ostadix.Project.Glob
import Ostadix.Registry.Anchors
import Ostadix.World.ValueRoundTrip
