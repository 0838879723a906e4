import CurvedMesh.Document.Geometry
import CurvedMesh.Document.Medium
import CurvedMesh.Document.Mesh
import CurvedMesh.Fault.Message
import CurvedMesh.Geometry
import CurvedMesh.Log
import CurvedMesh.Mesh.Coarse
import CurvedMesh.Proofs.Conformity
import CurvedMesh.Proofs.Outward
import CurvedMesh.Proofs.ChartAverage
import CurvedMesh.Proofs.Shell
import CurvedMesh.Proofs.VertexInvariant
import CurvedMesh.Proofs.VertexNumbers
import CurvedMesh.Proofs.Lineage
import CurvedMesh.Proofs.Totality
import CurvedMesh.Proofs.Unwrapping
import CurvedMesh.Proofs.Polygon
import CurvedMesh.Proofs.Circle
import CurvedMesh.Proofs.EulerCharacteristic
import CurvedMesh.Proofs.Renumbering
import CurvedMesh.Proofs.OrderedField
import CurvedMesh.Proofs.FlatSubdivision
import CurvedMesh.Proofs.PointSets
import CurvedMesh.Proofs.PeriodAverage
import CurvedMesh.Proofs.ArcAverage
import CurvedMesh.Proofs.Representatives
import CurvedMesh.Proofs.ReadBack
import CurvedMesh.Proofs.Transport
import CurvedMesh.Proofs.Bisector
import CurvedMesh.Proofs.Equator
import CurvedMesh.Proofs.PlacedRadius
import CurvedMesh.Proofs.Placeable
import CurvedMesh.Proofs.SphericalCoordinates
import CurvedMesh.Proofs.ZeroWeights
import CurvedMesh.Proofs.SphereZeroWeights
import CurvedMesh.Proofs.Reordering
import CurvedMesh.Proofs.SinglePoint
import CurvedMesh.Proofs.Motions
import CurvedMesh.Proofs.Refusals
import CurvedMesh.Proofs.FloatWrapping
import CurvedMesh.Proofs.TwoPoints
import CurvedMesh.Proofs.AxisByAxis
import CurvedMesh.Proofs.StoredGeometries
import CurvedMesh.Proofs.AngularDistance
import CurvedMesh.Proofs.LabelCongruence
