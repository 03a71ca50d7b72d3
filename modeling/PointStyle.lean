import PointStyle.Colour.Document
import PointStyle.Proofs.Colour.Equality
import PointStyle.Proofs.Colour.RoundTrip
import PointStyle.Proofs.Lowering.ByPlace
import PointStyle.Proofs.Lowering.CheckedCalls
import PointStyle.Proofs.Lowering.ColourComparison
import PointStyle.Proofs.Lowering.Independence
import PointStyle.Proofs.Lowering.OutputType
import PointStyle.Proofs.Lowering.Stability
import PointStyle.Proofs.Lowering.Stages
import PointStyle.Proofs.Lowering.Traversal
import PointStyle.Proofs.Lowering.WellTyped
import PointStyle.Proofs.Operator.FirstMatch
import PointStyle.Proofs.Operator.Interpolation
import PointStyle.Proofs.Resource.Containment
import PointStyle.Proofs.Shader.HitDetection
import PointStyle.Proofs.Style.DistinctNames
import PointStyle.Proofs.Style.Drawing
import PointStyle.Proofs.Style.FieldTypes
import PointStyle.Proofs.Style.RoundTrip
import PointStyle.Proofs.Style.Textures
import PointStyle.Proofs.Texture.Settling
import PointStyle.Style.Drawing
