import Png.Chunk.Serial
import Png.Filter.Residual
import Png.Log
import Png.Picture.Draw
import Png.Zlib.Stored
import Png.Proofs.WholeChunks
import Png.Proofs.Container
import Png.Proofs.Prediction
import Png.Proofs.Rows
import Png.Proofs.Sizes
import Png.Proofs.Reconstruction
import Png.Filter.InPlace
import Png.Proofs.InPlace
import Png.Proofs.Header
import Png.Proofs.Residual
import Png.Proofs.RoundTrip
import Png.Proofs.Precedence
import Png.Picture.History
import Png.Proofs.Acceptance
import Png.Proofs.Consistency
import Png.Proofs.Trailing
import Png.Proofs.Room
import Png.Proofs.Delivery
import Png.Proofs.ImageSize
import Png.Proofs.StoredStream
import Png.Proofs.StoredImage
import Png.Proofs.Dissection
import Png.Proofs.Truncation
import Png.Proofs.Enumeration
import Png.Proofs.Forgetting
import Png.Proofs.Shortage
import Png.Checked.Access
import Png.Checked.Container
import Png.Checked.Decoder
import Png.Checked.Pixel
import Png.Proofs.ScanRange
import Png.Proofs.PixelRange
import Png.Proofs.Range
import Png.Proofs.Tiling
import Png.Proofs.HeadVerdict
import Png.Proofs.Bijection
import Png.Picture.Packing
import Png.Proofs.Pieces
import Png.Proofs.BitOrder
import Png.Proofs.PackedRow
import Png.Proofs.SampleAccess
import Png.Proofs.Collection
import Png.Proofs.Influence
import Png.Checked.Draw
import Png.Proofs.Luminance
import Png.Proofs.Drawing
import Png.Proofs.Conversion
import Png.Proofs.SizeArithmetic
import Png.Proofs.Budget
import Png.Proofs.MemoryBound
import Png.Proofs.Exactness
import Png.Checked.Row
import Png.Proofs.RowLoops
import Png.Proofs.RowFootprint
