import DisplayRaster.Main
import DisplayRaster.Memory.ByteMemory
import DisplayRaster.Proofs.Checked.Stream
import DisplayRaster.Proofs.DisplayList.Agreement
import DisplayRaster.Proofs.DisplayList.Budget
import DisplayRaster.Proofs.DisplayList.Inlining
import DisplayRaster.Proofs.DisplayList.Loading
import DisplayRaster.Proofs.DisplayList.Relocation
import DisplayRaster.Proofs.Draw.Alike
import DisplayRaster.Proofs.Draw.Blit
import DisplayRaster.Proofs.Draw.Clear
import DisplayRaster.Proofs.Draw.Mask
import DisplayRaster.Proofs.Draw.Nearest
import DisplayRaster.Proofs.Draw.Order
import DisplayRaster.Proofs.Draw.Ramp
import DisplayRaster.Proofs.Draw.Tiles
import DisplayRaster.Proofs.Draw.Triangles
import DisplayRaster.Proofs.Memory.Accesses
import DisplayRaster.Proofs.Scanout
import DisplayRaster.Proofs.Stream.Budget
import DisplayRaster.Proofs.Stream.Decodable
import DisplayRaster.Proofs.Stream.Depth
import DisplayRaster.Proofs.Stream.Faithful
import DisplayRaster.Proofs.Stream.Slot
import DisplayRaster.Proofs.Texture.Addressing
import DisplayRaster.Proofs.Texture.Bilinear
import DisplayRaster.Proofs.Texture.Decoding
import DisplayRaster.Proofs.Triangle.Containment
import DisplayRaster.Proofs.Triangle.Exact
