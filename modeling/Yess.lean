import Yess.Pipeline.Refinement
import Yess.Pipeline.CycleCount
import Yess.RegisterSafety
import Yess.RejectedIds
import Yess.Redirects
import Yess.InstructionFormat
import Yess.Loader.DataField
import Yess.Loader.Residue
import Yess.MemoryImage
import Yess.MemLoader.Expansion
import Yess.DumpReader
import Yess.Exceptions
import Yess.StateDump
import Yess.Isa.Agreement
import Yess.Yas.Loading
