import MipsSim.Memory.Segments
import MipsSim.Memory.Registration
import MipsSim.Elf.Contained
import MipsSim.Disasm.Agreement
import MipsSim.Pipeline.Registers
import MipsSim.Pipeline.Report
import MipsSim.Pipeline.Exit
import MipsSim.Pipeline.Link
import MipsSim.Pipeline.Unimplemented
import MipsSim.Pipeline.LinkedAccess
import MipsSim.Pipeline.Interference
import MipsSim.Pipeline.UnalignedStore
import MipsSim.Isa.Refinement
import MipsSim.Sequential.Multicore
import MipsSim.Sequential.Interpreter
import MipsSim.Machine.Session
