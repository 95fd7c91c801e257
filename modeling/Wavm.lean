import Wavm.IR.Types
import Wavm.Runtime.Basic
import Wavm.Platform.Intrinsic
import Wavm.Runtime.Memory
import Wavm.Runtime.Table
import Wavm.Runtime.Objects
import Wavm.Runtime.ObjectsValid
import Wavm.LLVMJIT.EmitMem
import Wavm.WASI.CanonicalPath
import Wavm.Lib.BitMask
import Wavm.WASI.Files
import Wavm.WASI.FilesValid
import Wavm.Lib.LinearProbing
import Wavm.Inline.HashTable
import Wavm.Inline.HashTableValid
import Wavm.Inline.HashTableRun
import Wavm.Inline.HashMap
import Wavm.Inline.HashSet
import Wavm.Lib.CyclicProbe
import Wavm.Inline.IndexMap
import Wavm.Inline.Unicode
import Wavm.Inline.UTF16
import Wavm.Inline.FloatComponents
import Wavm.Inline.I128
import Wavm.Inline.I128Spec
import Wavm.Inline.Serialization
import Wavm.Inline.SerializationSpec
import Wavm.Lib.SilentPath
import Wavm.NFA.Builder
import Wavm.RegExp.RegExp
import Wavm.Lib.WhileLoop
import Wavm.Inline.DenseStaticIntSet
import Wavm.Emscripten.DynamicAlloc
import Wavm.WAST.ParseNumbers
import Wavm.WAST.StringLiteral
import Wavm.WAST.Names
import Wavm.Lib.BinarySearch
import Wavm.WAST.Lexer
import Wavm.Lib.Worklist
import Wavm.Runtime.ObjectGC
import Wavm.IR.DisassemblyNames
import Wavm.IR.DisassemblyNamesSpec
import Wavm.IR.DisassemblyNamesShape
import Wavm.NFA.Machine
import Wavm.Lib.ScanClosure
import Wavm.Lib.FiniteLists
import Wavm.NFA.DFA
import Wavm.NFA.DFASpec
import Wavm.NFA.DFARun
import Wavm.NFA.DFACorrect
