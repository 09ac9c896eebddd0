import SpiderMonkey.BigInt.Div
import SpiderMonkey.Jit.MoveEmitter
import SpiderMonkey.Jit.StackSlotAllocator
import SpiderMonkey.BigInt.PortableDigit
import SpiderMonkey.Ds.OrderedHashTable
import SpiderMonkey.Gc.FindSCCs
import SpiderMonkey.Jit.Lemmas.BoundsCheck
import SpiderMonkey.Builtin.PromiseCombinator
import SpiderMonkey.Vm.Lemmas.TransferMap
import SpiderMonkey.Jit.Truncate
import SpiderMonkey.Mfbt.HashTable
import SpiderMonkey.Wasm.OpIter
import SpiderMonkey.Vm.CharacterEncoding
import SpiderMonkey.Jit.JitcodeIonTable
import SpiderMonkey.Jit.AssemblerBuffer
import SpiderMonkey.Proxy.ScriptedProxyHandler
import SpiderMonkey.Builtin.JSON
import SpiderMonkey.Date.LocalTime
import SpiderMonkey.Date.TimeOfDay
import SpiderMonkey.Date.DateObject
import SpiderMonkey.Jit.ProcessExecutableMemory
import SpiderMonkey.Gc.Chunk
import SpiderMonkey.Frontend.SourceNotes
import SpiderMonkey.Frontend.LineNumberToPC
import SpiderMonkey.UbiNode.ShortestPaths
import SpiderMonkey.Frontend.TokenStream
import SpiderMonkey.UbiNode.DominatorTree
import SpiderMonkey.Wasm.FuncTypeIdDesc
import SpiderMonkey.Wasm.DroppedSegments
import SpiderMonkey.Wasm.Sections
import SpiderMonkey.Builtin.RegExp
import SpiderMonkey.Vm.ElementsCapacity
import SpiderMonkey.Vm.DenseElements
import SpiderMonkey.Builtin.ArraySetLength
import SpiderMonkey.Mfbt.SPSCQueue
import SpiderMonkey.Gc.Compact
import SpiderMonkey.Numbers.PrefixInteger
import SpiderMonkey.Builtin.ArraySort
import SpiderMonkey.Builtin.AsyncGenerator
import SpiderMonkey.Ds.Sort
import SpiderMonkey.Jit.BitwiseRange
import SpiderMonkey.Builtin.URI
import SpiderMonkey.Builtin.StringMatch
import SpiderMonkey.Jit.LinearSum
import SpiderMonkey.BigInt.Bitwise
import SpiderMonkey.BigInt.Double
