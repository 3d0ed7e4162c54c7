import MiscCode.Support.Positional
import MiscCode.Support.Fuel
import MiscCode.Support.WhileLoop
import MiscCode.Support.Expression
import MiscCode.Support.HeapOrder
import MiscCode.Support.Calls
import MiscCode.Support.TwoRuns
import MiscCode.Support.PriorityQueue
import MiscCode.Support.Duplex
import MiscCode.Support.Blocks
import MiscCode.Support.Visits
import MiscCode.Support.FirstOccurrence
import MiscCode.Support.ByteLayout
import MiscCode.Support.CString
import MiscCode.Support.Growing
import MiscCode.Support.Strto
import MiscCode.Support.Words
import MiscCode.BigInteger.Model
import MiscCode.BigInteger.Encoding
import MiscCode.BigInteger.Constructors
import MiscCode.BigInteger.Order
import MiscCode.BigInteger.Loops
import MiscCode.BigInteger.Signed
import MiscCode.BigInteger.Product
import MiscCode.BigInteger.Shifts
import MiscCode.BigInteger.Contracts
import MiscCode.BigInteger.Factorial
import MiscCode.BigInteger.Text
import MiscCode.BigInteger.Forms
import MiscCode.BigInteger.Computation
import MiscCode.BigInteger.Copies
import MiscCode.BigInteger.Shrink
import MiscCode.Heap.Model
import MiscCode.Heap.Sift
import MiscCode.Heap.Queue
import MiscCode.Heap.Contracts
import MiscCode.Heap.Duality
import MiscCode.Heap.Growth
import MiscCode.Heap.HeapSort
import MiscCode.TwoSum.Model
import MiscCode.TwoSum.Agreement
import MiscCode.TwoSum.LeastPair
import MiscCode.Waveform.Model
import MiscCode.Waveform.Sizes
import MiscCode.Waveform.Deviation
import MiscCode.Waveform.Capture
import MiscCode.Waveform.PyCapture
import MiscCode.Waveform.PySizes
import MiscCode.Broadcast.Model
import MiscCode.Broadcast.Server
import MiscCode.Broadcast.Sessions
import MiscCode.Broadcast.FileInfo
import MiscCode.Broadcast.Buffers
import MiscCode.Broadcast.Client
import MiscCode.Broadcast.SavedFile
import MiscCode.FaServer.Model
import MiscCode.FaServer.Announcement
import MiscCode.Snippets.Model
import MiscCode.Snippets.Sieve
import MiscCode.Snippets.Gcd
import MiscCode.Snippets.Fibonacci
import MiscCode.Getopt.Model
import MiscCode.Getopt.Items
import MiscCode.FindUuid.Model
import MiscCode.FindUuid.Members
import MiscCode.WaveHdr.Model
import MiscCode.WaveHdr.Output
import MiscCode.Backspace.Model
import MiscCode.Backspace.Reports
import MiscCode.StackTrace.Model
import MiscCode.StackTrace.Agreement
import MiscCode.StackTrace.Registers
import MiscCode.StackTrace.RegisterPairs
import MiscCode.CallFrameInfo.Rules
import MiscCode.CallFrameInfo.Grammar
import MiscCode.CallFrameInfo.InForce
import MiscCode.CallFrameInfo.Serialize
import MiscCode.CallFrameInfo.Lookup
import MiscCode.StackWalk.Model
import MiscCode.StackWalk.Runs
import MiscCode.StackWalk.Arm
import MiscCode.StackWalk.Amd64
import MiscCode.StackWalk.AddressList
import MiscCode.SymbolFile.Model
import MiscCode.SymbolFile.Fields
import MiscCode.SymbolFile.Records
import MiscCode.SymbolFile.Written
import MiscCode.SymbolFile.Accepted
import MiscCode.SymbolFile.NormalForm
import MiscCode.Symbols.Model
import MiscCode.Symbols.Runs
import MiscCode.Symbols.Plain
import MiscCode.Symbols.Walks
import MiscCode.Symbols.BasicResolver
