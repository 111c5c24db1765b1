import Mhda.KeyValue
import Mhda.Parser
import Mhda.PathTemplate
import Mhda.PathText
import Mhda.PathParse
import Mhda.PathHistory
import Mhda.NssTokens
import Mhda.Setters
import Mhda.Descriptor
import Mhda.Decoding
import Mhda.RoundTrip
import Mhda.Independence
import Mhda.EntryPoints
import Mhda.ErrorCodes
import Mhda.Stripping
import Mhda.AddressHistory
import Mhda.Marshalling
import Mhda.StrictNames
import Mhda.Atomicity
import Mhda.DerivationSetters
import Mhda.NssGrammar
import Mhda.NssRoutes
import Mhda.Classification
import Mhda.ChainKeys
import Mhda.PathGrammar
import Mhda.Constructor
import Mhda.StrictSpec
import Mhda.UrnEditing
import Mhda.NumberParsing
import Mhda.ErrorText
import Mhda.Blocks
import Mhda.SecureHash
import Mhda.Hash
import Mhda.HashStandard
import Mhda.IteratedHash
import Mhda.Collisions
import Mhda.Interleaving
import Mhda.Refinement
import Mhda.PathMachine
import Mhda.Cells
import Mhda.AddressMachine
import Mhda.Distance
import Mhda.Shortest
import Mhda.UrnGrammar
import Mhda.LongForm
import Mhda.Coverage
import Mhda.ChainScan
import Mhda.Memory
import Mhda.HashMemory
import Mhda.TextMemory
import Mhda.PathMemory
import Mhda.IterationOrder
import Mhda.Transparency
