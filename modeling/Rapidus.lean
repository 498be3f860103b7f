import Rapidus.Analysis.Node
import Rapidus.Analysis.Analyzer
import Rapidus.Analysis.Levels
import Rapidus.Analysis.Balance
import Rapidus.Analysis.Hermetic
import Rapidus.Analysis.Rewrites
import Rapidus.Analysis.Hoisting
import Rapidus.Runtime.Value
import Rapidus.Runtime.StackEffect
import Rapidus.Builtins.Array
import Rapidus.Builtins.Map
import Rapidus.Builtins.Symbol
import Rapidus.Builtins.Registry
import Rapidus.Vm.Machine
import Rapidus.Vm.StackEffect
import Rapidus.Vm.Call
import Rapidus.Vm.Memory
import Rapidus.Parser.Syntax
import Rapidus.Parser.Parser
import Rapidus.Parser.Expression
import Rapidus.Parser.StatementList
import Rapidus.Parser.Language
import Rapidus.Parser.Grouping
import Rapidus.Parser.Statement
import Rapidus.Parser.Script
import Rapidus.Parser.Fuel
