import FluxOs.Lib.Faulting
import FluxOs.Lib.Runs
import FluxOs.Vm.MemorySafety
import FluxOs.Vm.StepRules
import FluxOs.Vm.RegisterFile
import FluxOs.Vm.Stacks
import FluxOs.Vm.Fetch
import FluxOs.Vm.Budget
import FluxOs.Vm.Breakpoints
import FluxOs.Vm.CallDiscipline
import FluxOs.Vm.WordOps
import FluxOs.Vm.Arithmetic
import FluxOs.Vm.StackFailures
import FluxOs.Vm.StackFrames
import FluxOs.Vm.StackDiscipline
import FluxOs.Vm.Endianness
import FluxOs.Vm.Comparisons
import FluxOs.Vm.Encoding
import FluxOs.Vm.Readonly
import FluxOs.Vm.RegionTable
import FluxOs.Vm.Stopping
import FluxOs.Vm.Gas
import FluxOs.Fir.Ir
import FluxOs.Fir.Passes
import FluxOs.Lib.Rounds
import FluxOs.Fir.Termination
import FluxOs.Agent.AgentIds
import FluxOs.Agent.AuditRings
import FluxOs.Agent.Atomicity
import FluxOs.Agent.Confinement
import FluxOs.Agent.CpuLimits
import FluxOs.Agent.MessagePool
import FluxOs.Agent.DelegationProtocol
import FluxOs.Agent.Publications
import FluxOs.Agent.Subscriptions
import FluxOs.Fluxc.ExactPositions
import FluxOs.Fluxc.LexerBounds
import FluxOs.Kernel.LogRing
import FluxOs.Agent.Provenance
import FluxOs.Agent.Delegations
import FluxOs.Agent.Endings
import FluxOs.Agent.IoChecks
import FluxOs.Agent.MemoryLimits
import FluxOs.Agent.Pausing
import FluxOs.Agent.Waiting
import FluxOs.Agent.Yields
import FluxOs.Fir.Ids
import FluxOs.Lib.ByteMemory
import FluxOs.Lib.Tilings
import FluxOs.Lib.LinkedLists
import FluxOs.Kernel.HeapRuns
import FluxOs.Kernel.Accounting
import FluxOs.Kernel.MemoryMap
import FluxOs.Kernel.Reallocation
import FluxOs.Kernel.MagicWords
import FluxOs.Kernel.DoubleFree
import FluxOs.Kernel.Alignment
import FluxOs.Kernel.Permissions
import FluxOs.Kernel.ProcMemory
import FluxOs.Kernel.ReadyRuns
import FluxOs.Kernel.WaitProtocol
import FluxOs.Kernel.Counters
import FluxOs.Kernel.Ticks
import FluxOs.Kernel.CapChecks
import FluxOs.Kernel.Privileges
import FluxOs.Fluxc.Strings
import FluxOs.Fluxc.Metadata
import FluxOs.Fluxc.Literals
import FluxOs.Fluxc.Precedence
import FluxOs.Fluxc.NodeTexts
import FluxOs.Fluxc.Tokenizing
import FluxOs.Fluxc.Sections
import FluxOs.Fir.DeadCode
import FluxOs.Fir.Validation
import FluxOs.Hal.DeviceRuns
import FluxOs.Hal.PageRuns
import FluxOs.Vm.RegionArrays
import FluxOs.Vm.RegionBuffers
import FluxOs.Fluxc.PoolLimits
import FluxOs.Vm.Tracing
import FluxOs.Hal.ConsoleScreen
import FluxOs.Fir.Meaning
import FluxOs.Fir.Optimizer
import FluxOs.Agent.Scheduler
import FluxOs.Agent.Transparency
import FluxOs.Agent.Epochs
import FluxOs.Kernel.MemCheck
import FluxOs.Kernel.FreeSpace
import FluxOs.Kernel.CapConfinement
import FluxOs.Kernel.TimeSlices
import FluxOs.Kernel.Starvation
import FluxOs.Fluxc.Outlines
import FluxOs.Fluxc.SourceDocuments
import FluxOs.Fluxc.Lexemes
