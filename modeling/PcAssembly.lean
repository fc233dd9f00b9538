import PcAssembly.Main
import PcAssembly.Price.Http
import PcAssembly.Proofs.Build.Soundness
import PcAssembly.Proofs.Build.Outcome
import PcAssembly.Proofs.Build.Coherence
import PcAssembly.Proofs.Build.Charts
import PcAssembly.Proofs.Search.LargerBudget
import PcAssembly.Proofs.Search.Assignment
import PcAssembly.Proofs.Build.LargerBudget
import PcAssembly.Proofs.Build.OtherPlatforms
import PcAssembly.Proofs.Validation.Completion
import PcAssembly.Proofs.Search.FewerCandidates
import PcAssembly.Proofs.Build.CatalogOrder
import PcAssembly.Proofs.CommandLine.Options
import PcAssembly.Proofs.Number.Digits
import PcAssembly.Proofs.CommandLine.Selection
import PcAssembly.Proofs.Program.ExitCode
import PcAssembly.Proofs.Search.Fallback
import PcAssembly.Proofs.Search.Supply
import PcAssembly.Proofs.Catalog.Rows
import PcAssembly.Proofs.Catalog.Tag
import PcAssembly.Proofs.Number.Canonical
import PcAssembly.Proofs.Part.Store
import PcAssembly.Proofs.Json.Writing
import PcAssembly.Proofs.Number.Finite
import PcAssembly.Proofs.Config.Template
import PcAssembly.Proofs.Part.Sockets
import PcAssembly.Proofs.Part.Rewriting
import PcAssembly.Proofs.Search.Enumeration
import PcAssembly.Proofs.Exchange
import PcAssembly.Proofs.Json.Records
import PcAssembly.Proofs.Weights
import PcAssembly.Proofs.Url.Authority
import PcAssembly.Proofs.Price.Address
