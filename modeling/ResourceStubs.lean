import ResourceStubs.Main
import ResourceStubs.Proofs.Symbol.ArraySizes
import ResourceStubs.Proofs.Symbol.OrderedUnion
import ResourceStubs.Proofs.Symbol.DependencyLines
import ResourceStubs.Proofs.Symbol.CollectedSymbols
import ResourceStubs.Proofs.Java.TypeRoundTrip
import ResourceStubs.Proofs.File.WriteOrder
import ResourceStubs.Proofs.Java.SourcePath
import ResourceStubs.Proofs.Binding.OwnStore
import ResourceStubs.Proofs.Binding.ReadLayouts
import ResourceStubs.Proofs.Binding.SelectedLayouts
import ResourceStubs.Proofs.Command.Stages
import ResourceStubs.Proofs.Command.IncludeClosure
import ResourceStubs.Proofs.Command.Prepared
import ResourceStubs.Proofs.Command.OrderIndependence
import ResourceStubs.Proofs.Command.FailedRun
import ResourceStubs.Proofs.Command.ClassFiles
import ResourceStubs.Proofs.Binding.StubMembers
import ResourceStubs.Proofs.Symbol.IncrementalFilling
import ResourceStubs.Proofs.Symbol.Representation
import ResourceStubs.Proofs.Command.RepeatedInputs
import ResourceStubs.Proofs.Command.PackageDirectory
import ResourceStubs.Proofs.Binding.ViewIds
import ResourceStubs.Proofs.Java.Nesting
import ResourceStubs.Proofs.Java.GeneratedSource
import ResourceStubs.Proofs.Java.AliasSubstitution
import ResourceStubs.Proofs.Binding.DeclaredLayout
import ResourceStubs.Proofs.Symbol.MergeOrder
import ResourceStubs.Proofs.Java.KeptText
import ResourceStubs.Proofs.Symbol.TakenNames
import ResourceStubs.Proofs.Java.SideBySide
import ResourceStubs.Proofs.Symbol.DeclaredNames
import ResourceStubs.Proofs.Binding.StubSource
import ResourceStubs.Proofs.Binding.BindableNumbers
import ResourceStubs.Proofs.Symbol.WrittenLines
import ResourceStubs.Proofs.Resource.LayoutPartition
import ResourceStubs.Proofs.Command.DiscoveredFiles
import ResourceStubs.Proofs.Symbol.ResizeLaws
import ResourceStubs.Proofs.Settings.ExcludedDirectories
import ResourceStubs.Proofs.Resource.LayoutNames
import ResourceStubs.Proofs.Discovery.SortedFiles
import ResourceStubs.Proofs.Java.OuterCommas
