import Vetting.Exercise
import Vetting.Listing.Classes
import Vetting.Main
import Vetting.Message.Sample
import Vetting.Proofs.Alert.Activity
import Vetting.Proofs.Analysis.PartialNames
import Vetting.Proofs.Calls.Imports
import Vetting.Proofs.Calls.SourceText
import Vetting.Proofs.Catalogue.Broken
import Vetting.Proofs.Detector.Containers
import Vetting.Proofs.Detector.Packages
import Vetting.Proofs.Formula.Monotone
import Vetting.Proofs.Listing.Entries
import Vetting.Proofs.Metadata.Dependents
import Vetting.Proofs.Network
import Vetting.Proofs.Package.FileName
import Vetting.Proofs.Package.Gap
import Vetting.Proofs.Registry.Dependencies
import Vetting.Proofs.Registry.Directory
import Vetting.Proofs.Registry.Latest
import Vetting.Proofs.Registry.Tree
import Vetting.Proofs.Scheduler
import Vetting.Proofs.Similarity.Metric
import Vetting.Proofs.Similarity.Pairs
import Vetting.Proofs.Survey.DependencyGraph
import Vetting.Proofs.Survey.PackageFiles
import Vetting.Proofs.Survey.Progress
import Vetting.Proofs.Sync
import Vetting.Proofs.Taint.Matching
import Vetting.Proofs.Taint.Vulnerabilities
import Vetting.Proofs.Trace.Arguments
import Vetting.Proofs.Workflow.Operators
import Vetting.Registry.Dependents
import Vetting.Text.Digest
import Vetting.Transcript
