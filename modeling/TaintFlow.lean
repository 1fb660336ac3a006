import TaintFlow.Main
import TaintFlow.Json.Read
import TaintFlow.Proofs.CallGraph.References
import TaintFlow.Proofs.CallGraph.Removal
import TaintFlow.Proofs.CallGraph.Vagueness
import TaintFlow.Proofs.Catalog.Transparency
import TaintFlow.Proofs.Config
import TaintFlow.Proofs.Flow.Completion
import TaintFlow.Proofs.Flow.Corpus
import TaintFlow.Proofs.Flow.Growth
import TaintFlow.Proofs.Flow.Literals
import TaintFlow.Proofs.Flow.Locality
import TaintFlow.Proofs.Flow.SourceOrder
import TaintFlow.Proofs.Flow.Strictness
import TaintFlow.Proofs.Java.Directive
import TaintFlow.Proofs.Java.Initializers
import TaintFlow.Proofs.Java.LastAssignment
import TaintFlow.Proofs.Java.Recovery
import TaintFlow.Proofs.Java.Returns
import TaintFlow.Proofs.Java.TypeOrder
import TaintFlow.Proofs.Report.Csv
import TaintFlow.Proofs.Report.Sarif
import TaintFlow.Proofs.Scan.Catalogs
import TaintFlow.Proofs.Types.Erasure
import TaintFlow.Proofs.Types.Literals
