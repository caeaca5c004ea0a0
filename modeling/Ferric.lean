import Ferric.Main
import Ferric.Proofs.EnumeratorValues
import Ferric.Proofs.ExitCheck
import Ferric.Proofs.ForHeaders
import Ferric.Proofs.ForwardDeclarations
import Ferric.Proofs.Grouping
import Ferric.Proofs.Initializers
import Ferric.Proofs.LabelledJumps
import Ferric.Proofs.Literal.Accepted
import Ferric.Proofs.Literal.Floating
import Ferric.Proofs.Literal.Strings
import Ferric.Proofs.LocalAnnouncements
import Ferric.Proofs.OutputFiles
import Ferric.Proofs.RecordIdentity
import Ferric.Proofs.TentativeDefinitions
import Ferric.Proofs.Termination
import Ferric.Proofs.TypeNames
import Ferric.Proofs.WellNested
