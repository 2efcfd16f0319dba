import Cityscape.Files.Directory
import Cityscape.Main
import Cityscape.Proofs.Chain
import Cityscape.Proofs.DeadEnd
import Cityscape.Proofs.Feature.Reader
import Cityscape.Proofs.FirstFault
import Cityscape.Proofs.History
import Cityscape.Proofs.Independence
import Cityscape.Proofs.Isolation
import Cityscape.Proofs.Keywords
import Cityscape.Proofs.Nesting
import Cityscape.Proofs.Polling
import Cityscape.Proofs.Printing
import Cityscape.Proofs.Quotation
import Cityscape.Proofs.Renaming
import Cityscape.Proofs.Retention
import Cityscape.Proofs.Script.Readback
import Cityscape.Proofs.Script.Spelling
import Cityscape.Proofs.Untaken
import Cityscape.Proofs.WellFormed
import Cityscape.Proofs.Yield
