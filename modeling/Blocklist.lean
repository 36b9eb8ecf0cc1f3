import Blocklist.Main
import Blocklist.Proofs.CompileAssemble
import Blocklist.Proofs.ForeignToggle
import Blocklist.Proofs.HandedRules
import Blocklist.Proofs.RefreshedSources
import Blocklist.Proofs.RuleCounts
import Blocklist.Proofs.Containment
import Blocklist.Proofs.Independence
import Blocklist.Proofs.FileEngine
import Blocklist.Proofs.FileStore
import Blocklist.Proofs.StagedAssembly
import Blocklist.Proofs.ReportedRefresh
import Blocklist.Proofs.TimedRun
import Blocklist.Proofs.Arrangement
import Blocklist.Proofs.EngineUpdates
import Blocklist.Proofs.Installation
import Blocklist.Proofs.ListRefresh
import Blocklist.Proofs.StoredFlags
import Blocklist.Proofs.ToggleRuns
import Blocklist.Proofs.IdAssignment
import Blocklist.Proofs.WrittenRules
import Blocklist.Proofs.JoinedOptions
import Blocklist.Proofs.LetterCase
import Blocklist.Proofs.HostLabels
import Blocklist.Proofs.ForeignLists
