import Adjudication.Inspection
import Adjudication.LogLine
import Adjudication.Machine
import Adjudication.Main
import Adjudication.PhaseWalk
import Adjudication.Proofs.ReplayMemory
import Adjudication.Proofs.RefusedAttestations
import Adjudication.Proofs.CacheContents
import Adjudication.Proofs.PeerSteps
import Adjudication.Proofs.Conduct
import Adjudication.Proofs.Vouching
import Adjudication.Proofs.Accountability
import Adjudication.Proofs.Finalization
import Adjudication.Proofs.Agreement
import Adjudication.Proofs.WorldStrokes
import Adjudication.Proofs.PeerReports
import Adjudication.Proofs.Authenticity
import Adjudication.Proofs.Retention
import Adjudication.Proofs.FillMoves
import Adjudication.Proofs.FillTurns
import Adjudication.Proofs.Coherence
import Adjudication.Proofs.Eviction
import Adjudication.Proofs.WindowContents
import Adjudication.Proofs.Callers
import Adjudication.Proofs.OwnContributions
import Adjudication.Proofs.DevnetDraws
import Adjudication.Proofs.ByteOrder
import Adjudication.Proofs.MemberLookup
import Adjudication.Proofs.FingerprintBinding
import Adjudication.Proofs.Elections
import Adjudication.Proofs.SignedStatements
import Adjudication.Proofs.Accusations
import Adjudication.Proofs.PeerRows
import Adjudication.Proofs.ActiveEntries
import Adjudication.Proofs.AdmissionRulings
import Adjudication.Proofs.TallyVerdicts
import Adjudication.Proofs.UprightAgents
import Adjudication.Proofs.FillRequests
import Adjudication.Proofs.HonestGossip
import Adjudication.Proofs.WireCodecs
import Adjudication.Proofs.WireFrames
import Adjudication.Proofs.NetworkCalls
import Adjudication.Proofs.RoundStrides
import Adjudication.Proofs.RoundCourses
import Adjudication.Proofs.RoundStanding
import Adjudication.Proofs.RoundDeadlines
import Adjudication.Proofs.RoundEnds
import Adjudication.Proofs.RoundAttempts
import Adjudication.Proofs.WalkStories
import Adjudication.Proofs.DevnetWalks
import Adjudication.Proofs.PunctualWorlds
import Adjudication.Proofs.HeightChurn
import Adjudication.Proofs.RotatedSlices
import Adjudication.Proofs.ForgottenNonces
import Adjudication.Proofs.PeerPruning
import Adjudication.Proofs.FillBatches
import Adjudication.Proofs.FillHistories
import Adjudication.Proofs.FillDiscipline
import Adjudication.Proofs.DrawUses
import Adjudication.Proofs.FrameSizes
import Adjudication.Proofs.PeerSlots
import Adjudication.Proofs.DriverSteps
import Adjudication.Proofs.DriverLedgers
