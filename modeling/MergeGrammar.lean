import MergeGrammar.Main
import MergeGrammar.Proofs.SearchMoves
import MergeGrammar.Proofs.SearchCoherence
import MergeGrammar.Proofs.ClimbMoves
import MergeGrammar.Proofs.FeatureWiring
import MergeGrammar.Proofs.WrittenFeatures
import MergeGrammar.Proofs.Activations
import MergeGrammar.Proofs.LicenceSoundness
import MergeGrammar.Proofs.LicenceRuns
import MergeGrammar.Proofs.LicenceCompleteness
import MergeGrammar.Proofs.Lineage
import MergeGrammar.Proofs.RouteKeys
import MergeGrammar.Proofs.SearchClosure
import MergeGrammar.Proofs.DerivationSoundness
import MergeGrammar.Proofs.AttachmentOrder
import MergeGrammar.Proofs.SpanAccounting
import MergeGrammar.Proofs.MoverConservation
import MergeGrammar.Proofs.LockStep
import MergeGrammar.Proofs.NeighborSymmetry
import MergeGrammar.Proofs.PolicyAgreement
import MergeGrammar.Proofs.ParallelSearches
import MergeGrammar.Proofs.TableGrowth
import MergeGrammar.Proofs.RouteLimit
import MergeGrammar.Proofs.TokenExpansion
import MergeGrammar.Proofs.GraphGrowth
import MergeGrammar.Proofs.LicencePrefix
import MergeGrammar.Proofs.PrefixStability
import MergeGrammar.Proofs.ContiguousRoutes
import MergeGrammar.Proofs.DerivationRules
import MergeGrammar.Proofs.DerivationExactness
import MergeGrammar.Proofs.WordTwins
import MergeGrammar.Proofs.PartLicences
import MergeGrammar.Proofs.FeatureTexts
import MergeGrammar.Proofs.LexiconGrammar
import MergeGrammar.Proofs.GraphFaithfulness
import MergeGrammar.Proofs.MirroredSteps
import MergeGrammar.Proofs.Renumbering
import MergeGrammar.Proofs.Appearance
import MergeGrammar.Proofs.RouteRoom
import MergeGrammar.Proofs.LexiconFiltering
import MergeGrammar.Proofs.SearchRuns
import MergeGrammar.Proofs.SearchTermination
import MergeGrammar.Proofs.NumberedCosts
import MergeGrammar.Proofs.TableSafety
import MergeGrammar.Proofs.SentenceExpansion
import MergeGrammar.Proofs.LimitAccounts
import MergeGrammar.Proofs.Resets
import MergeGrammar.Proofs.EdgeTables
import MergeGrammar.Proofs.Ranking
import MergeGrammar.Proofs.AnalysisOutcomes
import MergeGrammar.Proofs.SpanSeparation
import MergeGrammar.Proofs.AdjunctAgreement
import MergeGrammar.Proofs.EndOfSentence
import MergeGrammar.Proofs.DrawnTrees
import MergeGrammar.Proofs.AttachmentCosts
import MergeGrammar.Proofs.ViewerDeliveries
import MergeGrammar.Proofs.OptionSpellings
import MergeGrammar.Proofs.AcyclicArenas
import MergeGrammar.Proofs.AdjunctLabels
