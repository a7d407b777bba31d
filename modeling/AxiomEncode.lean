import AxiomEncode.Corpus.JsonLines
import AxiomEncode.Apply.AllOrNothing
import AxiomEncode.Migration.ParameterHistory
import AxiomEncode.RunLog.WriterSpec
import AxiomEncode.Waivers.Approval
import AxiomEncode.Signing.Signatures
import AxiomEncode.Signing.Calls
import AxiomEncode.Signing.DuplicateKeysSpec
import AxiomEncode.Corpus.ReleaseObjectSpec
import AxiomEncode.Corpus.IterateAgrees
import AxiomEncode.Queue.History
import AxiomEncode.Queue.AttemptBudgetSpec
import AxiomEncode.Cascade.AllOrNothing
import AxiomEncode.Statute.Correspondence
import AxiomEncode.Tables.IntervalSpec
import AxiomEncode.Runner.Identity
import AxiomEncode.ProgramScope.ExactSync
import AxiomEncode.ProofEvidence.SearchSpec
import AxiomEncode.Validator.TemporalCoverageSpec
import AxiomEncode.Numbers.CardinalSpec
import AxiomEncode.Numbers.LocaleSpec
import AxiomEncode.Migration.ReferencesSequence
import AxiomEncode.Readiness.GatesSpec
import AxiomEncode.Oracle.PendingSpec
import AxiomEncode.Repair.NeverWeakens
import AxiomEncode.Validator.ConstantFalseSpec
import AxiomEncode.Suite.ArtifactsSpec
import AxiomEncode.Context.AmendmentsSpec
import AxiomEncode.SourceHash.NodeGraphSpec
import AxiomEncode.Corpus.DelimitersInvariant
import AxiomEncode.ProofEvidence.ReferenceWord
import AxiomEncode.ProofEvidence.NumericParentsSpec
import AxiomEncode.Formula.DecimalArithmeticSpec
import AxiomEncode.Numbers.EnvelopesSpec
import AxiomEncode.Corpus.SiblingsSpec
import AxiomEncode.Cascade.BuildPlanSpec
import AxiomEncode.Drift.Check
import AxiomEncode.Drift.Issue
