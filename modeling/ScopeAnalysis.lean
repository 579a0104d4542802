import ScopeAnalysis.Proofs.Coherence
import ScopeAnalysis.Proofs.WalkCourse
import ScopeAnalysis.Session
import ScopeAnalysis.Proofs.Growth
import ScopeAnalysis.Proofs.Preorder
import ScopeAnalysis.Proofs.Passage
import ScopeAnalysis.Proofs.Lookup
import ScopeAnalysis.Proofs.Grammar.Declared
import ScopeAnalysis.Proofs.Grammar.Pieces
import ScopeAnalysis.Proofs.Grammar.Reading
import ScopeAnalysis.Proofs.Grammar.Joins
import ScopeAnalysis.Proofs.Grammar.Roles
import ScopeAnalysis.Proofs.Grammar.Constructs
import ScopeAnalysis.Proofs.Grammar.Owners
import ScopeAnalysis.Proofs.Grammar.Members
import ScopeAnalysis.Proofs.Grammar.Fold
import ScopeAnalysis.Proofs.Grammar.Whole
import ScopeAnalysis.Proofs.Grammar.Agreement
import ScopeAnalysis.Proofs.Uses
import ScopeAnalysis.Proofs.Promotion
import ScopeAnalysis.Proofs.DepthFirst
import ScopeAnalysis.Proofs.Refusals
import ScopeAnalysis.Proofs.Consistency
import ScopeAnalysis.Proofs.LexicalScopes
import ScopeAnalysis.Proofs.Twins
import ScopeAnalysis.Proofs.Grammar.Places
import ScopeAnalysis.Proofs.Grammar.Nesting
import ScopeAnalysis.Proofs.Grammar.FoldNesting
import ScopeAnalysis.Proofs.Skeleton
import ScopeAnalysis.Proofs.Summaries
import ScopeAnalysis.Proofs.Switches
import ScopeAnalysis.Proofs.Stage
import ScopeAnalysis.Proofs.PromotionAdds
import ScopeAnalysis.Proofs.FreshName
import ScopeAnalysis.Proofs.Trace
import ScopeAnalysis.Proofs.Grammar.EvalCalls
import ScopeAnalysis.Proofs.DynamicScopes
import ScopeAnalysis.Proofs.Grammar.BodyNames
import ScopeAnalysis.Proofs.Grammar.Functions
import ScopeAnalysis.Program.Gathering
import ScopeAnalysis.Proofs.Grammar.Stacks
import ScopeAnalysis.Proofs.TreeOfLayout
import ScopeAnalysis.Proofs.FunctionSites
import ScopeAnalysis.Proofs.ParameterScopes
import ScopeAnalysis.Proofs.NodeScopes
import ScopeAnalysis.Proofs.ArgumentsScopes
import ScopeAnalysis.Proofs.Equivariance
import ScopeAnalysis.Proofs.History
import ScopeAnalysis.Proofs.MemberOrder
import ScopeAnalysis.Proofs.NumericKeys
import ScopeAnalysis.Proofs.Interning
import ScopeAnalysis.Proofs.FunctionFlags
import ScopeAnalysis.Proofs.Restoration
import ScopeAnalysis.Proofs.Grammar.Assembly
import ScopeAnalysis.Proofs.NodeIdentity
import ScopeAnalysis.Proofs.Mapping
import ScopeAnalysis.Proofs.Building
import ScopeAnalysis.Proofs.DraftBuilds
import ScopeAnalysis.Proofs.KnownNames
import ScopeAnalysis.Program.Mapping
import ScopeAnalysis.Program.Build
