import ScopeChain.CellScript
import ScopeChain.Script
import ScopeChain.Proofs.FramePrograms
import ScopeChain.Proofs.WalksEnd
import ScopeChain.Proofs.Visibility
import ScopeChain.Proofs.Overwriting
import ScopeChain.Proofs.Bodies
import ScopeChain.Proofs.LexicalScoping
import ScopeChain.Proofs.Leaks
import ScopeChain.Proofs.Refusals
import ScopeChain.Proofs.Failures
import ScopeChain.Proofs.Contents
import ScopeChain.Proofs.ChildEnvironments
import ScopeChain.Proofs.Holdings
import ScopeChain.Proofs.Updates
import ScopeChain.Proofs.Stacks
import ScopeChain.Proofs.Replays
import ScopeChain.Proofs.Resolution
import ScopeChain.Proofs.Assignments
import ScopeChain.Proofs.Routes
import ScopeChain.Proofs.Misses
import ScopeChain.Proofs.Commuting
import ScopeChain.Proofs.Copies
import ScopeChain.Proofs.CellHistories
import ScopeChain.Proofs.ChainTexts
import ScopeChain.Proofs.ErrorMessages
import ScopeChain.Proofs.Inspections
import ScopeChain.Proofs.NumberTexts
