import Descent.Computation.Effect
import Descent.Grammar.Parser
import Descent.Parser.Outcome
import Descent.Script.Chain
import Descent.Script.Cursor
import Descent.Script.Grammar
import Descent.Proofs.Computation.OneShot
import Descent.Proofs.Computation.Loop
import Descent.Proofs.Computation.EventLog
import Descent.Proofs.Grammar.Guarded
import Descent.Proofs.Parser.EffectFree
import Descent.Proofs.Parser.Equivalence
import Descent.Proofs.Parser.HintPosition
import Descent.Proofs.Parser.MonadLaws
import Descent.Proofs.Parser.Recording
import Descent.Proofs.Parser.Bracketing
import Descent.Proofs.Parser.Correspondence
import Descent.Proofs.Parser.Transparency
import Descent.Proofs.Parser.Aborts
import Descent.Proofs.Source.Reading
import Descent.Proofs.Source.Placement
import Descent.Proofs.Parser.Streams
import Descent.Proofs.Parser.UserState
import Descent.Proofs.Parser.SingleRound
import Descent.Proofs.Grammar.Consuming
import Descent.Proofs.Parser.ChoiceLaws
import Descent.Proofs.Parser.Recursion
import Descent.Proofs.Parser.LeftChain
import Descent.Proofs.Parser.Predictive
import Descent.Proofs.Parser.Arithmetic
import Descent.Proofs.Parser.Search
import Descent.Proofs.Grammar.Brackets
import Descent.Proofs.Parser.Primitives
import Descent.Proofs.Hint.Grouping
import Descent.Proofs.Hint.Rendering
import Descent.Proofs.Parser.RepeatedAlternative
import Descent.Proofs.Text.Encoding
import Descent.Proofs.Parser.Literal
import Descent.Proofs.Parser.Keyword
