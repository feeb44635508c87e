import SceneExpr.Main
import SceneExpr.Tree.Outline
import SceneExpr.Proofs.Call.Written
import SceneExpr.Proofs.Grammar.Number.Append
import SceneExpr.Proofs.Grammar.Text.Append
import SceneExpr.Proofs.Tree.Alone
import SceneExpr.Proofs.Tree.Events
import SceneExpr.Proofs.Tree.Positions
import SceneExpr.Proofs.Tree.Slice
import SceneExpr.Proofs.Tree.Strict
import SceneExpr.Proofs.Tree.Typing
import SceneExpr.Proofs.Grammar.Whole
import SceneExpr.Proofs.CallSite.Written
import SceneExpr.Proofs.Catalog.Lookup
import SceneExpr.Proofs.Grammar.Number.Parentheses
import SceneExpr.Proofs.Tree.Limit
import SceneExpr.Proofs.Json.Numbers
import SceneExpr.Proofs.Json.Spelling
import SceneExpr.Proofs.Jsonc.Decorated
import SceneExpr.Proofs.Jsonc.OnePass
import SceneExpr.Proofs.Scene.Saved
import SceneExpr.Proofs.Tree.Order
import SceneExpr.Proofs.CallSite.Matching
import SceneExpr.Proofs.Grammar.Number.Literals
import SceneExpr.Proofs.Scene.Validity
import SceneExpr.Proofs.Scene.Search
import SceneExpr.Proofs.Call.Priority
import SceneExpr.Proofs.Call.Binding
import SceneExpr.Proofs.Literal.Value
import SceneExpr.Proofs.Tree.Message
import SceneExpr.Proofs.Tree.Spaced
import SceneExpr.Proofs.Jsonc.Reading
import SceneExpr.Proofs.Diagnostic.Rendering
import SceneExpr.Proofs.Tree.Dump
import SceneExpr.Proofs.Command.Check
