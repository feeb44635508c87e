import SceneExpr.Grammar.Number
import SceneExpr.Grammar.Text

namespace SceneExpr.Parser

def scan (p : Parser) (kind : ValueKind) (text : String) : Scan :=
  match kind with
  | .number => Grammar.Number.scan p text.toList
  | .text => Grammar.Text.scan p text.toList

end SceneExpr.Parser
