namespace SceneExpr.Grammar.Builtin

def mathFunctions : List String :=
  ["abs", "acos", "acosh", "asin", "asinh", "atan", "atan2", "atanh", "avg", "cbrt", "ceil", "cos",
    "cosh", "cot", "csc", "else", "eval", "exp", "floor", "if", "int", "ln", "log", "log10", "log2",
    "nthroot", "pow", "rint", "sec", "sign", "sin", "sinh", "sqrt", "sum", "tan", "tanh", "then",
    "trunc"]

/-- Whether a parenthesis may follow the name under the strict policy. The empty name is that of a
parenthesis for grouping. -/
def isBuiltin (name : String) : Bool := name = "" || mathFunctions.contains name

end SceneExpr.Grammar.Builtin
