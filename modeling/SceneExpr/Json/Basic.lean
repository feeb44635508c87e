namespace SceneExpr

/-- A document as written: strings and keys keep their escapes, and numbers their digits. -/
inductive Json where
  | null
  | bool (value : Bool)
  | number (lexeme : List Char)
  | string (body : List Char)
  | array (items : List Json)
  | object (members : List (List Char × Json))

end SceneExpr
