import SceneExpr.Grammar.Builtin
import SceneExpr.Scan

namespace SceneExpr.Grammar.Number

def strictError? (p : Parser) (site : CallSite) : Option ParseError :=
  if p.options.unknownFunctions = .builtinsOnly ∧ site.owner = none ∧
      !Builtin.isBuiltin (String.ofList site.member) then
    some ((site.unknown .notFound).error site.nameSpan)
  else none

def resolve? (p : Parser) (site : CallSite) : Option Resolution :=
  if site.isWellFormed then (Resolution.find p.catalog p.scene .number site).toOption else none

/-- The text that a site which is no call takes with it, and the text past it: up to the mark of an
ill-formed site, up to the end of its name otherwise. -/
def passOver (cut : MarkedCut) (site : CallSite) : List Char × List Char :=
  if site.isWellFormed then (site.lead ++ site.passed, site.rest)
  else (cut.before ++ [cut.mark.char], cut.after)

theorem passOver_length_le {cursor : Nat} {cut : MarkedCut} {site : CallSite}
    (h : CallSite.read cursor cut = .ok site) :
    (passOver cut site).2.length ≤ cut.after.length := by
  unfold passOver
  split
  · exact CallSite.rest_length_le h
  · exact Nat.le_refl _

/-- Scans the text from a cursor on; `pending` is constant text in front of the cursor that has not
become an item yet. -/
def scanFrom (p : Parser) (cursor : Nat) (pending rest : List Char) : Scan :=
  match _hcut : nextMark? .number rest with
  | none => .constant (pending ++ rest) .finished
  | some cut =>
    match _hsite : CallSite.read cursor cut with
    | .error e => .stopped e
    | .ok site =>
      match resolve? p site with
      | none =>
        match strictError? p site with
        | some e => .stopped e
        | none =>
          let skipped := (passOver cut site).1
          scanFrom p (cursor + width skipped) (pending ++ skipped) (passOver cut site).2
      | some r =>
        .constant (pending ++ site.lead) <|
          match _hplan : site.plan r with
          | .error e => .stopped e
          | .ok (call, list) =>
            .cons (.call call r.signature) (scanFrom p (list.closeAt + 1) [] list.rest)
termination_by rest.length
decreasing_by
  · exact Nat.lt_of_le_of_lt (passOver_length_le _hsite) (after_length_lt_of_nextMark? _hcut)
  · exact Nat.lt_trans (CallSite.list_rest_length_lt _hsite (CallSite.arguments_of_plan _hplan))
      (after_length_lt_of_nextMark? _hcut)

def scan (p : Parser) (text : List Char) : Scan := scanFrom p 0 [] text

end SceneExpr.Grammar.Number
