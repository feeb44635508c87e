import SceneExpr.Literal
import SceneExpr.Scan

namespace SceneExpr.Grammar.Text

def endsRun (c : Char) : Bool := isAsciiBlank c || c = '"' || c = '+'

/-- The unexpected text at the front: its first character, and the run that this one begins. -/
def unexpectedRun : List Char → List Char
  | [] => []
  | c :: cs => if endsRun c then [c] else c :: cs.takeWhile fun d => !endsRun d

def unexpected (fault : String → Fault) (offset : Nat) (cs : List Char) : ParseError :=
  let run := unexpectedRun cs
  (fault (String.ofList run)).error ⟨offset, offset + width run⟩

/-- The first character of a gap that is neither blank nor an allowed plus sign: its offset, and the
gap from there on. -/
def misplaced? (plusAllowed : Bool) (offset : Nat) : List Char → Option (Nat × List Char)
  | [] => none
  | c :: cs =>
    if isAsciiBlank c || (plusAllowed && c = '+') then
      misplaced? plusAllowed (offset + c.utf8Size) cs
    else some (offset, c :: cs)

def pluses (offset : Nat) : List Char → List Nat
  | [] => []
  | c :: cs =>
    if c = '+' then offset :: pluses (offset + c.utf8Size) cs else pluses (offset + c.utf8Size) cs

/-- What is wrong with the gap in front of a token; `started` tells whether another token
precedes. -/
def gapError? (started : Bool) (offset : Nat) (gap past : List Char) : Option ParseError :=
  match misplaced? started offset gap with
  | some (found, cs) => some (unexpected .unexpectedText found (cs ++ past))
  | none =>
    if started then
      match pluses offset gap with
      | [] => some (Fault.missingPlus.error (.empty (offset + width gap)))
      | [_] => none
      | first :: _ => some (Fault.doubledPlus.error ⟨first, first + 1⟩)
    else none

def trailingError? (offset : Nat) (cs : List Char) : Option ParseError :=
  (misplaced? false offset cs).map fun m => unexpected .trailingText m.1 m.2

/-- The gap in front of a token is an item, unless it is the first. -/
def afterGap (started : Bool) (gap : List Char) (s : Scan) : Scan :=
  if started then .constant gap s else s

def resolve (p : Parser) (site : CallSite) : Except ParseError Resolution :=
  let failed (why : Unresolved) := (site.unknown why).error site.nameSpan
  if site.isWellFormed then (Resolution.find p.catalog p.scene .text site).mapError failed
  else .error (failed .notFound)

def scanFrom (p : Parser) (cursor : Nat) (started : Bool) (rest : List Char) : Scan :=
  match _hcut : nextMark? .text rest with
  | none => ⟨[], trailingError? cursor rest⟩
  | some cut =>
    if cut.mark = .quote then
      match gapError? started cursor cut.before (cut.mark.char :: cut.after) with
      | some e => .stopped e
      | none =>
        let opened := cursor + width cut.before
        afterGap started cut.before <|
          match _hraw : Literal.cut? cut.after with
          | none =>
            .stopped (Fault.unterminatedLiteral.error ⟨opened, opened + 1 + width cut.after⟩)
          | some (raw, past) =>
            let span : Span := ⟨opened, opened + width raw + 2⟩
            .cons (.literal (String.ofList (Literal.unescape raw)) span)
              (scanFrom p span.stop true past)
    else
      let lead := beforeIdentifier cut.before
      match gapError? started cursor lead
        (lastIdentifier cut.before ++ cut.mark.char :: cut.after) with
      | some e => .stopped e
      | none =>
        afterGap started lead <|
          match _hsite : CallSite.read cursor cut with
          | .error e => .stopped e
          | .ok site =>
            match resolve p site with
            | .error e => .stopped e
            | .ok r =>
              match _hplan : site.plan r with
              | .error e => .stopped e
              | .ok (call, list) =>
                .cons (.call call r.signature) (scanFrom p (list.closeAt + 1) true list.rest)
termination_by rest.length
decreasing_by
  · exact Nat.lt_trans (Literal.cut?_length_lt _hraw) (after_length_lt_of_nextMark? _hcut)
  · exact Nat.lt_trans (CallSite.list_rest_length_lt _hsite (CallSite.arguments_of_plan _hplan))
      (after_length_lt_of_nextMark? _hcut)

/-- A text without any mark holds nothing to be parsed. -/
def scan (p : Parser) (text : List Char) : Scan :=
  if (nextMark? .text text).isNone then .stopped (Fault.emptyExpression.error (.empty 0))
  else scanFrom p 0 false text

end SceneExpr.Grammar.Text
