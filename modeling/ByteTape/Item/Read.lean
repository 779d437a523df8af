import ByteTape.Item
import ByteTape.Token.Scan

/-! # Reading items

Tokens are read from left to right with the stack of brackets that are open.
Items of a list are gathered in reverse, so that a count finds the item it
repeats at the front.
-/

namespace ByteTape.Item

/-- A bracket that is open: what it will become, where it began, and the items
before it, the last one first. -/
inductive Frame where
  | body (name : String) (loc : Location) (before : List Item)
  | group (loc : Location) (before : List Item)

namespace Frame

def isGroup : Frame → Bool
  | body .. => false
  | group .. => true

/-- The complaint about a bracket that is still open at the end. -/
def unclosed : Frame → ItemError
  | body name loc _ => .bodyOpen name loc
  | group loc _ => .groupOpen loc

end Frame

/-- Whether the innermost open bracket is a group. -/
def inGroup (frames : List Frame) : Bool := frames.head?.any Frame.isGroup

/-- Whether a count comes next. -/
def countAhead : List Token → Bool
  | ⟨.count _, _⟩ :: _ => true
  | _ => false

/-- Read the tokens that are left, given the open brackets and the items of the
innermost one, the last one first. -/
def readFrom (frames : List Frame) (items : List Item) : List Token → Except ItemError (List Item)
  | [] =>
    match frames with
    | [] => .ok items.reverse
    | frame :: _ => .error frame.unclosed
  | ⟨value, loc⟩ :: tokens =>
    match value with
    | .op o => readFrom frames (.op o loc :: items) tokens
    | .debug => readFrom frames (.debug loc :: items) tokens
    | .text bytes => readFrom frames (.text bytes loc :: items) tokens
    | .ref path => readFrom frames (.ref path loc :: items) tokens
    | .use =>
      if inGroup frames then .error (.declarationInGroup loc)
      else
        match tokens with
        | ⟨.ref path, _⟩ :: tokens =>
          if path.steps.isEmpty then .error (.useOfParent loc)
          else if countAhead tokens then .error (.useRepeated loc)
          else readFrom frames (.use path loc :: items) tokens
        | _ => .error (.useOfNothing loc)
    | .define name =>
      if inGroup frames then .error (.declarationInGroup loc)
      else
        match tokens with
        | ⟨.openBody, _⟩ :: tokens => readFrom (.body name loc items :: frames) [] tokens
        | _ => .error (.bodyMissing loc)
    | .openBody => .error (.bodyNameless loc)
    | .closeBody =>
      match frames with
      | .body name opened before :: frames =>
        readFrom frames (.define name items.reverse opened :: before) tokens
      | .group opened _ :: _ => .error (.groupOpen opened)
      | [] => .error (.bodyEndLoose loc)
    | .openGroup => readFrom (.group loc items :: frames) [] tokens
    | .closeGroup =>
      match frames with
      | .group opened before :: frames =>
        readFrom frames (.group items.reverse opened :: before) tokens
      | _ => .error (.groupEndLoose loc)
    | .count count =>
      match items with
      | item :: items => readFrom frames (.times count item item.loc :: items) tokens
      | [] => .error .nothingToCount
    | .other type => .error (.unknownToken type loc)

/-- The items that a list of tokens makes up. -/
def ofTokens (tokens : List Token) : Except ItemError (List Item) :=
  readFrom [] [] tokens

end ByteTape.Item

namespace ByteTape

/-- Which characters of a source text count. -/
inductive Dialect where
  /-- The whole macro language. -/
  | extended
  /-- The eight operations; every other character is a comment. -/
  | plain
deriving DecidableEq

/-- Why a text cannot be read. -/
inductive ReadError where
  | token (e : TokenError)
  | item (e : ItemError)
deriving DecidableEq

def ReadError.report : ReadError → Report
  | token e => e.report
  | item e => e.report

namespace Item

/-- The tokens of a text in a dialect. -/
def tokens (dialect : Dialect) (file text : String) : Except TokenError (List Token) :=
  match dialect with
  | .extended => Token.scan file text
  | .plain => .ok (Token.scanOps file text)

/-- Read a source text. -/
def parse (dialect : Dialect) (file text : String) : Except ReadError (List Item) :=
  match tokens dialect file text with
  | .error e => .error (.token e)
  | .ok tokens =>
    match ofTokens tokens with
    | .error e => .error (.item e)
    | .ok items => .ok items

end Item

end ByteTape
