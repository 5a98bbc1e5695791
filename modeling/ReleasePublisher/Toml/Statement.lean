import ReleasePublisher.Toml.Fault
import ReleasePublisher.Toml.Token

/-!
# Statements of a TOML text

The tokens are grouped into statements: assignments of values to keys, and headers of tables. Only
the arrangement of the tokens is looked at; names, strings and numbers stay tokens. The first place
where the arrangement is wrong is reported.

## Main definitions

* `Toml.RawValue`: a value whose parts are tokens
* `Toml.Statement`: an assignment or a header
* `Toml.statements text`: the statements of a text
-/

namespace ReleasePublisher.Toml

/-- A value whose parts are tokens. -/
inductive RawValue where
  | scalar (t : Token)
  | array (start stop : Nat) (items : List RawValue)
  | inline (start stop : Nat) (entries : List (List Token × RawValue))
  deriving Repr, Inhabited

/-- An assignment or a header. Keys are lists of tokens, one for each name. -/
inductive Statement where
  | assignment (key : List Token) (value : RawValue)
  | header (isArray : Bool) (key : List Token) (start stop : Nat)
  deriving Repr

/-- The fault of a token that stands in a wrong place. -/
def wrongToken (description : String) (t : Token) : Fault :=
  ⟨description, t.start, t.stop⟩

/-- The fault of something that is missing before a token. -/
def missingBefore (description : String) (t : Token) : Fault :=
  ⟨description, t.start, t.start⟩

/-- The first of the tokens; the end of the text where there is none. -/
def nextToken (ts : List Token) : Token :=
  ts.headD ⟨.endOfText, [], 0⟩

/-- The tokens behind blanks. -/
def skipBlanks (ts : List Token) : List Token :=
  ts.dropWhile (·.kind == .blank)

/-- The token may state a name. -/
def isName (t : Token) : Bool :=
  t.kind == .bare || t.kind == .literal || t.kind == .basic || t.kind == .longLiteral ||
    t.kind == .longBasic

/-- An empty token at the place of another, which stands for a name or value that is missing. -/
def emptyAt (t : Token) : Token :=
  ⟨.bare, [], t.start⟩

/-- A control character that may not stand in a text, other than a line break. -/
def isControl (c : Char) : Bool :=
  (c.toNat < 0x20 && c != '\t') || c.toNat == 0x7F

/-- A comment holds no control characters. -/
def checkComment (t : Token) : Except Fault Unit :=
  match t.chars.findIdx? isControl with
  | some i =>
    .error ⟨"invalid comment character, expected printable characters", t.start + i,
      t.start + i + 1⟩
  | none => .ok ()

/-- What is said of a carriage return that no line feed follows. -/
def loneReturn : String := "carriage return must be followed by newline, expected newline"

/-- A carriage return does not end a line by itself. -/
def checkNewline (t : Token) : Except Fault Unit :=
  if t.chars == ['\r'] then .error ⟨loneReturn, t.stop, t.stop⟩ else .ok ()

/-- Passes over what may stand behind a statement on its line. -/
def lineEnd (ts : List Token) : Except Fault (List Token) := do
  let ts := skipBlanks ts
  let ts ← match ts with
    | t :: rest => if t.kind == .comment then do checkComment t; pure rest else pure ts
    | [] => pure ts
  match ts with
  | [] => return []
  | t :: rest =>
    match t.kind with
    | .newline => checkNewline t; return rest
    | .endOfText => return ts
    | _ => .error (wrongToken "unexpected key or value, expected newline, `#`" t)

/-- Groups a key: names with dots between them. A name that is missing counts as empty. Each dot
takes a token, so the fuel suffices. -/
def keyNames : Nat → List Token → List Token × List Token
  | 0, ts => ([], ts)
  | fuel + 1, ts =>
    let ts := skipBlanks ts
    let t := nextToken ts
    let (name, rest) := if isName t then (t, ts.drop 1) else (emptyAt t, ts)
    let after := skipBlanks rest
    if (nextToken after).kind == .dot then
      let (names, rest) := keyNames fuel (after.drop 1)
      (name :: names, rest)
    else ([name], rest)

/-- Groups a key. -/
def rawKey (ts : List Token) : List Token × List Token :=
  keyNames (ts.length + 1) ts

/-- Groups the rest of a scalar that has no quotes: names and dots, and names behind a blank. -/
def bareScalar (t : Token) : List Token → Token × List Token
  | [] => (t, [])
  | u :: rest =>
    if isName u || u.kind == .dot then bareScalar ⟨.bare, t.chars ++ u.chars, t.start⟩ rest
    else if u.kind == .blank then
      match rest with
      | [] => (t, u :: rest)
      | v :: after =>
        if v.kind == .bare then bareScalar ⟨.bare, t.chars ++ u.chars ++ v.chars, t.start⟩ after
        else (t, u :: v :: after)
    else (t, u :: rest)

/-- What is said of a line break in an inline table. -/
def noNewlines : String := "newlines are unsupported in inline tables, expected nothing"

/-- What is said of a comment in an inline table. -/
def noComments : String := "comments are unsupported in inline tables, expected nothing"

/-- How many arrays and inline tables may stand inside one another. -/
def maxDepth : Nat := 80

/-- The fault of an array or inline table inside too many others. -/
def tooDeep (t : Token) : Fault :=
  wrongToken "cannot recurse further; max recursion depth met" t

mutual

/-- Groups a value inside `depth` arrays and inline tables. `inside` tells that it stands in an
inline table. -/
def rawValue : Nat → Nat → Bool → List Token →
    Except Fault (RawValue × List Token)
  | 0, _, _, ts => .error (tooDeep (nextToken ts))
  | fuel + 1, depth, inside, ts =>
    let t := nextToken ts
    let rest := ts.drop 1
    match t.kind with
    | .comment | .comma | .newline | .endOfText => .ok (.scalar (emptyAt t), ts)
    | .equals => .error (wrongToken "extra `=`, expected nothing" t)
    | .openBrace =>
      if depth < maxDepth then inlineEntries fuel (depth + 1) t.start true none [] rest
      else .error (tooDeep t)
    | .closeBrace =>
      if inside then .ok (.scalar (emptyAt t), ts)
      else .error (missingBefore "missing inline table opening, expected `\x7b`" t)
    | .openBracket =>
      if depth < maxDepth then arrayItems fuel (depth + 1) t.start true [] rest
      else .error (tooDeep t)
    | .closeBracket => .error (missingBefore "missing array opening, expected `[`" t)
    | .literal | .basic | .longLiteral | .longBasic => .ok (.scalar t, rest)
    -- Numbers with a point, and dates with a blank, come as several tokens.
    | .bare | .dot | .blank =>
      let (t, rest) := bareScalar t rest
      .ok (.scalar t, rest)

/-- Groups the items of an array, up to its closing bracket. `wanted` tells that a value may
stand next; otherwise a comma must. -/
def arrayItems : Nat → Nat → Nat → Bool → List RawValue → List Token →
    Except Fault (RawValue × List Token)
  | 0, _, _, _, _, ts => .error (tooDeep (nextToken ts))
  | fuel + 1, depth, start, wanted, items, ts =>
    let t := nextToken ts
    let rest := ts.drop 1
    match t.kind with
    | .blank => arrayItems fuel depth start wanted items rest
    | .newline => do checkNewline t; arrayItems fuel depth start wanted items rest
    | .comment => do checkComment t; arrayItems fuel depth start wanted items rest
    | .endOfText => .error (wrongToken "unclosed array, expected `]`" t)
    | .closeBracket => .ok (.array start t.stop items.reverse, rest)
    | .comma =>
      if wanted then .error (wrongToken "extra comma in array, expected value" t)
      else arrayItems fuel depth start true items rest
    | .equals => .error (wrongToken "unexpected `=` in array, expected value, `]`" t)
    | .closeBrace => .error (missingBefore "missing inline table opening, expected `\x7b`" t)
    | _ =>
      if !wanted then
        .error (missingBefore "missing comma between array elements, expected `,`" t)
      else do
        let (v, rest) ← rawValue fuel depth false ts
        arrayItems fuel depth start false (v :: items) rest

/-- Groups the entries of an inline table, up to its closing brace. `wanted` tells that a key may
stand next; otherwise a comma must. `comma` is the comma read last. -/
def inlineEntries : Nat → Nat → Nat → Bool → Option Token → List (List Token × RawValue) →
    List Token → Except Fault (RawValue × List Token)
  | 0, _, _, _, _, _, ts => .error (tooDeep (nextToken ts))
  | fuel + 1, depth, start, wanted, comma, entries, ts =>
    let t := nextToken ts
    let rest := ts.drop 1
    match t.kind with
    | .blank => inlineEntries fuel depth start wanted comma entries rest
    | .newline => .error (wrongToken noNewlines t)
    | .comment => .error (wrongToken noComments t)
    | .endOfText => .error (wrongToken "unclosed inline table, expected `\x7d`" t)
    | .closeBrace =>
      match wanted, comma with
      | true, some c =>
        .error (wrongToken "trailing commas are not supported in inline tables, expected nothing" c)
      | _, _ => .ok (.inline start t.stop entries.reverse, rest)
    | .comma =>
      if wanted then
        .error (wrongToken "extra comma in inline table, expected key, `\x7d`" t)
      else inlineEntries fuel depth start true (some t) entries rest
    | .openBracket | .closeBracket | .openBrace =>
      if wanted then .error (missingBefore "missing key for inline table element, expected key" t)
      else .error (missingBefore "missing comma between key-value pairs, expected `,`" t)
    | _ =>
      if !wanted then
        .error (missingBefore "missing comma between key-value pairs, expected `,`" t)
      else
        let (key, rest) := rawKey ts
        let rest := skipBlanks rest
        let e := nextToken rest
        match e.kind with
        | .equals => do
          let (v, rest) ← rawValue fuel depth true (skipBlanks (rest.drop 1))
          inlineEntries fuel depth start false comma ((key, v) :: entries) rest
        | .comma =>
          .error (wrongToken "extra comma in inline table, expected `=`" e)
        | .newline =>
          .error (wrongToken noNewlines e)
        | .comment =>
          .error (wrongToken noComments e)
        | .endOfText => .error (wrongToken "unclosed inline table, expected `\x7d`" e)
        | _ => .error (missingBefore "missing assignment between key-value pairs, expected `=`" e)

end

/-- Groups an assignment and passes over its line. -/
def assignment (fuel : Nat) (ts : List Token) : Except Fault (Statement × List Token) := do
  let (key, rest) := rawKey ts
  let rest := skipBlanks rest
  let e := nextToken rest
  if e.kind != .equals then .error (missingBefore "key with no value, expected `=`" e)
  let (v, rest) ← rawValue fuel 0 false (skipBlanks (rest.drop 1))
  return (.assignment key v, ← lineEnd rest)

/-- Groups a header from its opening bracket and passes over its line. -/
def header (ts : List Token) : Except Fault (Statement × List Token) := do
  let start := (nextToken ts).start
  let inner := ts.drop 1
  let isArray := (nextToken inner).kind == .openBracket
  let (key, rest) := rawKey (if isArray then inner.drop 1 else inner)
  -- An unclosed header is told behind its last name, not behind the blanks that follow.
  let behind : Nat := (key.getLast?.map Token.stop).getD start
  let closing := skipBlanks rest
  if (nextToken closing).kind != .closeBracket then
    .error ⟨"unclosed table, expected `]`", behind, behind⟩
  let c := nextToken closing
  let rest := closing.drop 1
  if !isArray then return (.header false key start c.stop, ← lineEnd rest)
  let d := nextToken rest
  if d.kind != .closeBracket then
    .error ⟨"unclosed array table, expected `]`", c.stop, c.stop⟩
  return (.header true key start d.stop, ← lineEnd (rest.drop 1))

/-- Groups tokens into statements. Each statement takes at least one token. -/
def statementsOf (fuel : Nat) : Nat → List Token → Except Fault (List Statement)
  | 0, _ => .ok []
  | steps + 1, ts =>
    let t := nextToken ts
    let rest := ts.drop 1
    match t.kind with
    | .endOfText => .ok []
    | .blank => statementsOf fuel steps rest
    | .newline => do checkNewline t; statementsOf fuel steps rest
    | .comment => do checkComment t; statementsOf fuel steps rest
    | .closeBracket => .error (missingBefore "missing table open, expected `[`" t)
    | .comma | .openBrace | .closeBrace =>
      .error (missingBefore "missing key, expected key" t)
    | .openBracket => do
      let (s, rest) ← header ts
      return s :: (← statementsOf fuel steps rest)
    | _ => do
      let (s, rest) ← assignment fuel ts
      return s :: (← statementsOf fuel steps rest)

/-- The statements of a text. -/
def statements (text : List Char) : Except Fault (List Statement) :=
  let ts := tokens text
  statementsOf (2 * ts.length + 2) (ts.length + 1) ts

end ReleasePublisher.Toml
