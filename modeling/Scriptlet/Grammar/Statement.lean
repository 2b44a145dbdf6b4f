import Scriptlet.Grammar.Expression
import Scriptlet.Tree.Stmt

namespace Scriptlet.Parse

def assignOp? : TokenKind → Option AssignOp
  | .assignment => some .assign
  | .plusEquals => some (.compound .add)
  | .minusEquals => some (.compound .subtract)
  | .starEquals => some (.compound .multiply)
  | .slashEquals => some (.compound .divide)
  | .percentEquals => some (.compound .modulo)
  | _ => none

-- An expression and the semicolon after it, with the position after that.
def terminated (g : Grammar) (fuel : Nat) : Parse (Expr × Position) := do
  let value ← expression g fuel .default
  return (value, (← expect .semicolon).span.stop)

def declarators (g : Grammar) : Nat → Parse (List Declarator)
  | 0 => exhausted
  | fuel + 1 => do
    let name ← expectNamed .identifier "expected identifier during variable declaration"
    let value ← if ← accept .assignment then some <$> expression g fuel .default else pure none
    let declarator : Declarator := ⟨name.value, value, ⟨name.span.start, (← cursor).previousEnd⟩⟩
    if ← accept .comma then return declarator :: (← declarators g fuel)
    else return [declarator]

def parameters : Nat → Parse (List Parameter)
  | 0 => exhausted
  | fuel + 1 => do
    let name ← expectNamed .identifier "expected parameter name"
    if ← accept .comma then return ⟨name.value, name.span⟩ :: (← parameters fuel)
    else return [⟨name.value, name.span⟩]

def parametersUntil (fuel : Nat) (close : TokenKind) : Parse (List Parameter) := do
  if (← kind) = close then return []
  else parameters fuel

def declaration (g : Grammar) (fuel : Nat) : Parse Stmt := do
  let start ← advance
  let names ← declarators g fuel
  let stop := (← expect .semicolon).span.stop
  return .declaration ⟨start.span.start, stop⟩ (start.kind = .fixedKeyword) names

def assignment (g : Grammar) (fuel : Nat) : Parse Stmt := do
  let name ← expect .identifier
  match assignOp? (← kind) with
  | none => failWith "expected an assignment operator"
  | some op =>
    let _ ← advance
    let (value, stop) ← terminated g fuel
    return .assignment ⟨name.span.start, stop⟩ name.value name.span op value

def output (g : Grammar) (fuel : Nat) : Parse Stmt := do
  let start := (← advance).span.start
  let (value, stop) ← terminated g fuel
  return .output ⟨start, stop⟩ value

def throwing (g : Grammar) (fuel : Nat) : Parse Stmt := do
  let start := (← advance).span.start
  let (value, stop) ← terminated g fuel
  return .throw ⟨start, stop⟩ value

def bare (g : Grammar) (fuel : Nat) : Parse Stmt := do
  let (value, stop) ← terminated g fuel
  return .expression ⟨value.span.start, stop⟩ value

-- Whether the cursor is at a name that is about to be assigned to.
def startsAssignment (c : Cursor) : Bool :=
  c.kind == .identifier && (c.peek 1).kind.isAssignment

mutual

def statement (g : Grammar) : Nat → Parse Stmt
  | 0 => exhausted
  | fuel + 1 => do
    let c ← cursor
    match g.statement c.kind with
    | some rule => statementBy g fuel rule
    | none => if startsAssignment c then assignment g fuel else bare g fuel

def statementBy (g : Grammar) : Nat → StatementRule → Parse Stmt
  | 0, _ => exhausted
  | fuel + 1, .any => statement g fuel
  | fuel + 1, .declaration => declaration g fuel
  | fuel + 1, .assignment => assignment g fuel
  | fuel + 1, .function => do
    let start := (← advance).span.start
    let name ← expectNamed .identifier "expected function name after `func`"
    let _ ← expect .openParen
    let names ← parametersUntil fuel .closeParen
    let _ ← expect .closeParen
    let _ ← expect .openCurly
    let body ← block g fuel
    let stop := (← expect .closeCurly).span.stop
    return .function ⟨start, stop⟩ name.value name.span names body
  | fuel + 1, .output => output g fuel
  | fuel + 1, .throw => throwing g fuel

-- The statements up to a closing brace.
def block (g : Grammar) : Nat → Parse (List Stmt)
  | 0 => exhausted
  | fuel + 1 => do
    match ← kind with
    | .closeCurly => return []
    | .eof => failWith "expected `\x7d` to close the function body"
    | _ => return (← statement g fuel) :: (← block g fuel)

end

-- The statements up to the end.
def statements (g : Grammar) : Nat → Parse (List Stmt)
  | 0 => exhausted
  | fuel + 1 => do
    if (← cursor).atEnd then return []
    else return (← statement g fuel) :: (← statements g fuel)

-- Enough for every step that starts here and comes to an end at all.
def budget (c : Cursor) : Nat := 8 * (c.ahead.length + 4)

def withBudget {α : Type} (step : Nat → Parse α) : Parse α := do
  step (budget (← cursor))

def program : Parse Program := do
  let start := (← cursor).position
  let body ← withBudget (statements .standard)
  return ⟨body, ⟨start, (← cursor).position⟩⟩

end Scriptlet.Parse

namespace Scriptlet

def Stop.toFault : Stop → Cursor → Fault
  | .fault f, _ => f
  | .exhausted, c => ⟨.unexpectedToken c.current.value, c.position⟩

-- The program that a list of tokens spells.
def Program.ofTokens (tokens : List Token) : Except Fault Program :=
  match Parse.program.run (Parse.start tokens) with
  | .ok program _ => .ok program
  | .error stop state => .error (stop.toFault state.cursor)

end Scriptlet
