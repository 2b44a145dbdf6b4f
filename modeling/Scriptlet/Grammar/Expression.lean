import Scriptlet.Grammar.State
import Scriptlet.Grammar.Table
import Scriptlet.Integer
import Scriptlet.Point.Numeral

/-!
Expressions from tokens. An expression is opened by the rule of its first token and joined with
what follows as long as the next token binds tighter than asked. Children get their numbers
before their parents.

The grammar is data and may lead in a circle, so every step has a budget; `exhausted` says that
it ran out.
-/

namespace Scriptlet.Parse

-- The numeral of a token without the tildes in front of it.
def numeral (token : Token) : List Char := token.value.toList.dropWhile (· == '~')

-- What a token means that is an expression by itself.
def leafOf (token : Token) : Except FaultCause (Node → Expr) :=
  let number {α : Type} (read? : List Char → Option α) (literal : α → Literal) :=
    match read? (numeral token) with
    | some n => .ok fun node => .literal node (literal n)
    | none => .error (.unreadableNumber token.value)
  match token.kind with
  | .integerLiteral => number Integer.read? fun n => .integer n
  | .negIntegerLiteral => number Integer.read? fun n => .integer (-n)
  | .pointLiteral => number Point.read? fun x => .point x
  | .negPointLiteral => number Point.read? fun x => .point (-x)
  | .textLiteral => .ok fun node => .literal node (.text token.value)
  | .stateLiteral => .ok fun node => .literal node (.state (token.value == "YES"))
  | .emptyLiteral => .ok fun node => .literal node .empty
  | .identifier => .ok fun node => .identifier node token.value
  | _ => .error (.unexpectedToken token.value)

def leaf : Parse Expr := do
  let token ← current
  match leafOf token with
  | .error cause => fail cause token.span.start
  | .ok build =>
    let _ ← advance
    return build (← newNode token.span)

def binaryOp? : TokenKind → Option BinaryOp
  | .or => some (.logical .or)
  | .and => some (.logical .and)
  | .equals => some (.comparison .equal)
  | .notEquals => some (.comparison .notEqual)
  | .less => some (.comparison .less)
  | .lessEquals => some (.comparison .lessEqual)
  | .greater => some (.comparison .greater)
  | .greaterEquals => some (.comparison .greaterEqual)
  | .plus => some (.arithmetic .add)
  | .dash => some (.arithmetic .subtract)
  | .star => some (.arithmetic .multiply)
  | .slash => some (.arithmetic .divide)
  | .percent => some (.arithmetic .modulo)
  | _ => none

def castTarget? : TokenKind → Option CastTarget
  | .integerType => some .integer
  | .pointType => some .point
  | .textType => some .text
  | .stateType => some .state
  | _ => none

-- The type of a cast in parentheses, as in `(text) 5`, when the cursor is after the first one.
def prefixCast? (c : Cursor) : Option CastTarget :=
  if (c.peek 1).kind = .closeParen then castTarget? c.kind else none

mutual

-- An expression whose operators all bind tighter than `least`.
def expression (g : Grammar) : Nat → Power → Parse Expr
  | 0, _ => exhausted
  | fuel + 1, least => do
    let token ← current
    match g.opening token.kind with
    | none => refuse token
    | some rule => continuation g fuel least (← opening g fuel rule)

-- Joins `left` with what follows while that binds tighter than `least`.
def continuation (g : Grammar) : Nat → Power → Expr → Parse Expr
  | 0, _, _ => exhausted
  | fuel + 1, least, left => do
    let token ← current
    if least.rank < (g.powerOf token.kind).rank then
      match g.joining token.kind with
      | none => refuse token
      | some rule => continuation g fuel least (← joining g fuel rule left (g.powerOf token.kind))
    else return left

def opening (g : Grammar) : Nat → OpeningRule → Parse Expr
  | 0, _ => exhausted
  | _ + 1, .leaf => leaf
  | fuel + 1, .signed => do
    let sign ← advance
    let operand ← expression g fuel .unary
    let node ← newNode (sign.span.to operand.span)
    return .unary node (if sign.kind = .not then .not else .negate) operand
  | fuel + 1, .grouping => do
    let start := (← advance).span.start
    match prefixCast? (← cursor) with
    | some target =>
      let _ ← advance
      let _ ← expect .closeParen
      let operand ← expression g fuel .unary
      return .cast (← newNode ⟨start, operand.span.stop⟩) target operand
    | none =>
      let inner ← expression g fuel .default
      let stop := (← expect .closeParen).span.stop
      return .grouping (← newNode ⟨start, stop⟩) inner
  | fuel + 1, .cast => do
    let token ← advance
    match castTarget? token.kind with
    | none => refuse token
    | some target =>
      let _ ← expectNamed .openParen "expected `(` after a type name in a cast"
      let operand ← expression g fuel .default
      let stop := (← expect .closeParen).span.stop
      return .cast (← newNode ⟨token.span.start, stop⟩) target operand
  | fuel + 1, .list => do
    let start := (← advance).span.start
    let items ← itemsUntil g fuel .closeBracket
    let stop := (← expect .closeBracket).span.stop
    return .list (← newNode ⟨start, stop⟩) items

def joining (g : Grammar) : Nat → JoiningRule → Expr → Power → Parse Expr
  | 0, _, _, _ => exhausted
  | fuel + 1, .binary, left, power => do
    match binaryOp? (← kind) with
    | none => failWith "expected a binary operator"
    | some op =>
      let _ ← advance
      let right ← expression g fuel power
      return .binary (← newNode (left.span.to right.span)) op left right
  | fuel + 1, .call, .identifier callee name, _ => do
    let _ ← advance
    let arguments ← itemsUntil g fuel .closeParen
    let stop := (← expect .closeParen).span.stop
    return .call (← newNode ⟨callee.span.start, stop⟩) name callee.span arguments
  | _ + 1, .call, _, _ => do
    let cause := .unexpectedTokenDetailed "(" "only named functions can be called"
    fail cause (← cursor).position

-- Expressions with commas between them, or none if `close` comes at once.
def itemsUntil (g : Grammar) : Nat → TokenKind → Parse (List Expr)
  | 0, _ => exhausted
  | fuel + 1, close => do
    if (← kind) = close then return []
    else items g fuel

def items (g : Grammar) : Nat → Parse (List Expr)
  | 0 => exhausted
  | fuel + 1 => do
    let item ← expression g fuel .default
    if ← accept .comma then return item :: (← items g fuel)
    else return [item]

end

end Scriptlet.Parse
