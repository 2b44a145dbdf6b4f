import Scriptlet.Integer
import Scriptlet.Point.Numeral
import Scriptlet.Token.Basic
import Scriptlet.Tree.Stmt

/-!
The grammar of the language, written down without any way of reading it. An expression is layered:
each layer joins operands of the next tighter one, and every layer of binary operators associates
to the left. The numbers and the source stretches of the nodes are left open by all rules, so a
sentence has a tree only up to these.
-/

namespace Scriptlet

-- The layers of expressions, loosest first.
inductive Layer where
  | disjunction
  | conjunction
  | equality
  | relation
  | sum
  | product
  | prefixed
  | primary
deriving DecidableEq

namespace Layer

-- The next tighter layer; there is none below the primary expressions.
def next : Layer → Layer
  | disjunction => conjunction
  | conjunction => equality
  | equality => relation
  | relation => sum
  | sum => product
  | product => prefixed
  | prefixed | primary => primary

-- The operators of a layer.
def operator? : Layer → TokenKind → Option BinaryOp
  | disjunction, .or => some (.logical .or)
  | conjunction, .and => some (.logical .and)
  | equality, .equals => some (.comparison .equal)
  | equality, .notEquals => some (.comparison .notEqual)
  | relation, .less => some (.comparison .less)
  | relation, .lessEquals => some (.comparison .lessEqual)
  | relation, .greater => some (.comparison .greater)
  | relation, .greaterEquals => some (.comparison .greaterEqual)
  | sum, .plus => some (.arithmetic .add)
  | sum, .dash => some (.arithmetic .subtract)
  | product, .star => some (.arithmetic .multiply)
  | product, .slash => some (.arithmetic .divide)
  | product, .percent => some (.arithmetic .modulo)
  | _, _ => none

end Layer

-- The words that name the target of a cast.
inductive TokenKind.NamesType : TokenKind → CastTarget → Prop where
  | integer : NamesType .integerType .integer
  | point : NamesType .pointType .point
  | text : NamesType .textType .text
  | state : NamesType .stateType .state

-- The signs that stand before an operand.
inductive TokenKind.NamesSign : TokenKind → UnaryOp → Prop where
  | not : NamesSign .not .not
  | negate : NamesSign .tilde .negate

-- The signs of assignments.
inductive TokenKind.NamesAssignment : TokenKind → AssignOp → Prop where
  | assign : NamesAssignment .assignment .assign
  | add : NamesAssignment .plusEquals (.compound .add)
  | subtract : NamesAssignment .minusEquals (.compound .subtract)
  | multiply : NamesAssignment .starEquals (.compound .multiply)
  | divide : NamesAssignment .slashEquals (.compound .divide)
  | modulo : NamesAssignment .percentEquals (.compound .modulo)

def Integer.AreDigits (cs : List Char) : Prop := cs ≠ [] ∧ ∀ c ∈ cs, Integer.isDigit c = true

-- The literal that a token writes. A numeral is in decimal, with a tilde for the minus sign, and a
-- point literal is the point value nearest to what it writes.
inductive Token.Writes : Token → Literal → Prop where
  | integer {value digits span} {n : Int64} (digital : Integer.AreDigits digits)
      (written : value = String.ofList digits) (meant : n.toInt = Integer.ofDigits digits) :
      Writes ⟨.integerLiteral, value, span⟩ (.integer n)
  | negative {value digits span} {n : Int64} (digital : Integer.AreDigits digits)
      (written : value = String.ofList ('~' :: digits))
      (meant : n.toInt = -(Integer.ofDigits digits : Int)) :
      Writes ⟨.negIntegerLiteral, value, span⟩ (.integer n)
  | point {value whole fraction span} (digital : Integer.AreDigits whole)
      (fractional : Integer.AreDigits fraction)
      (written : value = String.ofList (whole ++ '.' :: fraction)) :
      Writes ⟨.pointLiteral, value, span⟩
        (.point (Point.ofDecimal (Integer.ofDigits (whole ++ fraction)) (-fraction.length)))
  | negativePoint {value whole fraction span} (digital : Integer.AreDigits whole)
      (fractional : Integer.AreDigits fraction)
      (written : value = String.ofList ('~' :: whole ++ '.' :: fraction)) :
      Writes ⟨.negPointLiteral, value, span⟩
        (.point (-Point.ofDecimal (Integer.ofDigits (whole ++ fraction)) (-fraction.length)))
  | text {value span} : Writes ⟨.textLiteral, value, span⟩ (.text value)
  | yes {span} : Writes ⟨.stateLiteral, "YES", span⟩ (.state true)
  | no {span} : Writes ⟨.stateLiteral, "NO", span⟩ (.state false)
  | empty {value span} : Writes ⟨.emptyLiteral, value, span⟩ .empty

mutual

-- The tokens are an expression of the layer, and this is its tree.
inductive Spells : Layer → List Token → Expr → Prop where
  | tighter {layer ts e} (loose : layer ≠ .primary) (inner : Spells layer.next ts e) :
      Spells layer ts e
  | binary {layer sign op ls rs l r node} (left : Spells layer ls l)
      (operator : layer.operator? sign.kind = some op) (right : Spells layer.next rs r) :
      Spells layer (ls ++ sign :: rs) (.binary node op l r)
  | unary {sign op ts e node} (signed : sign.kind.NamesSign op) (operand : Spells .prefixed ts e) :
      Spells .prefixed (sign :: ts) (.unary node op e)
  | castBefore {opener type closer target ts e node} (opens : opener.kind = .openParen)
      (named : type.kind.NamesType target) (closes : closer.kind = .closeParen)
      (operand : Spells .prefixed ts e) :
      Spells .prefixed (opener :: type :: closer :: ts) (.cast node target e)
  | literal {token value node} (written : token.Writes value) :
      Spells .primary [token] (.literal node value)
  | name {token node} (named : token.kind = .identifier) :
      Spells .primary [token] (.identifier node token.value)
  | call {callee opener closer ts es node span} (named : callee.kind = .identifier)
      (opens : opener.kind = .openParen) (closes : closer.kind = .closeParen)
      (arguments : SpellsItems ts es) :
      Spells .primary (callee :: opener :: ts ++ [closer]) (.call node callee.value span es)
  | grouping {opener closer ts e node} (opens : opener.kind = .openParen)
      (closes : closer.kind = .closeParen) (inner : Spells .disjunction ts e) :
      Spells .primary (opener :: ts ++ [closer]) (.grouping node e)
  | castAround {type opener closer target ts e node} (named : type.kind.NamesType target)
      (opens : opener.kind = .openParen) (closes : closer.kind = .closeParen)
      (operand : Spells .disjunction ts e) :
      Spells .primary (type :: opener :: ts ++ [closer]) (.cast node target e)
  | list {opener closer ts es node} (opens : opener.kind = .openBracket)
      (closes : closer.kind = .closeBracket) (items : SpellsItems ts es) :
      Spells .primary (opener :: ts ++ [closer]) (.list node es)

-- Any number of expressions with commas between them.
inductive SpellsItems : List Token → List Expr → Prop where
  | none : SpellsItems [] []
  | last {ts e} (item : Spells .disjunction ts e) : SpellsItems ts [e]
  | more {comma ts us e es} (item : Spells .disjunction ts e) (separated : comma.kind = .comma)
      (rest : SpellsItems us es) (follows : es ≠ []) : SpellsItems (ts ++ comma :: us) (e :: es)

end

-- One name of a declaration, with or without a first value.
inductive SpellsDeclarator : List Token → Declarator → Prop where
  | bare {name span} (named : name.kind = .identifier) :
      SpellsDeclarator [name] ⟨name.value, none, span⟩
  | initialized {name sign ts e span} (named : name.kind = .identifier)
      (assigns : sign.kind = .assignment) (value : Spells .disjunction ts e) :
      SpellsDeclarator (name :: sign :: ts) ⟨name.value, some e, span⟩

-- At least one declarator, with commas between them.
inductive SpellsDeclarators : List Token → List Declarator → Prop where
  | last {ts d} (item : SpellsDeclarator ts d) : SpellsDeclarators ts [d]
  | more {comma ts us d ds} (item : SpellsDeclarator ts d) (separated : comma.kind = .comma)
      (rest : SpellsDeclarators us ds) : SpellsDeclarators (ts ++ comma :: us) (d :: ds)

-- Any number of parameters with commas between them.
inductive SpellsParameters : List Token → List Parameter → Prop where
  | none : SpellsParameters [] []
  | last {name span} (named : name.kind = .identifier) :
      SpellsParameters [name] [⟨name.value, span⟩]
  | more {name comma us ps span} (named : name.kind = .identifier)
      (separated : comma.kind = .comma) (rest : SpellsParameters us ps) (follows : ps ≠ []) :
      SpellsParameters (name :: comma :: us) (⟨name.value, span⟩ :: ps)

-- The word before a declaration says whether its names are fixed.
inductive TokenKind.NamesDeclaration : TokenKind → Bool → Prop where
  | changeable : NamesDeclaration .varKeyword false
  | fixed : NamesDeclaration .fixedKeyword true

mutual

-- The tokens are a statement, and this is its tree.
inductive SpellsStatement : List Token → Stmt → Prop where
  | declaration {word ts stop fixed ds span} (starts : word.kind.NamesDeclaration fixed)
      (names : SpellsDeclarators ts ds) (ends : stop.kind = .semicolon) :
      SpellsStatement (word :: ts ++ [stop]) (.declaration span fixed ds)
  | assignment {name sign ts stop op e span nameSpan} (named : name.kind = .identifier)
      (assigns : sign.kind.NamesAssignment op) (value : Spells .disjunction ts e)
      (ends : stop.kind = .semicolon) :
      SpellsStatement (name :: sign :: ts ++ [stop]) (.assignment span name.value nameSpan op e)
  | function {word name opener closer opening closing ts us ps body span nameSpan}
      (starts : word.kind = .funcKeyword) (named : name.kind = .identifier)
      (opens : opener.kind = .openParen) (parameters : SpellsParameters ts ps)
      (closes : closer.kind = .closeParen) (begins : opening.kind = .openCurly)
      (statements : SpellsBody us body) (ends : closing.kind = .closeCurly) :
      SpellsStatement (word :: name :: opener :: ts ++ closer :: opening :: us ++ [closing])
        (.function span name.value nameSpan ps body)
  | output {word ts stop e span} (starts : word.kind = .showKeyword)
      (value : Spells .disjunction ts e) (ends : stop.kind = .semicolon) :
      SpellsStatement (word :: ts ++ [stop]) (.output span e)
  | throw {word ts stop e span} (starts : word.kind = .throwKeyword)
      (value : Spells .disjunction ts e) (ends : stop.kind = .semicolon) :
      SpellsStatement (word :: ts ++ [stop]) (.throw span e)
  | expression {ts stop e span} (value : Spells .disjunction ts e)
      (ends : stop.kind = .semicolon) :
      SpellsStatement (ts ++ [stop]) (.expression span e)

-- One statement after the other: a function body, or a whole program.
inductive SpellsBody : List Token → List Stmt → Prop where
  | none : SpellsBody [] []
  | more {ts us s body} (first : SpellsStatement ts s) (rest : SpellsBody us body) :
      SpellsBody (ts ++ us) (s :: body)

end

end Scriptlet
