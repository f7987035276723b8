import Stencil.Expansion.Machine
import Stencil.Text.LetterCase

/-!
# Built-in functions

What the globals of generator programs do: `Syntax` builds nodes and tokens, `Context` acts on the
current expansion context, `TokenKind` and `DeferredCallForm` name constants, and `Math` has a few
numeric functions. Lists, strings and the objects that describe the target have members of their
own, and operators work on values of every kind.
-/
namespace Stencil.Expansion

/-! ## Values as code -/

/-- What a value comes to: a list as the join of what its items come to, with `depth` levels of
lists left, and any other value by itself. -/
def spread {α : Type} (lists : Array (Array Value)) (leaf : Value → Except Fault α)
    (join : List α → α) : Nat → Value → Except Stop α
  | 0, .list _ => .error .exhausted
  | depth + 1, .list place => do
    let items := (lists[place]?).getD #[]
    return join (← items.toList.mapM (spread lists leaf join depth))
  | _, v => (leaf v).mapError .fault

/-- Lists nest at most as deep as there are lists. -/
def nesting (lists : Array (Array Value)) : Nat := lists.size + 1

/-- The code that a value other than a list stands for. -/
def leafNode : Value → Except Fault Node
  | .node n => .ok n
  | .null => .ok (.keywordLiteral .nullKeyword)
  | .bool b => .ok (.keywordLiteral (if b then .trueKeyword else .falseKeyword))
  | .int n => .ok (.intLiteral n)
  | .float x => .ok (.literal (.detached .floatLiteral (Number.literalText x)))
  | .char c => .ok (.literal (.detached .charLiteral c.toString))
  | .string s => .ok (.stringLiteral s)
  | .token t =>
    if t.kind = .identifier then .ok (.identifierOf t)
    else .error (.type (.cannotSplice (Value.token t).typeName))
  | .object id o =>
    match o.node? with
    | some n => .ok n
    | none => .error (.type (.cannotSplice (Value.object id o).typeName))
  | v => .error (.type (.cannotSplice v.typeName))

/-- The children that a value other than a list stands for; null is left out. -/
def leafChildren : Value → Except Fault (List (Child Node))
  | .null => .ok []
  | .node n => .ok [.node n]
  | .token t => .ok [.token t]
  | v => .error (.type (.notElement v.typeName))

def toNode (lists : Array (Array Value)) : Value → Except Stop Node :=
  spread lists leafNode .list (nesting lists)

def toChildren (lists : Array (Array Value)) : Value → Except Stop (List (Child Node)) :=
  spread lists leafChildren .flatten (nesting lists)

/-- Finds something out from the lists as they are now. -/
def reading {α : Type} (read : Array (Array Value) → Except Stop α) : Run α := do
  MonadExcept.ofExcept (read (← get).lists)

def asNode (v : Value) : Run Node := reading fun lists => toNode lists v

/-- A node of a kind whose children are the arguments. -/
def constructNode (kind : NodeKind) (arguments : List Value) : Run Node :=
  reading fun lists => do
    return .build kind (← arguments.mapM (toChildren lists)).flatten

/-! ## Functions of the globals -/

def argument (arguments : List Value) (index : Nat) (function : String) : Run Value :=
  match arguments[index]? with
  | some v => return v
  | none => fail (.type (.tooFew function (index + 1)))

def newToken (kind : TokenKind) (text : String) : Value := .token (.detached kind text)

/-- The code that a value stands for; a node stands for itself. -/
def splice : Value → Run Value
  | .node n => return .node n
  | v => do newNode (← asNode v)

def callNodes (name : String) (arguments : List Value) : Run Value := do
  let function := "Syntax." ++ name
  match name with
  | "StatementList" => newList #[]
  | "Token" =>
    match ← argument arguments 0 function with
    | .tokenKind kind =>
      match arguments[1]?, kind.spelling with
      | some text, _ => return newToken kind (← typed text.asText)
      | none, some text => return newToken kind text
      | none, none => fail (.type (.noText kind))
    | _ => fail (.type .notTokenKind)
  | "StringLiteral" =>
    return newToken .stringLiteral (← sound (← argument arguments 0 function).text)
  | "CharLiteral" =>
    return newToken .charLiteral (← sound (← argument arguments 0 function).text)
  | "IntLiteral" =>
    let n ← typed (← argument arguments 0 function).asInt
    return newToken .intLiteral (toString n.toInt)
  | "FloatLiteral" =>
    let x ← typed (← argument arguments 0 function).asFloat
    return newToken .floatLiteral (Number.literalText x)
  | "Splice" => splice (← argument arguments 0 function)
  | "SyntheticBlock" => newNode ((← constructNode .block arguments).mark .synthetic)
  | _ =>
    match NodeKind.ofName? name with
    | some kind => newNode (← constructNode kind arguments)
    | none => fail (.noMember "Syntax" name)

/-- Whether a text is the type of generated code. -/
def isDynamicText (text : String) : Bool :=
  match TypeExpr.parse text with
  | .ok .dynamic => true
  | _ => false

def callContext (name : String) (arguments : List Value) : Run Value := do
  let context ← currentContext
  let function := "Context." ++ name
  match name with
  | "FreshIdentifier" =>
    let hint ← typed (← argument arguments 0 function).asText
    return .token (.ofName (← onContext context (Context.freshName hint)))
  | "ReturnStatement" =>
    let value ← match arguments[0]? with
      | some v => some <$> asNode v
      | none => pure none
    let dynamic ← match arguments[1]? with
      | some type => do pure (isDynamicText (← typed type.asText))
      | none => pure false
    newNode (← onContext context (Context.returnStatement value dynamic))
  | "CreateAssignStatement" =>
    match ← argument arguments 0 function with
    | .token t =>
      let form ← typed (← argument arguments 1 function).asForm
      match (← contextAt context).assignWrapped t form with
      | .ok n => newNode n
      | .error f => fail f
    | _ => fail (.type .notIdentifierToken)
  | "CreateReturnStatement" =>
    let form ← typed (← argument arguments 0 function).asForm
    match (← contextAt context).provide form with
    | .ok call => newNode (← onContext context (Context.returnStatement (some call) false))
    | .error f => fail f
  | _ => fail (.noMember "Context" name)

/-- The magnitude of a word. Overflow is not checked: the least word has no magnitude and is given
back as it is. -/
def magnitude (n : Int64) : Int64 := if n < 0 then -n else n

def isInt : Value → Bool
  | .int _ => true
  | _ => false

def callMath (name : String) (arguments : List Value) : Run Value := do
  let function := "Math." ++ name
  let first ← argument arguments 0 function
  let integral := arguments.all isInt
  match name with
  | "Abs" =>
    if integral then return .int (magnitude (← typed first.asInt))
    else return .float (← typed first.asFloat).abs
  | "Max" =>
    let second ← argument arguments 1 function
    if integral then return .int (max (← typed first.asInt) (← typed second.asInt))
    else return .float (Number.larger (← typed first.asFloat) (← typed second.asFloat))
  | "Min" =>
    let second ← argument arguments 1 function
    if integral then return .int (min (← typed first.asInt) (← typed second.asInt))
    else return .float (Number.smaller (← typed first.asFloat) (← typed second.asFloat))
  | _ => fail (.noMember "Math" name)

def callBuiltin : Builtin → String → List Value → Run Value
  | .nodes, name, arguments => callNodes name arguments
  | .context, name, arguments => callContext name arguments
  | .math, name, arguments => callMath name arguments
  | b, name, _ => fail (.noMember b.name name)

/-! ## Globals, members and methods -/

/-- A name that the program itself does not bind. -/
def globalNamed (target : Target) (name : String) : Run Value :=
  if name = "meta" then newObject (.root target)
  else match Builtin.ofName? name with
    | some b => return .builtin b
    | none => fail (.undefined name)

def builtinMember (b : Builtin) (name : String) : Run Value :=
  let found := match b with
    | .tokenKinds => (TokenKind.ofName? name).map .tokenKind
    | .callForms => (CallForm.ofName? name).map .form
    | _ => none
  match found with
  | some v => return v
  | none => fail (.noMember b.name name)

def objectMember (o : TargetObject) (name : String) : Run Value :=
  match o, name with
  | .root t, "Target" => newObject (.target t)
  | .root _, "This" => newNode .this
  | .target t, "Method" => newObject (.method t)
  | .target t, "Parameters" => do
    let objects ← t.parameters.zipIdx.mapM fun (p, i) => newObject (.parameter i p)
    newList objects.toArray
  | .method t, "Name" => return .string t.name
  | .method t, "ReturnType" => return .string t.returns.text
  | .parameter _ p, "Name" => return .string p.name
  | .parameter _ p, "Type" => return .string p.type.text
  | .parameter i _, "Index" => return .int (.ofNat i)
  | .parameter _ p, "Value" => newNode (.identifier p.name)
  | o, name => fail (.noMember o.typeName name)

def memberOf (receiver : Value) (name : String) : Run Value :=
  match receiver, name with
  | .builtin b, name => builtinMember b name
  | .list place, "Count" => return .int (.ofNat (← listAt place).size)
  | .string s, "Length" => return .int (.ofNat s.length)
  | .object _ o, name => objectMember o name
  | v, name => fail (.noMember v.typeName name)

def callMethod (receiver : Value) (name : String) (arguments : List Value) : Run Value :=
  match receiver, name with
  | .builtin b, name => callBuiltin b name arguments
  | .list place, "Add" => do
    appendTo place arguments
    return .null
  | .string s, "ToUpper" => return .string (Text.toUpper s)
  | .string s, "ToLower" => return .string (Text.toLower s)
  | v, name => fail (.noMember v.typeName name)

/-! ## Operators -/

def isString : Value → Bool
  | .string _ => true
  | _ => false

/-- Arithmetic and comparison of words; sums, differences and products wrap. -/
def combineInts (operator : TokenKind) (a b : Int64) : Option (Except TypeFault Value) :=
  match operator with
  | .plus => some (.ok (.int (a + b)))
  | .minus => some (.ok (.int (a - b)))
  | .star => some (.ok (.int (a * b)))
  | .slash => some (if b = 0 then .error .divisionByZero else .ok (.int (a / b)))
  | .percent => some (if b = 0 then .error .divisionByZero else .ok (.int (a % b)))
  | .less => some (.ok (.bool (a < b)))
  | .greater => some (.ok (.bool (b < a)))
  | .lessEquals => some (.ok (.bool (a ≤ b)))
  | .greaterEquals => some (.ok (.bool (b ≤ a)))
  | _ => none

def combineFloats (operator : TokenKind) (a b : Float) : Option Value :=
  match operator with
  | .plus => some (.float (a + b))
  | .minus => some (.float (a - b))
  | .star => some (.float (a * b))
  | .slash => some (.float (a / b))
  | .percent => some (.float (Number.remainder a b))
  | .less => some (.bool (a < b))
  | .greater => some (.bool (b < a))
  | .lessEquals => some (.bool (a ≤ b))
  | .greaterEquals => some (.bool (b ≤ a))
  | _ => none

def compareStrings (operator : TokenKind) (a b : String) : Option Value :=
  match operator with
  | .less => some (.bool (a < b))
  | .greater => some (.bool (b < a))
  | .lessEquals => some (.bool (a ≤ b))
  | .greaterEquals => some (.bool (b ≤ a))
  | _ => none

/-- What an operator other than `==` and `!=` makes of two numbers or two strings. -/
def combineValues (operator : TokenKind) : Value → Value → Option (Except TypeFault Value)
  | .int a, .int b => combineInts operator a b
  | .int a, .float b => (combineFloats operator a.toFloat b).map .ok
  | .float a, .int b => (combineFloats operator a b.toFloat).map .ok
  | .float a, .float b => (combineFloats operator a b).map .ok
  | .string a, .string b => (compareStrings operator a b).map .ok
  | _, _ => none

/-- The result of a binary operator other than the two that may skip their second operand. -/
def binary (operator : TokenKind) (l r : Value) : Run Value := do
  if operator = .equalsEquals then return .bool (l.same r)
  if operator = .bangEquals then return .bool !(l.same r)
  if operator = .plus && (isString l || isString r) then
    return .string ((← sound l.text) ++ (← sound r.text))
  match combineValues operator l r with
  | some outcome => typed outcome
  | none => fail (.type (.cannotCombine (operator.spelling.getD "") l.typeName r.typeName))

end Stencil.Expansion
