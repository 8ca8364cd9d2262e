import Flavoring.JavaScript.Parser.Function
import Flavoring.JavaScript.Parser.Markup

/-!
Expressions.

An operand is a primary expression with what is applied to it, or a unary operator with its
operand. Binary operators join operands by level; a conditional expression stands at the lowest.
An assignment takes all that follows it, also where it is itself an operand.
-/

namespace Flavoring.JavaScript.Parser

open Concrete

/-! Primary expressions -/

/-- What stands in parentheses, or the arrow function whose parameters do. -/
def parenthesized (read : Reader) (s : Setting) : Parser Concrete := do
  let opening ← mark "("
  let items ← listOf ")" (spreadOrElement read)
  if ← arrowAhead s then do
    let params ← parameterList opening items
    arrowFrom read s (params.inRole .parameters) []
  else
    let content := items.dropLast
    let closing := items.drop (items.length - 1)
    match content with
    | [] => failure
    | first :: more =>
      let trailing := (more.getLast?.map (·.kind == ",")).getD false
      if trailing || !allSettled content || content.any (·.kind == "spread_element") then failure
      else
        let e := if more.isEmpty then first else branch "sequence_expression" first more
        return branch "parenthesized_expression" opening (e :: closing)

/-- `import` as a function, or the module's own properties. -/
def importOperand (read : Reader) : Parser Concrete := do
  let kw ← word "import"
  let cs ← peek
  if cs.head? == some '(' then do
    let args ← arguments read
    return branch "call_expression" (kw.inRole .function) [args.inRole .arguments]
  else if Token.startsWith "?." cs then do
    let chain ← token "optional_chain" (Token.literal "?.")
    let property ← word "property_identifier"
    return branch "member_expression" (kw.inRole .object)
      [chain.inRole .optionalChain, property.inRole .property]
  else
    let dot ← mark "."
    return branch "meta_property" kw.asKeyword [dot, ← keyword "meta"]

/-- A name, or the arrow function that it is the parameter of. -/
def nameOperand (read : Reader) (s : Setting) : Parser Concrete := do
  let name ← word "identifier"
  if ← arrowAhead s then arrowFrom read s (name.inRole .parameter) [] else return name

/-- What starts with `async`: an arrow function, a function, a call, or the plain name. Behind `new`
the arguments are left to `new`. -/
def asyncOperand (read : Reader) (s : Setting) (constructing : Bool) : Parser Concrete := do
  let start ← get
  let name ← word "identifier"
  let behind ← get
  match behind.ahead? s.semicolon true with
  | none => return name
  | some ⟨next, _⟩ =>
    let w := Token.wordText next.rest
    if w == "function" then do
      set start
      return (← functionParts read true).expression
    else if w == "in" || w == "instanceof" then return name
    else if w != "" then
      (do
        set next
        let param ← word "identifier"
        if ← arrowAhead s then arrowFrom read s name.asKeyword [param.inRole .parameter]
        else failure)
      <|> return name
    else if next.rest.head? == some '(' then do
      set next
      let args ← openArguments read
      if ← arrowAhead s then
        match args.children with
        | opening :: items =>
          if items.head?.any (·.kind == ",") || hasHole items then failure
          else
            let params ← parameterList opening items
            arrowFrom read s name.asKeyword [params.inRole .parameters]
        | [] => failure
      else if constructing then do
        set behind
        return name
      else if allSettled args.children then
        return branch "call_expression" (name.inRole .function) [args.inRole .arguments]
      else failure
    else if Token.startsWith "=>" next.rest then arrowFrom read s (name.inRole .parameter) []
    else return name
where
  /-- Whether a comma stands where an item is missing. -/
  hasHole : List Concrete → Bool
    | a :: b :: more => (a.kind == "," && b.kind == ",") || hasHole (b :: more)
    | _ => false

/-- What starts with a word. -/
def wordOperand (read : Reader) (s : Setting) (constructing : Bool) : Parser Concrete := do
  match ← peekWord with
  | "" => failure
  | "async" => asyncOperand read s constructing
  | "class" => return (← classParts read []).expression
  | "function" => return (← functionParts read true).expression
  | "import" => importOperand read
  | w =>
    if ["this", "super", "true", "false", "null", "undefined"].contains w then word w
    else nameOperand read s

/-- An expression that no operator has built. -/
def primary (read : Reader) (s : Setting) (constructing : Bool) : Parser Concrete := do
  let cs ← peek
  if startsString cs then token "string" Token.string
  else if startsNumber cs then token "number" Token.number
  else
    match cs.head? with
    | some '(' => parenthesized read s
    | some '[' => array read
    | some '{' => object read
    | some '`' => template read
    | some '/' => regex s
    | some '@' => return (← classParts read (← decorators read)).expression
    | _ => wordOperand read s constructing

/-! What is applied to an expression -/

/-- The property behind a dot. -/
def property : Parser Concrete := do
  if ← nextIs (· == '#') then token "private_property_identifier" Token.privateName
  else word "property_identifier"

/-- What follows the expression to index or to take a property of, `link` included. -/
def accessFrom (read : Reader) (left : Concrete) (link : List Concrete) : Parser Concrete := do
  let left := left.inRole .object
  if ← nextIs (· == '[') then do
    let opening ← mark "["
    let index ← innerExpressions read
    return branch "subscript_expression" left (link ++ [opening, index.inRole .index, ← mark "]"])
  else
    return branch "member_expression" left (link ++ [(← property).inRole .property])

/-- One access to a property or an element, one template or optional call. -/
def accessStep (read : Reader) (op : String) (next : Cursor) (left : Concrete) :
    Parser (Option Concrete) := do
  if !left.isSettled then failure
  else
    match op with
    | "." =>
      set next
      let dot ← leaf "." .anonymous 1
      return some (branch "member_expression" (left.inRole .object)
        [dot, (← property).inRole .property])
    | "?." =>
      set next
      let chain := (← leaf "optional_chain" .named 2).inRole .optionalChain
      if ← nextIs (· == '(') then
        if left.isPrimary then do
          let args ← arguments read
          return some (branch "call_expression" (left.inRole .function)
            [chain, args.inRole .arguments])
        else failure
      else some <$> accessFrom read left [chain]
    | "[" =>
      set next
      some <$> accessFrom read left []
    | "`" =>
      if left.isPrimary || left.kind == "new_expression" then do
        set next
        let text ← template read
        return some (branch "call_expression" (left.inRole .function) [text.inRole .arguments])
      else failure
    | _ => return none

/-- Accesses behind `new`, where parentheses hold the arguments of `new`. -/
def constructStep (read : Reader) (s : Setting) (left : Concrete) : Parser (Option Concrete) := do
  match (← get).ahead? s.semicolon true with
  | some ⟨next, false⟩ => accessStep read (Token.operator next.rest) next left
  | _ => return none

/-- What `new` takes if it starts like no name: a call of it, or the thing itself. -/
def appliedOnce (read : Reader) (s : Setting) (left : Concrete) : Parser Concrete := do
  match (← get).ahead? s.semicolon true with
  | some ⟨next, false⟩ =>
    if next.rest.head? == some '(' then do
      set next
      let args ← arguments read
      return branch "call_expression" (left.inRole .function) [args.inRole .arguments]
    else return left
  | _ => return left

/-- A `new` expression, or `new.target`. -/
def newExpression (read : Reader) (s : Setting) : Parser Concrete := do
  let kw ← keyword "new"
  let cs ← peek
  if cs.head? == some '.' && !startsNumber cs then do
    let dot ← mark "."
    return branch "meta_property" kw.asKeyword [dot, ← keyword "target"]
  else
    let first ← match Token.wordText cs with
      | "new" => read (.construct s)
      | "yield" => do pure (branch "yield_expression" (← keyword "yield") [])
      | w =>
        if ["typeof", "void", "delete", "await"].contains w then failure
        else if cs.head? == some '<' then element read
        else primary read s true
    let first ← if first.isPrimary || first.kind == "new_expression" then pure first
      else appliedOnce read s first
    let callee ← grow (constructStep read s) first
    if !callee.isSettled || !(callee.isPrimary || callee.kind == "new_expression") then failure
    else
      let callee := callee.inRole .callee
      match (← get).ahead? s.semicolon true with
      | some ⟨next, false⟩ =>
        if next.rest.head? == some '(' then do
          set next
          let args ← arguments read
          return branch "new_expression" kw [callee, args.inRole .arguments]
        else return branch "new_expression" kw [callee]
      | _ => return branch "new_expression" kw [callee]

/-- The operators that assign what they compute. -/
def updatingOperators : List String :=
  ["+=", "-=", "*=", "/=", "%=", "^=", "&=", "|=", ">>=", ">>>=", "<<=", "**=", "&&=", "||=", "??="]

/-- One access, call, update or assignment applied to `left`. -/
def suffixStep (read : Reader) (s : Setting) (update : Bool) (left : Concrete) :
    Parser (Option Concrete) := do
  match (← get).ahead? s.semicolon true with
  | some ⟨next, false⟩ =>
    let op := Token.operator next.rest
    match op with
    | "." | "?." | "[" | "`" => accessStep read op next left
    | "(" =>
      if !left.isSettled then failure
      else
        set next
        let args ← arguments read
        return some (branch "call_expression" (left.inRole .function) [args.inRole .arguments])
    | "++" | "--" =>
      if !update then return none
      else if !left.isSettled then failure
      else
        set next
        let sign ← leaf op .anonymous 2
        return some (branch "update_expression" (left.inRole .argument) [sign.inRole .operator])
    | "=" =>
      match left.assignee? with
      | none => return none
      | some target =>
        set next
        let eq ← leaf "=" .anonymous 1
        let right ← settled (read (.element s))
        return some (branch "assignment_expression" (target.inRole .left)
          [eq, right.inRole .right])
    | _ =>
      if updatingOperators.contains op && left.isUpdatable then do
        set next
        let sign ← leaf op .anonymous op.length
        let right ← settled (read (.element s))
        return some (branch "augmented_assignment_expression" (left.inRole .left)
          [sign.inRole .operator, right.inRole .right])
      else return none
  | _ => return none

/-- An expression with all that is applied to it. -/
def suffixed (read : Reader) (s : Setting) (left : Concrete) : Parser Concrete :=
  grow (suffixStep read s true) left

/-! Operands -/

/-- A unary operator, spelled by a word or by a mark of the given length. -/
def unary (read : Reader) (s : Setting) (op : String) : Parser Concrete := do
  let sign ← token op (Token.literal op)
  let argument ← settled (read (.operand s))
  return branch "unary_expression" (sign.asKeyword.inRole .operator) [argument.inRole .argument]

/-- Whether an operand comes next behind `yield`. -/
def startsYielded (cs : List Char) : Bool :=
  let op := Token.operator cs
  let w := Token.wordText cs
  (w != "" && w != "in" && w != "instanceof") || startsString cs || startsNumber cs
    || ["(", "[", "`", "+", "-", "++", "--", "/", "<", "+=", "-=", "/="].contains op
    || (op == "" && (['{', '!', '~', '@', '#'].contains (cs.head?.getD ' ')))

/-- A `yield` expression. -/
def yieldExpression (read : Reader) (s : Setting) : Parser Concrete := do
  let kw ← keyword "yield"
  match (← get).ahead? s.semicolon true with
  | some ⟨next, false⟩ =>
    if Token.operator next.rest == "*" then do
      set next
      let star ← leaf "*" .anonymous 1
      return branch "yield_expression" kw [star, ← settled (read (.element s))]
    else if startsYielded next.rest then do
      noMarkupComment
      return branch "yield_expression" kw [← settled (read (.element s))]
    else suffixed read s (branch "yield_expression" kw [])
  | _ => suffixed read s (branch "yield_expression" kw [])

/-- A private name looked up in an object. -/
def privateLookup (read : Reader) (s : Setting) : Parser Concrete := do
  let name ← token "private_property_identifier" Token.privateName
  let op ← keyword "in"
  let right ← settled (read (.binary s 9))
  return branch "binary_expression" (name.inRole .left)
    [op.inRole .operator, right.inRole .right]

/-- An operand. `update` admits `++` and `--` behind it. -/
def operand (read : Reader) (s : Setting) (update : Bool) : Parser Concrete := do
  let cs ← peek
  let updating (op : String) : Parser Concrete := do
    let sign ← mark op
    let argument ← settled (read (.updated s))
    suffixed read s (branch "update_expression" (sign.inRole .operator)
      [argument.inRole .argument])
  match cs with
  | '!' :: _ => unary read s "!"
  | '~' :: _ => unary read s "~"
  | '+' :: '+' :: _ => updating "++"
  | '-' :: '-' :: _ => updating "--"
  | '+' :: _ => unary read s "+"
  | '-' :: _ => unary read s "-"
  | '<' :: _ => suffixed read s (← element read)
  | '#' :: _ => privateLookup read s
  | _ =>
    match Token.wordText cs with
    | "typeof" => unary read s "typeof"
    | "void" => unary read s "void"
    | "delete" => unary read s "delete"
    | "await" =>
      let kw ← keyword "await"
      return branch "await_expression" kw [← settled (read (.operand s))]
    | "yield" => yieldExpression read s
    | "new" => grow (suffixStep read s update) (← newExpression read s)
    | _ => grow (suffixStep read s update) (← primary read s false)

/-! Binary operators -/

/-- The level of a binary operator; higher ones bind closer. -/
def level? : String → Option Nat
  | "??" => some 1
  | "||" => some 2
  | "&&" => some 3
  | "|" => some 4
  | "^" => some 5
  | "&" => some 6
  | "==" | "===" | "!=" | "!==" => some 7
  | "<" | "<=" | ">" | ">=" | "in" | "instanceof" => some 8
  | "<<" | ">>" | ">>>" => some 9
  | "+" | "-" => some 10
  | "*" | "/" | "%" => some 11
  | "**" => some 12
  | _ => none

/-- The binary operator that comes next. -/
def binaryOperator (s : Setting) (cs : List Char) : String :=
  let w := Token.wordText cs
  if w == "instanceof" || (w == "in" && !s.noIn) then w else Token.operator cs

/-- One binary or conditional operator of at least the given level, with what it takes. -/
def binaryStep (read : Reader) (s : Setting) (level : Nat) (left : Concrete) :
    Parser (Option Concrete) := do
  match (← get).ahead? s.semicolon true with
  | none => return none
  | some ⟨next, true⟩ =>
    if 1 < level then return none
    else if !left.isSettled then failure
    else
      set next
      let question ← leaf "?" .anonymous 1
      let consequence ← inner read
      let colon ← mark ":"
      let alternative ← settled (read (.element s))
      return some (branch "ternary_expression" (left.inRole .condition)
        [question, consequence.inRole .consequence, colon, alternative.inRole .alternative])
  | some ⟨next, false⟩ =>
    let op := binaryOperator s next.rest
    match level? op with
    | none => return none
    | some l =>
      if l < level then return none
      else if !left.isSettled then failure
      else
        set next
        let sign ← leaf op .anonymous op.length
        let right ← settled (read (.binary s (if op == "**" then l else l + 1)))
        return some (branch "binary_expression" (left.inRole .left)
          [sign.inRole .operator, right.inRole .right])

/-- The operators from `level` on that take `left`. -/
def binaryFrom (read : Reader) (s : Setting) (level : Nat) (left : Concrete) : Parser Concrete :=
  grow (binaryStep read s level) left

/-- An expression without commas, which may still become a pattern. -/
def binary (read : Reader) (s : Setting) (level : Nat) : Parser Concrete := do
  binaryFrom read s level (← operand read s true)

/-- An expression. -/
def expressions (read : Reader) (s : Setting) : Parser Concrete := do
  sequenceFrom read s (← settled (binary read s 0))

/-- The expression that goes on behind a primary expression. -/
def expressionsFrom (read : Reader) (s : Setting) (left : Concrete) : Parser Concrete := do
  sequenceFrom read s (← settled (binaryFrom read s 0 (← suffixed read s left)))

end Flavoring.JavaScript.Parser
