import Flavoring.JavaScript.Parser.Expression

/-!
Statements.
-/

namespace Flavoring.JavaScript.Parser

open Concrete

/-- Where a statement's own expression stands: a supplied semicolon may end it. -/
def openEnded : Setting := { semicolon := true }

def expressionStatement (read : Reader) : Parser Concrete := do
  let e ← expressions read openEnded
  return branch "expression_statement" e [← terminator true]

/-- A braced list of statements, with a semicolon supplied behind it if there is one. -/
def block (read : Reader) (afterOperand : Bool) : Parser Concrete := do
  let opening ← mark "\x7b"
  let body ← many do
    if ← nextIs (· == '}') then return none else some <$> read (.statement false)
  let closing ← mark "\x7d"
  let tail ← supplied? afterOperand
  return branch "statement_block" opening (body ++ closing :: tail.toList)

/-- Whether an expression goes on that could have ended: an operator comes next that starts no
statement, or no statement may start here. -/
def continues (closed : Bool) : Parser Bool := do
  match (← get).ahead? false true with
  | none => return false
  | some ⟨next, question⟩ =>
    let w := Token.wordText next.rest
    if closed then return w != "while" && w != "else"
    else if startsNumber next.rest then return false
    else return question || w == "in" || w == "instanceof"
      || [".", "?.", ",", "*", "%", "**", "??", "&&", "||", "|", "&", "^", "==", "===", "!=", "!==",
          ">", ">=", "<=", "<<", ">>", ">>>", "=", "=>"].contains (Token.operator next.rest)

/-- A statement that starts with a brace: a block, unless only an object fits or its members do. -/
def braced (read : Reader) (closed : Bool) : Parser Concrete := do
  let start ← get
  match ← braces with
  | .empty =>
    let b ← block read true
    let ended := (b.children.getLast?.map (·.kind == "")).getD false
    if !ended && (← continues closed) then do
      set start
      expressionStatement read
    else do
      if !ended then noMarkupComment
      return b
  | .members => expressionStatement read <|> block read false
  | .assignment => severalFirst (expressionStatement read) <|> block read false
  | .call true => expressionStatement read <|> block read false
  | .call false => block read false <|> expressionStatement read
  | .statements => block read false

/-! Declarations -/

/-- The name or pattern that a declaration binds. -/
def bound (read : Reader) : Parser Concrete := do
  match ← peekChar with
  | some '[' => taken (← array read)
  | some '{' => taken (← object read)
  | _ => word "identifier"
where
  taken (t : Concrete) : Parser Concrete :=
    match t.pattern? .target with
    | some t => return t
    | none => failure

/-- A declared variable, and whether it has a value. -/
def declarator (read : Reader) : Parser (Concrete × Bool) := do
  let name := (← bound read).inRole .name
  match (← get).ahead? true false with
  | some ⟨next, _⟩ =>
    if Token.operator next.rest == "=" then do
      set next
      let eq ← leaf "=" .anonymous 1
      let value ← settled (read (.element openEnded))
      return (branch "variable_declarator" name [eq, value.inRole .value], true)
    else return (branch "variable_declarator" name [], false)
  | none => return (branch "variable_declarator" name [], false)

/-- A declaration of variables from its keyword on. -/
def variableDeclaration (read : Reader) (w : String) : Parser Concrete := do
  let kw ← keyword w
  let first ← declarator read
  let (parts, hasValue) ← grow (fun (parts, hasValue) => do
    match (← get).ahead? true hasValue with
    | some ⟨next, _⟩ =>
      if next.rest.head? == some ',' then do
        set next
        let comma ← leaf "," .anonymous 1
        let (more, hasValue) ← declarator read
        return some (parts ++ [comma, more], hasValue)
      else return none
    | none => return none) ([first.1], first.2)
  let kind := if w == "var" then "variable_declaration" else "lexical_declaration"
  let kw := if w == "var" then kw else kw.inRole .kind
  return branch kind kw (parts ++ [← terminator hasValue])

/-- Whether `let` comes next as a keyword: a name or a pattern follows it. -/
def declaresLet (semicolon : Bool) : Parser Bool := do
  if (← peekWord) == "let" then
    let behind := (← get).skipTrivia.forward 3
    match behind.ahead? semicolon true with
    | none => return false
    | some ⟨next, _⟩ =>
      let w := Token.wordText next.rest
      return (w != "" && w != "in" && w != "instanceof")
        || next.rest.head? == some '[' || next.rest.head? == some '{'
  else return false

/-- A function or class where both a declaration and an expression may start: `true` with a
declaration. An expression goes on behind it. -/
def declarationOr (read : Reader) (closed isNamed : Bool) (declaration : List Concrete → Concrete)
    (expression : Concrete) : Parser (Concrete × Bool) := do
  if isNamed then
    match ← supplied? true with
    | some tail => return (declaration [tail], true)
    | none =>
      if ← continues closed then return (← expressionsFrom read openEnded expression, false)
      else do
        noMarkupComment
        return (declaration [], true)
  else return (← expressionsFrom read openEnded expression, false)

/-- Whether a function comes next. -/
def startsFunction (semicolon : Bool) : Parser Bool := do
  match ← peekWord with
  | "function" => return true
  | "async" =>
    let behind := (← get).skipTrivia.forward 5
    match behind.ahead? semicolon true with
    | some ⟨next, _⟩ => return Token.wordText next.rest == "function"
    | none => return false
  | _ => return false

/-- A function, class or other construct that declares, or an expression that starts like one. -/
def functionOrClass (read : Reader) (closed : Bool) (marks : List Concrete) :
    Parser (Concrete × Bool) := do
  if marks.isEmpty && (← peekWord) != "class" then do
    let parts ← functionParts read true
    declarationOr read closed parts.isNamed parts.declaration parts.expression
  else
    let parts ← classParts read marks
    declarationOr read closed parts.isNamed parts.declaration parts.expression

/-- A declaration where nothing else may stand. -/
def declaration (read : Reader) : Parser Concrete := do
  let marks ← decorators read
  match ← peekWord with
  | "var" => if marks.isEmpty then variableDeclaration read "var" else failure
  | "let" => if marks.isEmpty then variableDeclaration read "let" else failure
  | "const" => if marks.isEmpty then variableDeclaration read "const" else failure
  | "class" =>
    let parts ← classParts read marks
    if parts.isNamed then return parts.declaration (← supplied? false).toList else failure
  | _ =>
    if marks.isEmpty then do
      let parts ← functionParts read false
      if parts.isNamed then return parts.declaration (← supplied? false).toList else failure
    else failure

/-! Exchange between modules -/

/-- The module that names come from. -/
def fromClause : Parser (List Concrete) := do
  let kw ← keyword "from"
  return [kw, (← token "string" Token.string).inRole .source]

/-- Names in braces, whose opening brace is read; without any name there may still be a comma. -/
def exchangedNames (item : Parser Concrete) : Parser (List Concrete) := do
  if ← nextIs (· == ',') then return [← mark ",", ← mark "\x7d"] else listOf "\x7d" item

/-- An imported name, perhaps under another. -/
def importSpecifier : Parser Concrete := do
  let name := (← exchangedName).inRole .name
  if (← peekWord) == "as" then do
    let kw ← keyword "as"
    let localName ← word "identifier"
    return branch "import_specifier" name [kw, localName.inRole .localName]
  else if name.kind == "identifier" then return branch "import_specifier" name []
  else failure

/-- All names of a module under one, or a list of names. -/
def importedNames : Parser Concrete := do
  if ← nextIs (· == '*') then do
    let star ← mark "*"
    let kw ← keyword "as"
    return branch "namespace_import" star [kw, ← word "identifier"]
  else
    let opening ← mark "\x7b"
    return branch "named_imports" opening (← exchangedNames importSpecifier)

def importClause : Parser Concrete := do
  if ← nextIs (fun c => c == '*' || c == '{') then
    return branch "import_clause" (← importedNames) []
  else
    let name ← word "identifier"
    if ← nextIs (· == ',') then do
      let comma ← mark ","
      return branch "import_clause" name [comma, ← importedNames]
    else return branch "import_clause" name []

def importStatement (read : Reader) : Parser Concrete := do
  let kw ← keyword "import"
  let parts ←
    if startsString (← peek) then do pure [(← token "string" Token.string).inRole .source]
    else do
      let clause ← importClause
      pure (clause :: (← fromClause))
  let attributes ← match (← get).ahead? true false with
    | some ⟨next, _⟩ =>
      if Token.wordText next.rest == "with" then do
        set next
        let kw ← keyword "with"
        pure [branch "import_attribute" kw [← settled (object read)]]
      else pure []
    | none => pure []
  return branch "import_statement" kw (parts ++ attributes ++ [← terminator false])

/-- An exported name, perhaps under another. -/
def exportSpecifier : Parser Concrete := do
  let name := (← exchangedName).inRole .name
  if (← peekWord) == "as" then do
    let kw ← keyword "as"
    return branch "export_specifier" name [kw, (← exchangedName).inRole .localName]
  else return branch "export_specifier" name []

/-- What an `export` exports, behind decorators if any. -/
def exported (read : Reader) (isDecorated : Bool) : Parser (List Concrete) := do
  let cs ← peek
  if cs.head? == some '*' && !isDecorated then do
    let star ← mark "*"
    let first ←
      if (← peekWord) == "as" then do
        let kw ← keyword "as"
        pure (branch "namespace_export" star [kw, ← exchangedName])
      else pure star
    return first :: (← fromClause) ++ [← terminator false]
  else if cs.head? == some '{' && !isDecorated then do
    let opening ← mark "\x7b"
    let clause := branch "export_clause" opening (← exchangedNames exportSpecifier)
    let source ← match (← get).ahead? true false with
      | some ⟨next, _⟩ =>
        if Token.wordText next.rest == "from" then do
          set next
          fromClause
        else pure []
      | none => pure []
    return clause :: source ++ [← terminator false]
  else if Token.wordText cs == "default" then do
    let kw ← keyword "default"
    let w ← peekWord
    if w == "class" || (← nextIs (· == '@')) || (← startsFunction true) then do
      let (t, isDeclaration) ← functionOrClass read false (← decorators read)
      if isDeclaration then return [kw, t.inRole .declaration]
      else return [kw, t.inRole .value, ← terminator true]
    else if w == "var" || w == "const" || (← declaresLet true) then
      return [kw, (← declaration read).inRole .declaration]
    else
      let value ← expressions read openEnded
      if value.kind == "sequence_expression" then failure
      else return [kw, value.inRole .value, ← terminator true]
  else return [(← declaration read).inRole .declaration]

def exportStatement (read : Reader) (marks : List Concrete) : Parser Concrete := do
  let kw ← keyword "export"
  memberNode "export_statement" (marks ++ kw :: (← exported read (!marks.isEmpty)))

/-- Whether `export` comes next as a keyword. -/
def startsExport : Parser Bool := do
  let behind := (← get).skipTrivia.forward 6
  match behind.ahead? true true with
  | none => return false
  | some ⟨next, _⟩ =>
    return ["default", "function", "async", "class", "let", "const", "var"].contains
        (Token.wordText next.rest)
      || (['{', '@'].contains (next.rest.head?.getD ' ')) || Token.operator next.rest == "*"

/-! Control -/

/-- The statement that another one controls. -/
def body (read : Reader) (closed : Bool) : Parser Concrete :=
  return (← read (.statement closed)).inRole .body

def ifStatement (read : Reader) (closed : Bool) : Parser Concrete := do
  let kw ← keyword "if"
  let test := (← condition read).inRole .condition
  let consequence := (← read (.statement closed)).inRole .consequence
  if (← peekWord) == "else" then do
    let other ← keyword "else"
    let clause := branch "else_clause" other [← read (.statement closed)]
    return branch "if_statement" kw [test, consequence, clause.inRole .alternative]
  else return branch "if_statement" kw [test, consequence]

/-- The cases of a switch. -/
def switchCase (read : Reader) : Parser Concrete := do
  let statements : Parser (List Concrete) := many do
    let w ← peekWord
    if w == "case" || w == "default" || (← nextIs (· == '}')) then return none
    else return some ((← read (.statement false)).inRole .body)
  if (← peekWord) == "case" then do
    let kw ← keyword "case"
    let value := (← innerExpressions read).inRole .value
    let colon ← mark ":"
    return branch "switch_case" kw (value :: colon :: (← statements))
  else
    let kw ← keyword "default"
    let colon ← mark ":"
    return branch "switch_default" kw (colon :: (← statements))

def switchStatement (read : Reader) : Parser Concrete := do
  let kw ← keyword "switch"
  let value := (← condition read).inRole .value
  let opening ← mark "\x7b"
  let cases ← many do
    if ← nextIs (· == '}') then return none else some <$> switchCase read
  let body := branch "switch_body" opening (cases ++ [← mark "\x7d"])
  return branch "switch_statement" kw [value, body.inRole .body]

/-- The keyword between a loop's variable and what it runs through. -/
def loopOperator : Parser Concrete := do
  match ← peekWord with
  | "in" => return (← keyword "in").inRole .operator
  | "of" => return (← keyword "of").inRole .operator
  | _ => failure

/-- Whether `let` comes next as a keyword at the head of a loop, where `of` is no name. -/
def declaresLoopLet : Parser Bool := do
  if ← declaresLet false then
    let behind := ((← get).skipTrivia.forward 3).skipTrivia
    return Token.wordText behind.rest != "of"
  else return false

/-- The variable of a loop that runs through a collection. In an awaited loop `let` is a name first,
and what stands in brackets behind it an index. -/
def loopVariable (read : Reader) (awaited : Bool) : Parser (List Concrete) := do
  let declared : Parser (List Concrete) := do
    match ← peekWord with
    | "var" =>
      let kw := (← keyword "var").inRole .kind
      let name := (← bound read).inRole .left
      match (← get).ahead? true false with
      | none => failure
      | some ⟨next, _⟩ =>
        if Token.operator next.rest == "=" then do
          set next
          let eq ← leaf "=" .anonymous 1
          let value ← settled (read (.element { semicolon := true, noIn := true }))
          return [kw, name, eq, value.inRole .value]
        else return [kw, name]
    | w =>
      if w == "const" || (w == "let" && (← declaresLoopLet)) then do
        let kw := (← keyword w).inRole .kind
        let name := (← bound read).inRole .left
        return kw :: name :: (← supplied? false).toList
      else failure
  let assigned : Parser (List Concrete) := do
    if ["var", "const"].contains (← peekWord) then failure
    match (← operand read { noIn := true } true).assignee? with
    | some t => return [t.inRole .left]
    | none => failure
  let declaredHead : Parser (List Concrete) := do return (← declared) ++ [← loopOperator]
  let assignedHead : Parser (List Concrete) := do return (← assigned) ++ [← loopOperator]
  if awaited then assignedHead <|> declaredHead else declaredHead <|> assignedHead

def forInStatement (read : Reader) (closed : Bool) (kw : Concrete) : Parser Concrete := do
  let await ← if (← peekWord) == "await" then do pure [← keyword "await"] else pure []
  let opening ← mark "("
  let head ← loopVariable read (!await.isEmpty)
  let right := (← innerExpressions read).inRole .right
  let closing ← mark ")"
  return branch "for_in_statement" kw
    (await ++ opening :: head ++ [right, closing, ← body read closed])

/-- An expression and its semicolon, or the semicolon alone. -/
def loopPart (read : Reader) (role : Role) : Parser (List Concrete) := do
  if ← nextIs (· == ';') then
    return [(branch "empty_statement" (← mark ";") []).inRole role]
  else
    let e ← innerExpressions read
    return [e.inRole role, ← mark ";"]

def forStatement (read : Reader) (closed : Bool) (kw : Concrete) : Parser Concrete := do
  let opening ← mark "("
  let w ← peekWord
  let start ←
    if w == "var" || w == "const" || (← declaresLoopLet) then do
      pure [(← variableDeclaration read w).inRole .initializer]
    else loopPart read .initializer
  let test ← loopPart read .condition
  let step ← if ← nextIs (· == ')') then pure [] else do
    pure [(← innerExpressions read).inRole .increment]
  let closing ← mark ")"
  return branch "for_statement" kw
    (opening :: start ++ test ++ step ++ [closing, ← body read closed])

def doStatement (read : Reader) : Parser Concrete := do
  let kw ← keyword "do"
  let inside ← body read true
  let again ← keyword "while"
  let test := (← condition read).inRole .condition
  let behind ← get
  let tail ← (do pure [← terminator false]) <|> (do set behind; pure [])
  return branch "do_statement" kw (inside :: again :: test :: tail)

def tryStatement (read : Reader) : Parser Concrete := do
  let kw ← keyword "try"
  let inside := (← read (.block false)).inRole .body
  let handler ←
    if (← peekWord) == "catch" then do
      let kw ← keyword "catch"
      let param ←
        if ← nextIs (· == '(') then do
          let opening ← mark "("
          let name := (← bound read).inRole .parameter
          pure [opening, name, ← mark ")"]
        else pure []
      let inside := (← read (.block false)).inRole .body
      pure [(branch "catch_clause" kw (param ++ [inside])).inRole .handler]
    else pure []
  let finalizer ←
    if (← peekWord) == "finally" then do
      let kw ← keyword "finally"
      let inside := (← read (.block false)).inRole .body
      pure [(branch "finally_clause" kw [inside]).inRole .finalizer]
    else pure []
  return branch "try_statement" kw (inside :: handler ++ finalizer)

/-- `break` or `continue`, perhaps with a label. -/
def jump (w kind : String) : Parser Concrete := do
  let kw ← keyword w
  match (← get).ahead? true false with
  | some ⟨next, _⟩ =>
    if 0 < Token.word next.rest then do
      let label := (← word "statement_identifier").inRole .label
      return branch kind kw [label, ← terminator false]
    else return branch kind kw [← terminator false]
  | none => return branch kind kw [← terminator false]

def returnStatement (read : Reader) : Parser Concrete := do
  let kw ← keyword "return"
  match (← get).ahead? true false with
  | some ⟨next, _⟩ =>
    if next.rest.head? == some ';' then return branch "return_statement" kw [← terminator false]
    else
      noMarkupComment
      let e ← expressions read openEnded
      return branch "return_statement" kw [e, ← terminator true]
  | none => return branch "return_statement" kw [← terminator false]

def throwStatement (read : Reader) : Parser Concrete := do
  let kw ← keyword "throw"
  let e ← expressions read openEnded
  return branch "throw_statement" kw [e, ← terminator true]

/-- A keyword, a condition and the statement it controls. -/
def conditional (read : Reader) (closed : Bool) (w kind : String) (role : Role) :
    Parser Concrete := do
  let kw ← keyword w
  let test := (← condition read).inRole role
  return branch kind kw [test, ← body read closed]

/-- Whether the word that comes next is a label. -/
def startsLabel : Parser Bool := do
  let cur := (← get).skipTrivia
  match (cur.forward (Token.word cur.rest)).ahead? true true with
  | some ⟨next, _⟩ => return next.rest.head? == some ':'
  | none => return false

/-- A label or an expression. -/
def labelOrExpression (read : Reader) (closed : Bool) : Parser Concrete := do
  let w ← peekWord
  if w != "" && !statementWords.contains w && (← startsLabel) then do
    let label := (← word "statement_identifier").inRole .label
    let colon ← mark ":"
    return branch "labeled_statement" label [colon, ← body read closed]
  else expressionStatement read

def statement (read : Reader) (closed : Bool) : Parser Concrete := do
  match ← peekChar with
  | some '{' => braced read closed
  | some ';' => return branch "empty_statement" (← mark ";") []
  | some '@' =>
    let marks ← decorators read
    if (← peekWord) == "export" then exportStatement read marks
    else withTerminator (← functionOrClass read closed marks)
  | _ =>
    match ← peekWord with
    | "import" =>
      let behind := ((← get).skipTrivia.forward 6).skipTrivia
      if (['(', '.', '?'].contains (behind.rest.head?.getD ' ')) then expressionStatement read
      else importStatement read
    | "export" => if ← startsExport then exportStatement read [] else labelOrExpression read closed
    | "var" => variableDeclaration read "var"
    | "const" => variableDeclaration read "const"
    | "let" =>
      if ← declaresLet true then variableDeclaration read "let"
      else labelOrExpression read closed
    | "debugger" =>
      let kw ← keyword "debugger"
      return branch "debugger_statement" kw [← terminator false]
    | "if" => ifStatement read closed
    | "switch" => switchStatement read
    | "for" =>
      let kw ← keyword "for"
      forInStatement read closed kw <|> forStatement read closed kw
    | "while" => conditional read closed "while" "while_statement" .condition
    | "do" => doStatement read
    | "try" => tryStatement read
    | "with" => conditional read closed "with" "with_statement" .object
    | "break" => jump "break" "break_statement"
    | "continue" => jump "continue" "continue_statement"
    | "return" => returnStatement read
    | "throw" => throwStatement read
    | "class" => withTerminator (← functionOrClass read closed [])
    | _ =>
      if ← startsFunction true then withTerminator (← functionOrClass read closed [])
      else labelOrExpression read closed
where
  /-- An expression that started like a declaration still needs its semicolon. -/
  withTerminator : Concrete × Bool → Parser Concrete
    | (t, true) => return t
    | (e, false) => return branch "expression_statement" e [← terminator true]

end Flavoring.JavaScript.Parser
