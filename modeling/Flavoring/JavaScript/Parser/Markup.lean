import Flavoring.JavaScript.Parser.Goal

/-!
Markup elements among expressions.
-/

namespace Flavoring.JavaScript.Parser

open Concrete

/-- A word, perhaps with hyphens. -/
def markupWord (kind : String) : Parser Concrete := do
  if 0 < Token.hyphenated (← peek) then token kind Token.hyphenated else word kind

/-- A name with a namespace before it, as far as one comes. -/
def namespaced (read : Concrete → Concrete) (first : Concrete) : Parser Concrete := do
  if ← nextIs (· == ':') then do
    let colon ← mark ":"
    return branch "jsx_namespace_name" first [colon, ← markupWord "identifier"]
  else return read first

/-- The name of an element: a word, a path of words, or a name with a namespace. -/
def elementName : Parser Concrete := do
  let hyphens := Token.hyphenated (← peek)
  let first ← markupWord "identifier"
  let path ←
    if hyphens == 0 then
      grow (fun object => do
        if ← nextIs (· == '.') then do
          let dot ← mark "."
          let property ← word "property_identifier"
          return some (branch "member_expression" (object.inRole .object)
            [dot, property.inRole .property])
        else return none) first
    else pure first
  if path.kind == "identifier" then return (← namespaced id path).inRole .name
  else return path.inRole .name

/-- Braces with an expression, a spread or nothing inside. -/
def markupExpression (read : Reader) : Parser Concrete := do
  let opening ← mark "\x7b"
  let cs ← peek
  let content ←
    if cs.head? == some '}' then pure []
    else if Token.startsWith "..." cs then do pure [← settled (spreadOrElement read)]
    else do pure [← innerExpressions read]
  return branch "jsx_expression" opening (content ++ [← mark "\x7d"])

/-- An attribute of an element. -/
def markupAttribute (read : Reader) : Parser Concrete := do
  if ← nextIs (· == '{') then return (← markupExpression read).inRole .attribute
  else
    let name ← namespaced (·.called "property_identifier") (← markupWord "identifier")
    if ← nextIs (· == '=') then do
      let eq ← mark "="
      let value ← match ← peekChar with
        | some '{' => markupExpression read
        | some '<' => read .markup
        | _ => token "string" Token.attributeString
      return (branch "jsx_attribute" name [eq, value]).inRole .attribute
    else return (branch "jsx_attribute" name []).inRole .attribute

/-- What stands between an element's tags. -/
def elementChild? (read : Reader) : Parser (Option Concrete) := do
  match Token.elementText (← get).rest with
  | 0 =>
    let cs ← peek
    if Token.startsWith "</" cs then return none
    else
      match cs.head? with
      | some '<' => some <$> read .markup
      | some '{' => some <$> markupExpression read
      | some '&' => some <$> token "html_character_reference" Token.entity
      | _ => failure
  | n => some <$> leaf "jsx_text" .named n

/-- An element from the end of its opening tag on. -/
def elementFrom (read : Reader) (opening : Concrete) (head : List Concrete) : Parser Concrete := do
  let tag := branch "jsx_opening_element" opening (head ++ [← mark ">"])
  let content ← many (elementChild? read)
  let close ← mark "</"
  let name ← if ← nextIs (· == '>') then pure [] else do pure [← elementName]
  let closing := branch "jsx_closing_element" close (name ++ [← mark ">"])
  return branch "jsx_element" (tag.inRole .openTag) (content ++ [closing.inRole .closeTag])

def element (read : Reader) : Parser Concrete := do
  let opening ← mark "<"
  if ← nextIs (· == '>') then elementFrom read opening []
  else
    let name ← elementName
    let attributes ← many do
      if ← nextIs (fun c => c == '>' || c == '/') then return none
      else some <$> markupAttribute read
    let head := name :: attributes
    if ← nextIs (· == '/') then
      return branch "jsx_self_closing_element" opening (head ++ [← mark "/>"])
    else elementFrom read opening head

end Flavoring.JavaScript.Parser
