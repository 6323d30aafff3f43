import DecimalFormula.Text.Display
import DecimalFormula.Tree.Basic

/-!
# Trees as texts

A tree is written as a formula, in two ways, and as a listing of its tokens and spans.
-/

namespace DecimalFormula

/-! ## Trees as formulas

Two ways to write a tree. `Tree.render` puts every operator application in parentheses, so that no
rule of precedence is needed to read it and scanning and parsing give back the tree.
`Tree.reversePolish` puts operators and functions behind their operands and needs no parentheses:
its words are instructions to a stack machine. There the signs are words, since the operators of two
operands look like them, and a function tells the number of its arguments. -/

namespace Tree

/-- A number as it stands, or a name in braces. -/
def renderLeaf : LeafKind → Token → String
  | .number, token => token.text
  | .identifier, token => "\x7b" ++ token.text ++ "\x7d"

mutual

/-- A tree with all its parentheses. -/
def render : Tree → String
  | leaf kind token => renderLeaf kind token
  | unary operator _ x _ => "(" ++ operator.literal ++ render x ++ ")"
  | binary operator _ l r _ => "(" ++ render l ++ " " ++ operator.literal ++ " " ++ render r ++ ")"
  | call name _ args _ => name ++ "(" ++ ", ".intercalate (renderAll args) ++ ")"

/-- The texts of several trees. -/
def renderAll : List Tree → List String
  | [] => []
  | x :: xs => render x :: renderAll xs

end

theorem renderAll_eq (xs : List Tree) : renderAll xs = xs.map render := by
  induction xs with
  | nil => rfl
  | cons x xs ih => rw [renderAll, ih, List.map_cons]

mutual

/-- The words of a tree, operands before what is applied to them. -/
def words : Tree → List String
  | leaf kind token => [renderLeaf kind token]
  | unary operator _ x _ => words x ++ [operator.word]
  | binary operator _ l r _ => words l ++ words r ++ [operator.literal]
  | call name _ args _ => wordsAll args ++ [name ++ "/" ++ toString args.length]

/-- The words of several trees. -/
def wordsAll : List Tree → List String
  | [] => []
  | x :: xs => words x ++ wordsAll xs

end

theorem wordsAll_eq (xs : List Tree) : wordsAll xs = xs.flatMap words := by
  induction xs with
  | nil => rfl
  | cons x xs ih => rw [wordsAll, ih, List.flatMap_cons]

/-- A tree in reverse Polish notation. -/
def reversePolish (tree : Tree) : String := " ".intercalate tree.words

end Tree

/-! ## Listings of trees

A listing shows a tree with all its tokens and spans, under the names of their fields. It is built
in two steps: a tree becomes an outline of named groups, and an outline is written on one line or
with an item a line. -/

/-! ### Outlines -/

/-- The brackets around the items of a group. -/
inductive Bracket
  | round
  | square
  | curly
deriving DecidableEq, Repr

namespace Bracket

/-- The opening bracket. A name is kept apart from a curly one. -/
def opening : Bracket → String
  | round => "("
  | square => "["
  | curly => " \x7b"

/-- The closing bracket. -/
def closing : Bracket → String
  | round => ")"
  | square => "]"
  | curly => "\x7d"

/-- What stands between a bracket and the items on one line. -/
def padding : Bracket → String
  | curly => " "
  | round | square => ""

end Bracket

/-- A value to be listed. -/
inductive Outline
  /-- A text of its own. -/
  | word (text : String)
  /-- A value with a name in front. -/
  | field (name : String) (value : Outline)
  /-- A bracketed list with a name in front, which may be empty. -/
  | group (name : String) (bracket : Bracket) (items : List Outline)

namespace Outline

mutual

/-- An outline on one line. -/
def inline : Outline → String
  | word text => text
  | field name value => name ++ ": " ++ inline value
  | group name bracket [] => name ++ bracket.opening ++ bracket.closing
  | group name bracket items =>
    name ++ bracket.opening ++ bracket.padding ++ ", ".intercalate (inlineAll items) ++
      bracket.padding ++ bracket.closing

/-- Several outlines, each on one line. -/
def inlineAll : List Outline → List String
  | [] => []
  | x :: xs => inline x :: inlineAll xs

end

/-- The start of a line at a depth. -/
def indent (depth : Nat) : String := "".pushn ' ' (4 * depth)

mutual

/-- An outline with every item on a line of its own, from a line of the given depth on. -/
def indented (depth : Nat) : Outline → String
  | word text => text
  | field name value => name ++ ": " ++ indented depth value
  | group name bracket [] => name ++ bracket.opening ++ bracket.closing
  | group name bracket items =>
    name ++ bracket.opening ++ "\n" ++ indentedAll (depth + 1) items ++ indent depth ++
      bracket.closing

/-- Several outlines on lines of their own, each with a comma behind it. -/
def indentedAll (depth : Nat) : List Outline → String
  | [] => ""
  | x :: xs => indent depth ++ indented depth x ++ ",\n" ++ indentedAll depth xs

end

end Outline

/-! ### Outlines of trees -/

/-- The outline of a span. -/
def Span.outline (s : Span) : Outline :=
  .group "SrcSpan" .curly
    [.field "start" (.word (toString s.start)), .field "end" (.word (toString s.stop))]

/-- The outline of a token. -/
def Token.outline (t : Token) : Outline :=
  .group "Token" .curly
    [.field "kind" (.word t.kind.name), .field "text" (.word (Text.quote t.text)),
      .field "span" t.span.outline]

namespace Tree

/-- A node under the name of its sort, which stands outside and inside. -/
def nodeOutline (sort : String) (fields : List Outline) : Outline :=
  .group sort .round [.group sort .curly fields]

mutual

/-- The outline of a tree. -/
def outline : Tree → Outline
  | leaf kind token =>
    nodeOutline "Leaf" [.field "kind" (.word kind.name), .field "token" token.outline]
  | unary operator token operand span =>
    nodeOutline "Unary" [.field "operator" (.word operator.name), .field "token" token.outline,
      .field "operand" (outline operand), .field "location" span.outline]
  | binary operator token left right span =>
    nodeOutline "Binary" [.field "operator" (.word operator.name), .field "token" token.outline,
      .field "left" (outline left), .field "right" (outline right),
      .field "location" span.outline]
  | call name token args span =>
    nodeOutline "General" [.field "name" (.word (Text.quote name)), .field "token" token.outline,
      .field "args" (.group "" .square (outlines args)), .field "location" span.outline]

/-- The outlines of several trees. -/
def outlines : List Tree → List Outline
  | [] => []
  | x :: xs => outline x :: outlines xs

end

/-- The listing of a tree on one line. -/
def listing (tree : Tree) : String := tree.outline.inline

/-- The listing of a tree with an item a line. -/
def indentedListing (tree : Tree) : String := tree.outline.indented 0

end Tree

end DecimalFormula
