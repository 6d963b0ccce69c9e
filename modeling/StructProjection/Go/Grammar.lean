import StructProjection.Grammar.Rule

/-! # The grammar of Go files

Wider than the language: statements may stand at the top of a file, and semicolons are never
supplied where a line ends; a declaration ends at a line feed, a semicolon or a NUL character.
-/

namespace StructProjection.Go

open StructProjection.Grammar

/-! ## Tokens -/

namespace Pattern

open StructProjection.Grammar.Pattern

def digit : CharSet := .range '0' '9'
def hexDigit : CharSet := digit ||| .range 'a' 'f' ||| .range 'A' 'F'
def octalDigit : CharSet := .range '0' '7'
def letter : CharSet := .range 'a' 'z' ||| .range 'A' 'Z' ||| .ofString "_" ||| .ofClass 128

def identifier : Pattern := ofList [.one letter, star (.one (letter ||| digit ||| .ofClass 129))]

/-- Digits, with single underscores between them. -/
def digits (d : CharSet) : Pattern :=
  ofList [.one d, star (ofList [optional (text "_"), .one d])]

def hexLiteral : Pattern := ofList [text "0", anyOf "xX", optional (text "_"), digits hexDigit]

def octalLiteral : Pattern :=
  ofList [text "0", optional (anyOf "oO"), optional (text "_"), digits octalDigit]

def decimalLiteral : Pattern :=
  .alt (text "0") (ofList [.one (.range '1' '9'), optional (ofList [optional (text "_"), digits digit])])

def binaryLiteral : Pattern :=
  ofList [text "0", anyOf "bB", optional (text "_"), digits (.ofString "01")]

def intLiteral : Pattern := oneOf [binaryLiteral, decimalLiteral, octalLiteral, hexLiteral]

def exponent (mark : String) : Pattern :=
  ofList [anyOf mark, optional (anyOf "+-"), digits digit]

def decimalFloat : Pattern := oneOf [
  ofList [digits digit, text ".", optional (digits digit), optional (exponent "eE")],
  ofList [digits digit, exponent "eE"],
  ofList [text ".", digits digit, optional (exponent "eE")]]

def hexMantissa : Pattern := oneOf [
  ofList [optional (text "_"), digits hexDigit, text ".", optional (digits hexDigit)],
  ofList [optional (text "_"), digits hexDigit],
  ofList [text ".", digits hexDigit]]

def floatLiteral : Pattern :=
  .alt decimalFloat (ofList [text "0", anyOf "xX", hexMantissa, exponent "pP"])

def imaginaryLiteral : Pattern :=
  ofList [oneOf [digits digit, intLiteral, floatLiteral], text "i"]

def escape : Pattern := ofList [text "\\", oneOf [
  noneOf "xuU",
  ofList [.one digit, .one digit, optional (.one digit)],
  ofList [text "x", .one hexDigit, .repeat1 (.one hexDigit)],
  ofList [text "u", times 4 (.one hexDigit)],
  ofList [text "U", times 8 (.one hexDigit)]]]

def runeEscape : Pattern := ofList [text "\\", oneOf [
  ofList [text "x", times 2 (.one hexDigit)],
  times 3 (.one octalDigit),
  ofList [text "u", times 4 (.one hexDigit)],
  ofList [text "U", times 8 (.one hexDigit)],
  anyOf "abfnrtv\\'\""]]

def runeLiteral : Pattern := ofList [text "'", .alt (noneOf "'\\") runeEscape, text "'"]

def lineComment : Pattern := ofList [text "//", star (noneOf "\n")]

def blockComment : Pattern := ofList [text "/*", star (noneOf "*"), .repeat1 (text "*"),
  star (ofList [noneOf "/*", star (noneOf "*"), .repeat1 (text "*")]), text "/"]

end Pattern

/-- The key of the quote that ends a string. -/
def closingQuote : String := "closing quote"

def marks : List String → List Token := List.map Token.mark

/-- All tokens, in the order in which they first stand in the rules. -/
def tokens : Array Token := List.toArray <|
  [{ Token.mark "\n" with literal := none, visible := false }] ++
  marks [";", "\x00", "package", "import", "."] ++ [Token.word "blank_identifier" "_"] ++
  marks ["(", ")", "const", ",", "=", "var", "func", "[", "]", "...", "type", "*", "struct", "~",
    "\x7b", "\x7d", "interface", "|", "map", "chan", "<-", ":=", "++", "--",
    "*=", "/=", "%=", "<<=", ">>=", "&=", "&^=", "+=", "-=", "|=", "^=",
    ":", "fallthrough", "break", "continue", "goto", "return", "go", "defer", "if", "else", "for",
    "range", "switch", "case", "default", "select", "new", "make",
    "+", "-", "!", "^", "&", "/", "%", "<<", ">>", "&^", "==", "!=", "<", "<=", ">", ">=",
    "&&", "||"] ++
  [Token.matching "identifier" Pattern.identifier] ++
  marks ["\x60"] ++
  [{ Token.matching "raw text" (.star (.noneOf "\x60")) with
      attached := true, greedy := true, visible := false }] ++
  marks ["\""] ++
  [{ Token.matching "quoted text" (.repeat1 (.noneOf "\"\n\\")) with
      attached := true, greedy := true, visible := false },
   { Token.mark "\"" with key := closingQuote, attached := true },
   { Token.matching "escape_sequence" Pattern.escape with attached := true },
   Token.matching "int_literal" Pattern.intLiteral,
   Token.matching "float_literal" Pattern.floatLiteral,
   Token.matching "imaginary_literal" Pattern.imaginaryLiteral,
   Token.matching "rune_literal" Pattern.runeLiteral,
   Token.word "nil" "nil", Token.word "true" "true", Token.word "false" "false",
   Token.word "iota" "iota",
   Token.matching "comment" (.alt Pattern.lineComment Pattern.blockComment)]

def reserved : List String := ["break", "default", "func", "interface", "select", "case", "defer",
  "go", "map", "struct", "chan", "else", "goto", "package", "switch", "const", "fallthrough", "if",
  "range", "type", "continue", "for", "import", "return", "var"]

/-! ## Rules -/

/-- One token of the given form. -/
private def t (key : String) : Rule := .token key

private def n (name : String) : Rule := .ref name

/-- One of several tokens. -/
private def anyToken (keys : List String) : Rule := .oneOf (keys.map .token)

/-- What ends a declaration or statement. -/
private def terminator : Rule := anyToken ["\n", ";", "\x00"]

private def list (p : Rule) : Rule := .separated (t ",") p

private def opt (ps : List Rule) : Rule := .optional (.all ps)

/-- Items ended by terminators, the last of which may be left out. -/
private def block (p : Rule) : Rule :=
  opt [p, .star (.seq terminator p), .optional terminator]

private def left (rank : Int) (p : Rule) : Rule := .ranked rank (some .left) p
private def right (rank : Int) (p : Rule) : Rule := .ranked rank (some .right) p
private def ranked (rank : Int) (p : Rule) : Rule := .ranked rank none p

private def primary : Int := 7
private def unary : Int := 6

private def expression : Rule := n "_expression"
private def type : Rule := n "_type"
private def typeName : Rule := n "_type_identifier"
private def fieldName : Rule := n "_field_identifier"
private def packageName : Rule := n "_package_identifier"
private def label : Rule := .renamed "label_name" (t "identifier")
private def result : Rule := .optional (.alt (n "parameter_list") (n "_simple_type"))

private def multiplicative : List String := ["*", "/", "%", "<<", ">>", "&", "&^"]
private def additive : List String := ["+", "-", "|", "^"]
private def comparative : List String := ["==", "!=", "<", "<=", ">", ">="]

private def assignments : List String := (multiplicative ++ additive).map (· ++ "=") ++ ["="]

private def binary (rank : Int) (operators : List String) : Rule :=
  left rank (.all [expression, anyToken operators, expression])

private def allocator : Rule := .renamed "identifier" (anyToken ["new", "make"])

private def initializer : Rule := opt [n "_simple_statement", t ";"]

private def assigned : Rule := opt [n "expression_list", anyToken ["=", ":="]]

def declarationRules : List (String × Rule) := [
  ("source_file", .seq
    (.star (.alt (.seq (n "_statement") terminator) (.seq (n "_top_level_declaration") terminator)))
    (.optional (n "_top_level_declaration"))),
  ("_top_level_declaration", .oneOf [n "package_clause", n "function_declaration",
    n "method_declaration", n "import_declaration"]),
  ("package_clause", .seq (t "package") packageName),
  ("import_declaration", .seq (t "import") (.alt (n "import_spec") (n "import_spec_list"))),
  ("import_spec", .seq (.optional (.oneOf [n "dot", t "blank_identifier", packageName]))
    (n "_string_literal")),
  ("dot", t "."),
  ("import_spec_list", .all [t "(", block (n "import_spec"), t ")"]),
  ("_declaration", .oneOf [n "const_declaration", n "type_declaration", n "var_declaration"]),
  ("const_declaration", .seq (t "const") (.alt (n "const_spec")
    (.all [t "(", .star (.seq (n "const_spec") terminator), t ")"]))),
  ("const_spec", left 0 (.seq (list (t "identifier"))
    (opt [.optional type, t "=", n "expression_list"]))),
  ("var_declaration", .seq (t "var") (.alt (n "var_spec") (n "var_spec_list"))),
  ("var_spec", .seq (list (t "identifier")) (.alt
    (.seq type (opt [t "=", n "expression_list"])) (.seq (t "=") (n "expression_list")))),
  ("var_spec_list", .all [t "(", .star (.seq (n "var_spec") terminator), t ")"]),
  ("function_declaration", right 1 (.all [t "func", t "identifier",
    .optional (n "type_parameter_list"), n "parameter_list", result, .optional (n "block")])),
  ("method_declaration", right 1 (.all [t "func", n "parameter_list", fieldName,
    n "parameter_list", result, .optional (n "block")])),
  ("type_parameter_list", .all [t "[", list (n "type_parameter_declaration"),
    .optional (t ","), t "]"]),
  ("type_parameter_declaration", .seq (list (t "identifier"))
    (.renamed "type_constraint" (n "type_elem"))),
  ("parameter_list", .all [t "(", opt [
    .optional (list (.alt (n "parameter_declaration") (n "variadic_parameter_declaration"))),
    .optional (t ",")], t ")"]),
  ("parameter_declaration", .seq (.optional (list (t "identifier"))) type),
  ("variadic_parameter_declaration", .all [.optional (t "identifier"), t "...", type]),
  ("type_alias", .all [typeName, .optional (n "type_parameter_list"), t "=", type]),
  ("type_declaration", .seq (t "type") (.oneOf [n "type_spec", n "type_alias",
    .all [t "(", block (.alt (n "type_spec") (n "type_alias")), t ")"]])),
  ("type_spec", .all [typeName, .optional (n "type_parameter_list"), type]),
  ("expression_list", list expression)]

def typeRules : List (String × Rule) := [
  ("_type", .alt (n "_simple_type") (n "parenthesized_type")),
  ("parenthesized_type", .all [t "(", type, t ")"]),
  ("_simple_type", .oneOf [.favoured (-1) typeName, n "generic_type", n "qualified_type",
    n "pointer_type", n "struct_type", n "interface_type", n "array_type", n "slice_type",
    n "map_type", n "channel_type", n "function_type", n "negated_type"]),
  ("generic_type", .favoured 1 (.seq (.oneOf [typeName, n "qualified_type", n "negated_type"])
    (n "type_arguments"))),
  ("type_arguments", .favoured 2 (.all [t "[", list (n "type_elem"), .optional (t ","), t "]"])),
  ("pointer_type", ranked unary (.seq (t "*") type)),
  ("array_type", right 0 (.all [t "[", expression, t "]", type])),
  ("implicit_length_array_type", .all [t "[", t "...", t "]", type]),
  ("slice_type", right 0 (.all [t "[", t "]", type])),
  ("struct_type", .seq (t "struct") (n "field_declaration_list")),
  ("negated_type", left 0 (.seq (t "~") type)),
  ("field_declaration_list", .all [t "\x7b", block (n "field_declaration"), t "\x7d"]),
  ("field_declaration", .seq (.alt (.seq (list fieldName) type)
    (.seq (.optional (t "*")) (.oneOf [typeName, n "qualified_type", n "generic_type"])))
    (.optional (n "_string_literal"))),
  ("interface_type", .all [t "interface", t "\x7b", block (n "_interface_elem"), t "\x7d"]),
  ("_interface_elem", .alt (n "method_elem") (n "type_elem")),
  ("method_elem", .all [fieldName, n "parameter_list", result]),
  ("type_elem", .separated (t "|") type),
  ("map_type", right 0 (.all [t "map", t "[", type, t "]", type])),
  ("channel_type", left 0 (.oneOf [.seq (t "chan") type, .all [t "chan", t "<-", type],
    ranked unary (.all [t "<-", t "chan", type])])),
  ("function_type", right 0 (.all [t "func", n "parameter_list", result]))]

def statementRules : List (String × Rule) := [
  ("block", .all [t "\x7b", .optional (n "statement_list"), t "\x7d"]),
  ("statement_list", .alt
    (.all [n "_statement", .star (.seq terminator (n "_statement")),
      opt [terminator, .optional (.renamed "labeled_statement" (n "empty_labeled_statement"))]])
    (.renamed "labeled_statement" (n "empty_labeled_statement"))),
  ("_statement", .oneOf (List.map n ["_declaration", "_simple_statement", "return_statement",
    "go_statement", "defer_statement", "if_statement", "for_statement",
    "expression_switch_statement", "type_switch_statement", "select_statement",
    "labeled_statement", "fallthrough_statement", "break_statement", "continue_statement",
    "goto_statement", "block", "empty_statement"])),
  ("empty_statement", t ";"),
  ("_simple_statement", .oneOf (List.map n ["expression_statement", "send_statement",
    "inc_statement", "dec_statement", "assignment_statement", "short_var_declaration"])),
  ("expression_statement", expression),
  ("send_statement", .all [expression, t "<-", expression]),
  ("receive_statement", .seq assigned expression),
  ("inc_statement", .seq expression (t "++")),
  ("dec_statement", .seq expression (t "--")),
  ("assignment_statement", .all [n "expression_list", anyToken assignments, n "expression_list"]),
  ("short_var_declaration", .all [n "expression_list", t ":=", n "expression_list"]),
  ("labeled_statement", .all [label, t ":", n "_statement"]),
  ("empty_labeled_statement", .seq label (t ":")),
  ("fallthrough_statement", left 0 (t "fallthrough")),
  ("break_statement", .seq (t "break") (.optional label)),
  ("continue_statement", .seq (t "continue") (.optional label)),
  ("goto_statement", .seq (t "goto") label),
  ("return_statement", .seq (t "return") (.optional (n "expression_list"))),
  ("go_statement", .seq (t "go") expression),
  ("defer_statement", .seq (t "defer") expression),
  ("if_statement", .all [t "if", initializer, expression, n "block",
    opt [t "else", .alt (n "block") (n "if_statement")]]),
  ("for_statement", .all [t "for",
    .optional (.oneOf [expression, n "for_clause", n "range_clause"]), n "block"]),
  ("for_clause", .all [.optional (n "_simple_statement"), t ";", .optional expression, t ";",
    .optional (n "_simple_statement")]),
  ("range_clause", .all [assigned, t "range", expression]),
  ("expression_switch_statement", .all [t "switch", initializer, .optional expression, t "\x7b",
    .star (.alt (n "expression_case") (n "default_case")), t "\x7d"]),
  ("expression_case", .all [t "case", n "expression_list", t ":", .optional (n "statement_list")]),
  ("default_case", .all [t "default", t ":", .optional (n "statement_list")]),
  ("type_switch_statement", .all [t "switch", n "_type_switch_header", t "\x7b",
    .star (.alt (n "type_case") (n "default_case")), t "\x7d"]),
  ("_type_switch_header", .all [initializer, opt [n "expression_list", t ":="], expression, t ".",
    t "(", t "type", t ")"]),
  ("type_case", .all [t "case", list type, t ":", .optional (n "statement_list")]),
  ("select_statement", .all [t "select", t "\x7b",
    .star (.alt (n "communication_case") (n "default_case")), t "\x7d"]),
  ("communication_case", .all [t "case", .alt (n "send_statement") (n "receive_statement"), t ":",
    .optional (n "statement_list")])]

def expressionRules : List (String × Rule) := [
  ("_expression", .oneOf ((List.map n ["unary_expression", "binary_expression",
    "selector_expression", "index_expression", "slice_expression", "call_expression",
    "type_assertion_expression", "type_conversion_expression", "type_instantiation_expression"]) ++
    [t "identifier", allocator, n "composite_literal", n "func_literal", n "_string_literal",
     t "int_literal", t "float_literal", t "imaginary_literal", t "rune_literal", t "nil",
     t "true", t "false", t "iota", n "parenthesized_expression"])),
  ("parenthesized_expression", .all [t "(", expression, t ")"]),
  ("call_expression", ranked primary (.alt
    (.seq allocator (.renamed "argument_list" (n "special_argument_list")))
    (.all [expression, .optional (n "type_arguments"), n "argument_list"]))),
  ("variadic_argument", right 0 (.seq expression (t "..."))),
  ("special_argument_list", .all [t "(",
    opt [type, .star (.seq (t ",") expression), .optional (t ",")], t ")"]),
  ("argument_list", .all [t "(", opt [list (.alt expression (n "variadic_argument")),
    .optional (t ",")], t ")"]),
  ("selector_expression", ranked primary (.all [expression, t ".", fieldName])),
  ("index_expression", ranked primary (.all [expression, t "[", expression, t "]"])),
  ("slice_expression", ranked primary (.all [expression, t "[", .alt
    (.all [.optional expression, t ":", .optional expression])
    (.all [.optional expression, t ":", expression, t ":", expression]), t "]"])),
  ("type_assertion_expression", ranked primary (.all [expression, t ".", t "(", type, t ")"])),
  ("type_conversion_expression", .favoured (-1)
    (.all [type, t "(", expression, .optional (t ","), t ")"])),
  ("type_instantiation_expression", .favoured (-1)
    (.all [type, t "[", list type, .optional (t ","), t "]"])),
  ("composite_literal", ranked (-1) (.seq (.oneOf [n "map_type", n "slice_type", n "array_type",
    n "implicit_length_array_type", n "struct_type", typeName, n "generic_type",
    n "qualified_type"]) (n "literal_value"))),
  ("literal_value", .all [t "\x7b", opt [
    .optional (list (.alt (n "literal_element") (n "keyed_element"))), .optional (t ",")],
    t "\x7d"]),
  ("literal_element", .alt expression (n "literal_value")),
  ("keyed_element", .all [n "literal_element", t ":", n "literal_element"]),
  ("func_literal", .all [t "func", n "parameter_list", result, n "block"]),
  ("unary_expression", ranked unary
    (.seq (anyToken ["+", "-", "!", "^", "*", "&", "<-"]) expression)),
  ("binary_expression", .oneOf [binary 5 multiplicative, binary 4 additive, binary 3 comparative,
    binary 2 ["&&"], binary 1 ["||"]])]

def nameRules : List (String × Rule) := [
  ("qualified_type", .all [packageName, t ".", typeName]),
  ("_type_identifier", .renamed "type_identifier" (t "identifier")),
  ("_field_identifier", .renamed "field_identifier" (t "identifier")),
  ("_package_identifier", .renamed "package_identifier" (t "identifier")),
  ("_string_literal", .alt (n "raw_string_literal") (n "interpreted_string_literal")),
  ("raw_string_literal", .all [t "\x60",
    .renamed "raw_string_literal_content" (t "raw text"), t "\x60"]),
  ("interpreted_string_literal", .all [t "\"", .star (.alt
    (.renamed "interpreted_string_literal_content" (t "quoted text")) (t "escape_sequence")),
    t closingQuote])]

def language : Language where
  tokens := tokens
  rules := (declarationRules ++ typeRules ++ statementRules ++ expressionRules ++
    nameRules).toArray
  blanks := .ofString " \t\r\n\x0b\x0c"
  comment := "comment"
  wordToken := "identifier"
  reserved := reserved
  inlined := ["_type", "_type_identifier", "_field_identifier", "_package_identifier",
    "_top_level_declaration", "_string_literal", "_interface_elem"]
  hidden := ["_top_level_declaration", "_declaration", "_type", "_simple_type", "_interface_elem",
    "_statement", "_simple_statement", "_type_switch_header", "_expression", "_type_identifier",
    "_field_identifier", "_package_identifier", "_string_literal"]
  kept := ["_expression", "_type", "_simple_type", "_statement", "_simple_statement"]

end StructProjection.Go
