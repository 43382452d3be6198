/-!
# Kind — the node kinds of a JavaScript syntax tree

The analysis tells apart the kinds listed here; every other node is `other` with its name.  An
anonymous token is a node whose kind is the token itself, so the keyword `class` inside a class
declaration has the kind of a class expression (`classWord`).
-/

namespace HookLint.Syntax

/-- The kind of a syntax tree node. -/
inductive Kind where
  | identifier | propertyIdentifier | shorthandProperty | shorthandPattern | nestedIdentifier
  | computedName | arrowFunction | functionExpression | functionWord | generatorFunction
  | functionDeclaration | generatorDeclaration | methodDefinition | classDeclaration | classWord
  | statementBlock | switchBody | forStatement | forIn | catchClause | lexicalDeclaration
  | variableDeclaration | variableDeclarator | varWord | letWord | constWord | importStatement
  | importClause | namespaceImport | namedImports | importSpecifier | exportStatement
  | exportClause | arrayPattern | objectPattern | assignmentPattern | objectAssignmentPattern
  | restPattern | pairPattern | comma | parenthesized | memberExpression | callExpression
  | newExpression | arguments | assignment | augmentedAssignment | update | unary | binary
  | ternary | spreadElement | array | object | regex | string | number | trueWord | falseWord
  | nullWord | undefinedWord | templateString | templateSubstitution | jsxElement | jsxFragment
  | jsxSelfClosing | jsxOpening | jsxClosing | comment | error
  | other (name : String)
deriving DecidableEq, Repr, Inhabited

namespace Kind

/-- The name of a kind in the grammar. -/
def name : Kind → String
  | .identifier => "identifier"
  | .propertyIdentifier => "property_identifier"
  | .shorthandProperty => "shorthand_property_identifier"
  | .shorthandPattern => "shorthand_property_identifier_pattern"
  | .nestedIdentifier => "nested_identifier"
  | .computedName => "computed_property_name"
  | .arrowFunction => "arrow_function"
  | .functionExpression => "function_expression"
  | .functionWord => "function"
  | .generatorFunction => "generator_function"
  | .functionDeclaration => "function_declaration"
  | .generatorDeclaration => "generator_function_declaration"
  | .methodDefinition => "method_definition"
  | .classDeclaration => "class_declaration"
  | .classWord => "class"
  | .statementBlock => "statement_block"
  | .switchBody => "switch_body"
  | .forStatement => "for_statement"
  | .forIn => "for_in_statement"
  | .catchClause => "catch_clause"
  | .lexicalDeclaration => "lexical_declaration"
  | .variableDeclaration => "variable_declaration"
  | .variableDeclarator => "variable_declarator"
  | .varWord => "var"
  | .letWord => "let"
  | .constWord => "const"
  | .importStatement => "import_statement"
  | .importClause => "import_clause"
  | .namespaceImport => "namespace_import"
  | .namedImports => "named_imports"
  | .importSpecifier => "import_specifier"
  | .exportStatement => "export_statement"
  | .exportClause => "export_clause"
  | .arrayPattern => "array_pattern"
  | .objectPattern => "object_pattern"
  | .assignmentPattern => "assignment_pattern"
  | .objectAssignmentPattern => "object_assignment_pattern"
  | .restPattern => "rest_pattern"
  | .pairPattern => "pair_pattern"
  | .comma => ","
  | .parenthesized => "parenthesized_expression"
  | .memberExpression => "member_expression"
  | .callExpression => "call_expression"
  | .newExpression => "new_expression"
  | .arguments => "arguments"
  | .assignment => "assignment_expression"
  | .augmentedAssignment => "augmented_assignment_expression"
  | .update => "update_expression"
  | .unary => "unary_expression"
  | .binary => "binary_expression"
  | .ternary => "ternary_expression"
  | .spreadElement => "spread_element"
  | .array => "array"
  | .object => "object"
  | .regex => "regex"
  | .string => "string"
  | .number => "number"
  | .trueWord => "true"
  | .falseWord => "false"
  | .nullWord => "null"
  | .undefinedWord => "undefined"
  | .templateString => "template_string"
  | .templateSubstitution => "template_substitution"
  | .jsxElement => "jsx_element"
  | .jsxFragment => "jsx_fragment"
  | .jsxSelfClosing => "jsx_self_closing_element"
  | .jsxOpening => "jsx_opening_element"
  | .jsxClosing => "jsx_closing_element"
  | .comment => "comment"
  | .error => "ERROR"
  | .other name => name

/-- The kinds with a constructor of their own. -/
def known : List Kind :=
  [.identifier, .propertyIdentifier, .shorthandProperty, .shorthandPattern, .nestedIdentifier,
   .computedName, .arrowFunction, .functionExpression, .functionWord, .generatorFunction,
   .functionDeclaration, .generatorDeclaration, .methodDefinition, .classDeclaration, .classWord,
   .statementBlock, .switchBody, .forStatement, .forIn, .catchClause, .lexicalDeclaration,
   .variableDeclaration, .variableDeclarator, .varWord, .letWord, .constWord, .importStatement,
   .importClause, .namespaceImport, .namedImports, .importSpecifier, .exportStatement,
   .exportClause, .arrayPattern, .objectPattern, .assignmentPattern, .objectAssignmentPattern,
   .restPattern, .pairPattern, .comma, .parenthesized, .memberExpression, .callExpression,
   .newExpression, .arguments, .assignment, .augmentedAssignment, .update, .unary, .binary,
   .ternary, .spreadElement, .array, .object, .regex, .string, .number, .trueWord, .falseWord,
   .nullWord, .undefinedWord, .templateString, .templateSubstitution, .jsxElement, .jsxFragment,
   .jsxSelfClosing, .jsxOpening, .jsxClosing, .comment, .error]

/-- The kind with the given name. -/
def ofName (name : String) : Kind := (known.find? fun k => k.name = name).getD (.other name)

@[simp] theorem name_ofName (s : String) : (ofName s).name = s := by
  unfold ofName
  cases h : known.find? fun k => k.name = s with
  | none => rfl
  | some k => simpa using List.find?_some h

/-- The functions: nodes that open a function scope. -/
def isFunction : Kind → Bool
  | .arrowFunction | .functionExpression | .functionWord | .generatorFunction
  | .functionDeclaration | .generatorDeclaration | .methodDefinition => true
  | _ => false

/-- The functions that stand where a value is expected. -/
def isFunctionValue : Kind → Bool
  | .arrowFunction | .functionExpression | .functionWord | .generatorFunction => true
  | _ => false

end Kind

/-- The names under which a node finds its parts. -/
inductive Field where
  | name | value | left | right | key | kind | object | property | function | arguments | argument
  | operator | parameters | parameter | body | initializer | declaration | alias | consequence
  | alternative
deriving DecidableEq, Repr

/-- The field with the given name. -/
def Field.ofName? : String → Option Field
  | "name" => some .name
  | "value" => some .value
  | "left" => some .left
  | "right" => some .right
  | "key" => some .key
  | "kind" => some .kind
  | "object" => some .object
  | "property" => some .property
  | "function" => some .function
  | "arguments" => some .arguments
  | "argument" => some .argument
  | "operator" => some .operator
  | "parameters" => some .parameters
  | "parameter" => some .parameter
  | "body" => some .body
  | "initializer" => some .initializer
  | "declaration" => some .declaration
  | "alias" => some .alias
  | "consequence" => some .consequence
  | "alternative" => some .alternative
  | _ => none

end HookLint.Syntax
