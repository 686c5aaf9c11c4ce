import TypeBench.Tree.Basic

/-!
# Kinds of nodes

The kinds that a grammar of JavaScript gives to the nodes that the bench looks at. All other kinds
are treated alike.

## Main definitions

* `NodeKind.isCandidate`: identifiers that may bear a value.
* `NodeKind.isDeclaration`: declarations that introduce a name of their own.
* `NodeKind.isFunctionExpression`, `NodeKind.isAssignment`: groups of kinds with one role.
-/

namespace TypeBench.NodeKind

def identifier : NodeKind := "identifier"

def propertyIdentifier : NodeKind := "property_identifier"

def privateIdentifier : NodeKind := "private_property_identifier"

def classDeclaration : NodeKind := "class_declaration"

def functionDeclaration : NodeKind := "function_declaration"

def generatorDeclaration : NodeKind := "generator_function_declaration"

def methodDefinition : NodeKind := "method_definition"

def classBody : NodeKind := "class_body"

def arrowFunction : NodeKind := "arrow_function"

def memberExpression : NodeKind := "member_expression"

def callExpression : NodeKind := "call_expression"

def arguments : NodeKind := "arguments"

def comment : NodeKind := "comment"

def variableDeclarator : NodeKind := "variable_declarator"

def formalParameters : NodeKind := "formal_parameters"

def returnStatement : NodeKind := "return_statement"

/-- Identifiers that may bear a value. -/
def isCandidate (kind : NodeKind) : Bool :=
  kind = identifier || kind = Text.ofString "shorthand_property_identifier" ||
    kind = Text.ofString "shorthand_property_identifier_pattern"

/-- Declarations of functions, generators among them. -/
def isFunctionDeclaration (kind : NodeKind) : Bool :=
  kind = functionDeclaration || kind = generatorDeclaration

/-- Declarations whose name is a label and bears no value. -/
def isDeclaration (kind : NodeKind) : Bool :=
  kind = classDeclaration || kind.isFunctionDeclaration

/-- Functions written as expressions, under the older name of the kind too. -/
def isFunctionExpression (kind : NodeKind) : Bool :=
  kind = Text.ofString "function_expression" || kind = Text.ofString "function" ||
    kind = Text.ofString "generator_function"

/-- Properties of an object, private ones among them. -/
def isProperty (kind : NodeKind) : Bool :=
  kind = propertyIdentifier || kind = privateIdentifier

/-- Nodes whose text names a declaration or a method. -/
def isName (kind : NodeKind) : Bool :=
  kind = identifier || kind.isProperty

/-- Assignments, with and without an operator of their own. -/
def isAssignment (kind : NodeKind) : Bool :=
  kind = Text.ofString "assignment_expression" ||
    kind = Text.ofString "augmented_assignment_expression"

end TypeBench.NodeKind
