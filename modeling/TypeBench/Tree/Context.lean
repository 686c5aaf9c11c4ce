import TypeBench.Tree.Kind
import TypeBench.Tree.SourceUnit

/-!
# Syntactic context

The role of an identifier is read off the nodes around it.

## Main definitions

* `Node.isClassMethod`: methods of a class, as against those of an object literal.
* `SyntacticContext`, `SyntacticContext.ofParent`: the role of an identifier in its parent.
* `SourceUnit.operator?`: the text of a node's operator.
-/

namespace TypeBench

/-- Whether a node is a method in the body of a class. -/
def Node.isClassMethod (n : Node) : Bool :=
  n.kind = NodeKind.methodDefinition &&
    n.parent?.any fun parent => parent.kind = NodeKind.classBody

/-- The role of an identifier. -/
inductive SyntacticContext where
  | assignment
  | variableDeclaration
  | methodParameter
  | memberAccess
  | functionCall
  | returnStatement
  | unknown
  /-- No rule applies: the kind of the parent. -/
  | inside (kind : NodeKind)
  deriving DecidableEq

namespace SyntacticContext

/-- The label of a role. -/
def label : SyntacticContext → Text
  | assignment => "assignment"
  | variableDeclaration => "variable-declaration"
  | methodParameter => "method-parameter"
  | memberAccess => "member-access"
  | functionCall => "function-call"
  | returnStatement => "return-statement"
  | unknown => "unknown"
  | inside kind => kind

/-- Whether a node lists the arguments of a call. -/
def isCallArguments (n : Node) : Bool :=
  n.kind = NodeKind.arguments &&
    n.parent?.any fun parent => parent.kind = NodeKind.callExpression

/-- Whether a node lists the parameters of a method of a class. -/
def isMethodParameters (n : Node) : Bool :=
  n.kind = NodeKind.formalParameters && n.parent?.any Node.isClassMethod

/-- The role of an identifier in its parent. The first rule that applies decides. -/
def ofParent : Option Node → SyntacticContext
  | none => unknown
  | some parent =>
    if parent.kind.isAssignment then assignment
    else if parent.kind = NodeKind.variableDeclarator then variableDeclaration
    else if isMethodParameters parent then methodParameter
    else if parent.kind = NodeKind.memberExpression then memberAccess
    else if parent.kind = NodeKind.callExpression || isCallArguments parent then functionCall
    else if parent.kind = NodeKind.returnStatement then returnStatement
    else inside parent.kind

end SyntacticContext

/-- The text of the operator of a node. -/
def SourceUnit.operator? (u : SourceUnit) (tree : Tree) : Option Text :=
  (tree.child? "operator").map u.text

end TypeBench
