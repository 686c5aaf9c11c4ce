import TypeBench.Groups
import TypeBench.Tree.Context
import TypeBench.Tree.Walk

/-!
# Usage of identifiers

References to an identifier are grouped by its name over the whole source unit, whatever their
scope.

## Main definitions

* `Usage`: how a reference uses its identifier.
* `SourceUnit.usage?`: the usage of one reference.
* `UsageIndex`: the labels of each name, in the order of the source.
-/

namespace TypeBench

/-- How a reference uses its identifier. -/
inductive Usage where
  | property (name : Text)
  | call (arguments : Nat)
  | assignmentTarget
  deriving DecidableEq

/-- The label of a usage. -/
def Usage.label : Usage → Text
  | property name => "property-access:" ++ name
  | call arguments => "function-call:" ++ Text.ofNat arguments ++ "-args"
  | assignmentTarget => "assignment-target"

namespace SourceUnit

/-- The property that a member expression names. -/
def property? (u : SourceUnit) (member : Tree) : Option Usage :=
  (member.child? "property").bind fun property =>
    if property.info.kind.isProperty then some (.property (u.text property)) else none

/-- The number of arguments of a call; comments do not count. -/
def arguments? (call : Tree) : Option Usage :=
  (call.child? "arguments").bind fun arguments =>
    if arguments.info.kind = NodeKind.arguments then
      some (.call (arguments.children.countP fun child =>
        child.info.isNamed && child.info.kind ≠ NodeKind.comment))
    else none

/-- How a node uses its identifier: as an object, as a function or as the target of an
assignment. -/
def usage? (u : SourceUnit) (n : Node) : Option Usage :=
  n.parent?.bind fun parent =>
    if parent.kind = NodeKind.memberExpression && parent.tree.isChild "object" n.tree then
      u.property? parent.tree
    else if parent.kind = NodeKind.callExpression && parent.tree.isChild "function" n.tree then
      arguments? parent.tree
    else if parent.kind.isAssignment && parent.tree.isChild "left" n.tree then
      some .assignmentTarget
    else none

end SourceUnit

/-- The labels of the usages of each name, names in the order of their first usage. -/
abbrev UsageIndex := Groups Text Text

namespace UsageIndex

/-- An index with the usage of one node. -/
def record (u : SourceUnit) (index : UsageIndex) (n : Node) : UsageIndex :=
  if n.kind = NodeKind.identifier then
    match u.usage? n with
    | some usage => Groups.add (u.text n.tree) usage.label index
    | none => index
  else index

/-- The index of a source unit. -/
def ofUnit (u : SourceUnit) : UsageIndex := u.tree.namedNodes.foldl (record u) []

end UsageIndex

end TypeBench
