set_option autoImplicit false

/-! # Kinds of nodes

A concrete tree of a JavaScript text names the kind of each of its nodes. This module holds the
part of that vocabulary which the scoring rules and the naming of scopes speak about, and the
classes into which they sort it:

* `Kind.functions` and `Kind.scopes`: what opens a scope;
* `Kind.branches`, `Kind.cases`: what is charged without looking further;
* `Kind.members`, `Kind.identifiers`: what a name is read from.

Every class is listed in alphabetical order. A kind that stands in none of them is ordinary: it
is walked and never charged.
-/

namespace ScopeScore

/-- The name that the grammar gives to a kind of node. Keywords and punctuation have kinds too
(the keyword `function` has the kind `"function"`), so a kind alone does not make a construct. -/
abbrev Kind := String

namespace Kind

/-! ## Single kinds -/

def program : Kind := "program"

def callExpression : Kind := "call_expression"

def ifStatement : Kind := "if_statement"

/-- Every binary operator shares this kind; the `operator` child tells them apart. -/
def binaryExpression : Kind := "binary_expression"

/-- Loops over keys and over values share this kind; the `operator` child tells them apart. -/
def forInStatement : Kind := "for_in_statement"

def variableDeclarator : Kind := "variable_declarator"

def assignmentExpression : Kind := "assignment_expression"

def memberExpression : Kind := "member_expression"

def subscriptExpression : Kind := "subscript_expression"

def parenthesizedExpression : Kind := "parenthesized_expression"

def thisExpression : Kind := "this"

def string : Kind := "string"

def stringFragment : Kind := "string_fragment"

def number : Kind := "number"

/-! ## Classes of kinds -/

/-- Functions of every spelling: declarations, expressions, generators and methods. -/
def functions : List Kind :=
  ["function", "function_declaration", "function_expression", "generator_function",
    "generator_function_declaration", "method_definition"]

/-- What opens a scope: a function or the whole program. -/
def scopes : List Kind := functions ++ [program]

/-- Constructs that branch whatever they contain. -/
def branches : List Kind :=
  ["catch_clause", "do_statement", "for_statement", "ternary_expression", "while_statement"]

/-- The alternatives of a switch. -/
def cases : List Kind := ["switch_case", "switch_default"]

/-- Access to a part of an object, by name or by index. -/
def members : List Kind := [memberExpression, subscriptExpression]

/-- Nodes whose text is a name. -/
def identifiers : List Kind :=
  ["identifier", "private_property_identifier", "property_identifier",
    "shorthand_property_identifier"]

/-! ## Membership -/

def isFunction (k : Kind) : Bool := functions.contains k

def isScope (k : Kind) : Bool := scopes.contains k

def isBranch (k : Kind) : Bool := branches.contains k

def isCase (k : Kind) : Bool := cases.contains k

def isMember (k : Kind) : Bool := members.contains k

def isIdentifier (k : Kind) : Bool := identifiers.contains k

/-- A scope is opened by a function or by the program, and by nothing else. -/
theorem isScope_iff (k : Kind) : k.isScope = true ↔ k.isFunction = true ∨ k = program := by
  simp [isScope, isFunction, scopes]

end Kind

end ScopeScore
