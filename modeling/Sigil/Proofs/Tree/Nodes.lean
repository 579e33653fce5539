import Mathlib.Data.Set.Basic
import Sigil.Text.Charset
import Sigil.Tree.Basic

/-!
# The nodes of a tree

What is said about every part of a program is said about its nodes: the expressions
and statements in it, at any depth.  The names of a program are those of its nodes.
A template has no names in its tree; they are looked for in its text.
-/

namespace Sigil

inductive Node where
  | expr (expr : Expr)
  | stmt (statement : Stmt)

/-- An expression and the expressions inside it. -/
def Expr.nodes (expr : Expr) : List Node :=
  .expr expr :: match expr with
    | .assign _ _ value _ => value.nodes
    | .logical left _ right _ => left.nodes ++ right.nodes
    | .conditional condition left right => condition.nodes ++ (left.nodes ++ right.nodes)
    | .binary left _ right _ => left.nodes ++ right.nodes
    | .unary _ operand _ => operand.nodes
    | .reference .. => []
    | .literal _ => []
    | .template _ => []
    | .grouping inner => inner.nodes

def Expr.nodes? : Option Expr → List Node
  | none => []
  | some expr => expr.nodes

mutual
/-- A statement and everything inside it. -/
def Stmt.nodes (statement : Stmt) : List Node :=
  .stmt statement :: match statement with
    | .expression expr => expr.nodes
    | .console expr => expr.nodes
    | .declaration _ _ initializer _ => Expr.nodes? initializer
    | .block statements => Stmt.nodesAll statements
    | .ifThen condition thenBranch elseBranch =>
      condition.nodes ++ (Stmt.nodes? thenBranch ++ Stmt.nodes? elseBranch)
    | .whileLoop condition body => condition.nodes ++ Stmt.nodes? body
    | .forLoop initializer condition increment body =>
      Stmt.nodesAll initializer ++ (condition.nodes ++ (Expr.nodes? increment ++ Stmt.nodes? body))
    | .breakLoop _ => []
    | .continueLoop _ => []

def Stmt.nodes? : Option Stmt → List Node
  | none => []
  | some statement => statement.nodes

def Stmt.nodesAll : List Stmt → List Node
  | [] => []
  | statement :: statements => statement.nodes ++ Stmt.nodesAll statements
end

theorem Expr.mem_nodes (expr : Expr) : .expr expr ∈ expr.nodes := by
  cases expr <;> rw [nodes] <;> exact List.mem_cons_self

theorem Stmt.mem_nodes (statement : Stmt) : .stmt statement ∈ statement.nodes := by
  cases statement <;> rw [nodes] <;> exact List.mem_cons_self

@[simp] theorem Stmt.nodesAll_nil : nodesAll [] = [] := by
  rw [nodesAll]

@[simp] theorem Stmt.nodesAll_cons (statement : Stmt) (statements : List Stmt) :
    nodesAll (statement :: statements) = statement.nodes ++ nodesAll statements := by
  rw [nodesAll]

@[simp] theorem Stmt.nodesAll_append (front back : List Stmt) :
    nodesAll (front ++ back) = nodesAll front ++ nodesAll back := by
  induction front with
  | nil => rw [nodesAll_nil, List.nil_append, List.nil_append]
  | cons statement front ih =>
      rw [List.cons_append, nodesAll_cons, ih, nodesAll_cons, List.append_assoc]

theorem Stmt.nodesAll_toList (statement : Option Stmt) :
    nodesAll statement.toList = nodes? statement := by
  cases statement <;> simp [nodes?]

theorem Stmt.mem_nodesAll {statement : Stmt} {statements : List Stmt} (h : statement ∈ statements)
    {node : Node} (hnode : node ∈ statement.nodes) : node ∈ nodesAll statements := by
  induction statements with
  | nil => cases h
  | cons first others ih =>
      rw [nodesAll_cons, List.mem_append]
      rcases List.mem_cons.mp h with rfl | h
      · exact .inl hnode
      · exact .inr (ih h)

/-! ### Names -/

/-- The names that a template refers to: each sigil with the longest run of name characters after
it, if that is not empty. -/
def templateNames (text : String) : Set String :=
  { name | ∃ before run after, text.toList = before ++ '@' :: (run ++ after) ∧ run ≠ [] ∧
    (∀ c ∈ run, isNameChar c = true) ∧ (∀ c ∈ after.head?, isNameChar c = false) ∧
    name = String.ofList ('@' :: run) }

/-- The names that a node has itself. -/
def Node.names : Node → Set String
  | .expr (.reference name _) => {name}
  | .expr (.assign name _ _ _) => {name}
  | .expr (.template text) => templateNames text
  | .stmt (.declaration name _ _ _) => {name}
  | _ => ∅

/-- The names that occur in a program. -/
def programNames (statements : List Stmt) : Set String :=
  { name | ∃ node ∈ Stmt.nodesAll statements, name ∈ node.names }

theorem names_subset_programNames {statements : List Stmt} {node : Node}
    (h : node ∈ Stmt.nodesAll statements) : node.names ⊆ programNames statements :=
  fun _ hname ↦ ⟨node, h, hname⟩

end Sigil
