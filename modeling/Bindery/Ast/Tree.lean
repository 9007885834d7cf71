import Bindery.Ast.Unit

/-! The tree that the child lists of a unit form below its root. -/

set_option autoImplicit false

namespace Bindery.Ast

inductive CursorTree where
  | node (id : CursorId) (children : List CursorTree)

namespace CursorTree

def id : CursorTree → CursorId
  | .node id _ => id

def children : CursorTree → List CursorTree
  | .node _ children => children

mutual

/-- The cursors of a tree, each before those below it. -/
def preorder : CursorTree → List CursorId
  | .node id children => id :: preorderAll children

def preorderAll : List CursorTree → List CursorId
  | [] => []
  | tree :: rest => preorder tree ++ preorderAll rest

end

end CursorTree

namespace TranslationUnit

/-- The tree below a cursor, cut at a depth. -/
def treeBelow (u : TranslationUnit) : Nat → CursorId → CursorTree
  | 0, id => .node id []
  | depth + 1, id =>
    .node id (((u.cursor? id).map (·.children)).getD [] |>.map (u.treeBelow depth))

/-- The tree below the root. Where the child lists do form a tree, no path in it is longer than the
table of cursors, and nothing is cut. -/
def tree (u : TranslationUnit) : CursorTree := u.treeBelow u.cursors.size u.root

end TranslationUnit

end Bindery.Ast
