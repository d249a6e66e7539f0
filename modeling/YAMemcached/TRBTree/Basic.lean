import YAMemcached.Util.Except
import YAMemcached.Util.RedBlack

/-!
This module contains `TRBTree`: links with the color and the trail tag of a node in their low bits, the
tree object as a node whose left link is `pRoot`, and the operations on them.
-/

namespace TRBTree

open RedBlack

abbrev Word := BitVec 64

/--
An address that leaves the low bits of a link to the tags.
-/
structure Pointer where
  word : Word
  aligned : word &&& 3#64 = 0#64
deriving DecidableEq, Repr

namespace Pointer

def null : Pointer := ⟨0#64, by decide⟩

def ofWord (w : Word) : Pointer where
  word := w &&& ~~~3#64
  aligned := by
    rw [BitVec.and_assoc]
    exact BitVec.and_zero

end Pointer

/--
`endless` is a loop that goes on when every node of the tree was passed.
-/
inductive Fault where
  | outOfBounds
  | invalidAccess
  | endless
deriving DecidableEq, Repr

inductive TRBTreeNodeTrailTag where
  | TRB_CHILD
  | TRB_TRAIL
  | TRB_TAG_MAX
deriving DecidableEq, Repr

open TRBTreeNodeTrailTag

structure TRBTreeNode (Key T : Type) where
  pLinks : Side → Word
  first : Key
  second : T

variable {Key T : Type}

namespace TRBTreeNode

def getLink (n : TRBTreeNode Key T) (childSide : Side) : Pointer := .ofWord (n.pLinks childSide)

def getTrailTag (n : TRBTreeNode Key T) (childSide : Side) : TRBTreeNodeTrailTag :=
  if n.pLinks childSide &&& 2#64 ≠ 0#64 then TRB_TRAIL else TRB_CHILD

def getColor (n : TRBTreeNode Key T) : Color :=
  if n.pLinks .left &&& 1#64 ≠ 0#64 then .red else .black

def setLink (n : TRBTreeNode Key T) (pLink : Pointer) (childSide : Side) (threadTag : TRBTreeNodeTrailTag)
    : TRBTreeNode Key T :=
  let tag :=
    if threadTag = TRB_TAG_MAX then if n.getTrailTag childSide = TRB_TRAIL then 2#64 else 0#64
    else if threadTag = TRB_TRAIL then 2#64 else 0#64
  { n with
    pLinks := Function.update n.pLinks childSide
      (pLink.word &&& ~~~3#64 ||| tag ||| if n.getColor = .red then 1#64 else 0#64) }

def setTrailTag (n : TRBTreeNode Key T) (childSide : Side) (threadTag : TRBTreeNodeTrailTag)
    : TRBTreeNode Key T :=
  { n with
    pLinks := Function.update n.pLinks childSide
      (n.pLinks childSide &&& ~~~2#64 ||| if threadTag = TRB_TRAIL then 2#64 else 0#64) }

def setColor (n : TRBTreeNode Key T) (color : Color) : TRBTreeNode Key T :=
  { n with
    pLinks := Function.update n.pLinks .left
      (n.pLinks .left &&& ~~~1#64 ||| if color = .red then 1#64 else 0#64) }

end TRBTreeNode

/--
The memory of a tree: its nodes, and the tree object as a node, whose right link and whose data are
what follows `pRoot`.
-/
structure Tree (Key T : Type) where
  cells : Pointer → Option (TRBTreeNode Key T)
  object : Pointer
  numElements : Nat

/--
The ancestors `pa` with the directions `da`, the last one first.
-/
abbrev Stack := List (Pointer × Side)

def maxHeight : Nat := 48

def Stack.push (maxHeight : Nat) (stack : Stack) (p : Pointer) (dir : Side) : Except Fault Stack :=
  if stack.length < maxHeight then .ok ((p, dir) :: stack) else .error .outOfBounds

def Stack.last (stack : Stack) : Except Fault (Pointer × Side) :=
  match stack with
  | [] => .error .outOfBounds
  | e :: _ => .ok e

namespace Tree

def read (tree : Tree Key T) (p : Pointer) : Except Fault (TRBTreeNode Key T) :=
  match tree.cells p with
  | none => .error .invalidAccess
  | some n => .ok n

def modify (tree : Tree Key T) (p : Pointer) (f : TRBTreeNode Key T → TRBTreeNode Key T)
    : Except Fault (Tree Key T) :=
  match tree.cells p with
  | none => .error .invalidAccess
  | some n => .ok { tree with cells := Function.update tree.cells p (some (f n)) }

def getLink (tree : Tree Key T) (p : Pointer) (childSide : Side) : Except Fault Pointer := do
  let n ← tree.read p
  return n.getLink childSide

def getTrailTag (tree : Tree Key T) (p : Pointer) (childSide : Side)
    : Except Fault TRBTreeNodeTrailTag := do
  let n ← tree.read p
  return n.getTrailTag childSide

def getColor (tree : Tree Key T) (p : Pointer) : Except Fault Color := do
  let n ← tree.read p
  return n.getColor

def setLink (tree : Tree Key T) (p pLink : Pointer) (childSide : Side) : Except Fault (Tree Key T) :=
  tree.modify p (fun n => n.setLink pLink childSide TRB_TAG_MAX)

def setTrailTag (tree : Tree Key T) (p : Pointer) (childSide : Side) (threadTag : TRBTreeNodeTrailTag)
    : Except Fault (Tree Key T) :=
  tree.modify p (fun n => n.setTrailTag childSide threadTag)

def setColor (tree : Tree Key T) (p : Pointer) (color : Color) : Except Fault (Tree Key T) :=
  tree.modify p (fun n => n.setColor color)

def pRoot (tree : Tree Key T) : Except Fault Word := do
  let n ← tree.read tree.object
  return n.pLinks .left

def root (tree : Tree Key T) : Except Fault Pointer := do
  let w ← tree.pRoot
  if h : w &&& 3#64 = 0#64 then return ⟨w, h⟩ else throw .invalidAccess

def blackenRoot (tree : Tree Key T) : Except Fault (Tree Key T) := do
  tree.setColor (← tree.root) .black

def redChild (tree : Tree Key T) (p : Pointer) (childSide : Side) : Except Fault Bool := do
  if (← tree.getTrailTag p childSide) = TRB_CHILD then
    return (← tree.getColor (← tree.getLink p childSide)) == .red
  else return false

def anyRedChild (tree : Tree Key T) (p : Pointer) : Except Fault Bool := do
  if ← tree.redChild p .left then return true
  else tree.redChild p .right

/--
`y`, the child of `x` on this side, comes up to the link of `q`.
-/
def rotate (tree : Tree Key T) (x y : Pointer) (side : Side) (q : Pointer) (dir : Side)
    : Except Fault (Tree Key T) := do
  let tree ← tree.setLink x (← tree.getLink y side.other) side
  let tree ← tree.setLink y x side.other
  tree.setLink q y dir

/--
A thread of `y` that has become a link to its child `x` becomes a child, and the link of `x` a thread.
-/
def rethread (tree : Tree Key T) (x y : Pointer) (side : Side) : Except Fault (Tree Key T) := do
  if (← tree.getTrailTag y side.other) = TRB_TRAIL then
    let tree ← tree.setTrailTag y side.other TRB_CHILD
    let tree ← tree.setTrailTag x side TRB_TRAIL
    tree.setLink x y side
  else return tree

/-! ### try_find -/

section

variable (comparator : Key → Key → Bool)

def findDescent (tree : Tree Key T) (key : Key) : Nat → Pointer → Except Fault Pointer
  | 0, _ => throw .endless
  | fuel + 1, p => do
    let n ← tree.read p
    let itemLessThan := comparator key n.first
    let itemGreaterThan := comparator n.first key
    if itemLessThan ∨ itemGreaterThan then
      let dir := if itemLessThan then Side.left else Side.right
      if n.getTrailTag dir = TRB_TRAIL then return .null
      else findDescent tree key fuel (n.getLink dir)
    else return p

def tryFind (tree : Tree Key T) (key : Key) : Except Fault Pointer := do
  if (← tree.pRoot) = 0#64 then return .null
  else findDescent comparator tree key tree.numElements (← tree.root)

/-! ### try_insert -/

inductive Descent where
  | found (p : Pointer)
  | missing (stack : Stack)

def insertDescent (tree : Tree Key T) (key : Key) : Nat → Pointer → Stack → Except Fault Descent
  | room, p, stack => do
    let n ← tree.read p
    let itemKeyLess := comparator key n.first
    let itemKeyMore := comparator n.first key
    if !itemKeyLess && !itemKeyMore then return .found p
    else
      match room with
      | 0 => throw .outOfBounds
      | room + 1 =>
        let dir := if itemKeyMore then Side.right else Side.left
        let stack := (p, dir) :: stack
        if n.getTrailTag dir = TRB_TRAIL then return .missing stack
        else insertDescent tree key room (n.getLink dir) stack

def linkBack (tree : Tree Key T) (n p : Pointer) (dir : Side) : Except Fault (Tree Key T) := do
  if (← tree.pRoot) ≠ 0#64 then
    let tree ← tree.setTrailTag p dir TRB_CHILD
    tree.setLink n p dir.other
  else tree.setLink n .null .right

def link (tree : Tree Key T) (item : Key × T) (n p : Pointer) (dir : Side) : Except Fault (Tree Key T) := do
  let tree := { tree with
    cells := Function.update tree.cells n (some ⟨fun _ => 0#64, item.1, item.2⟩)
    numElements := tree.numElements + 1 }
  let tree ← tree.setTrailTag n .left TRB_TRAIL
  let tree ← tree.setTrailTag n .right TRB_TRAIL
  let tree ← tree.setLink n (← tree.getLink p dir) dir
  let tree ← tree.linkBack n p dir
  let tree ← tree.setLink p n dir
  tree.setColor n .red

/--
A child on the inner side comes up, so that `y`, which is red as its parent is, is on the outer side.
-/
def insertTurn (tree : Tree Key T) (parent : Pointer) (dirParent : Side) (grand : Pointer) (side : Side)
    : Except Fault (Pointer × Tree Key T) := do
  if dirParent = side then return (parent, tree)
  else
    let y ← tree.getLink parent side.other
    let tree ← tree.rotate parent y side.other grand side
    let tree ← tree.rethread parent y side.other
    return (y, tree)

/--
The loop that rebalances the tree after an insertion, of which the two halves are mirror images.
-/
def insertRebalance (tree : Tree Key T) : Stack → Except Fault (Tree Key T)
  | (parent, dirParent) :: (grand, side) :: (great, dirGreat) :: stack => do
    if (← tree.getColor parent) = .red then
      let y ← tree.getLink grand side.other
      if ← tree.redChild grand side.other then
        let tree ← tree.setColor parent .black
        let tree ← tree.setColor y .black
        let tree ← tree.setColor grand .red
        insertRebalance tree ((great, dirGreat) :: stack)
      else
        let (y, tree) ← tree.insertTurn parent dirParent grand side
        let tree ← tree.setColor grand .red
        let tree ← tree.setColor y .black
        let tree ← tree.rotate grand y side great dirGreat
        tree.rethread grand y side
    else return tree
  | _ => return tree

def insertPlace (maxHeight : Nat) (tree : Tree Key T) (key : Key) (stack : Stack) : Except Fault Descent := do
  if (← tree.pRoot) ≠ 0#64 then
    insertDescent comparator tree key (maxHeight - stack.length) (← tree.root) stack
  else return .missing stack

def tryInsert (maxHeight : Nat) (tree : Tree Key T) (item : Key × T) (n : Pointer)
    : Except Fault (Pointer × Tree Key T) := do
  let stack ← Stack.push maxHeight [] tree.object .left
  match ← insertPlace comparator maxHeight tree item.1 stack with
  | .found p => return (p, tree)
  | .missing stack =>
    let (p, dir) ← stack.last
    let tree ← tree.link item n p dir
    let tree ← tree.insertRebalance stack
    let tree ← tree.blackenRoot
    return (n, tree)

/-! ### try_remove -/

/--
The loop that looks for a key from the tree object on, `none` if there is no node with it.
-/
def removeDescent (tree : Tree Key T) (key : Key)
    : Nat → Pointer → Stack → Except Fault (Option (Pointer × Stack))
  | room, p, stack => do
    let n ← tree.read p
    let itemLessThan := comparator key n.first
    let itemGreaterThan := comparator n.first key
    if itemLessThan ∨ itemGreaterThan then
      match room with
      | 0 => throw .outOfBounds
      | room + 1 =>
        let dir := if itemLessThan then Side.left else Side.right
        let stack := (p, dir) :: stack
        if n.getTrailTag dir = TRB_TRAIL then return none
        else removeDescent tree key room (n.getLink dir) stack
    else return some (p, stack)

def lastNode (tree : Tree Key T) : Nat → Pointer → Except Fault Pointer
  | 0, _ => throw .endless
  | fuel + 1, t => do
    if (← tree.getTrailTag t .right) = TRB_CHILD then lastNode tree fuel (← tree.getLink t .right)
    else return t

/--
The loop that looks for the first node below `r`: its parent, the node, and what is pushed.
-/
def firstNode (tree : Tree Key T) : Nat → Pointer → Stack → Except Fault (Pointer × Pointer × Stack)
  | 0, _, _ => throw .outOfBounds
  | room + 1, r, pushed => do
    let pushed := (r, .left) :: pushed
    let s ← tree.getLink r .left
    if (← tree.getTrailTag s .left) = TRB_TRAIL then return (r, s, pushed)
    else firstNode tree room s pushed

def unlinkLast (tree : Tree Key T) (p : Pointer) (stack : Stack) : Except Fault (Tree Key T × Stack) := do
  if (← tree.getTrailTag p .left) = TRB_CHILD then
    let t ← tree.lastNode tree.numElements (← tree.getLink p .left)
    let tree ← tree.setLink t (← tree.getLink p .right) .right
    let (q, dir) ← stack.last
    let tree ← tree.setLink q (← tree.getLink p .left) dir
    return (tree, stack)
  else
    let (q, dir) ← stack.last
    let tree ← tree.setLink q (← tree.getLink p dir) dir
    let tree ← if q ≠ tree.object then tree.setTrailTag q dir TRB_TRAIL else pure tree
    return (tree, stack)

def swapColors (tree : Tree Key T) (p r : Pointer) : Except Fault (Tree Key T) := do
  let t ← tree.getColor r
  let tree ← tree.setColor r (← tree.getColor p)
  tree.setColor p t

def unlinkChild (maxHeight : Nat) (tree : Tree Key T) (p r : Pointer) (stack : Stack)
    : Except Fault (Tree Key T × Stack) := do
  let tree ← tree.setLink r (← tree.getLink p .left) .left
  let tree ← tree.setTrailTag r .left (← tree.getTrailTag p .left)
  let tree ←
    if (← tree.getTrailTag r .left) = TRB_CHILD then do
      let t ← tree.lastNode tree.numElements (← tree.getLink r .left)
      tree.setLink t r .right
    else pure tree
  let (q, dir) ← stack.last
  let tree ← tree.setLink q r dir
  let tree ← tree.swapColors p r
  let stack ← stack.push maxHeight r .right
  return (tree, stack)

def leaveParent (tree : Tree Key T) (r s : Pointer) : Except Fault (Tree Key T) := do
  if (← tree.getTrailTag s .right) = TRB_CHILD then tree.setLink r (← tree.getLink s .right) .left
  else
    let tree ← tree.setLink r s .left
    tree.setTrailTag r .left TRB_TRAIL

def takeLeft (tree : Tree Key T) (p s : Pointer) : Except Fault (Tree Key T) := do
  let tree ← tree.setLink s (← tree.getLink p .left) .left
  if (← tree.getTrailTag p .left) = TRB_CHILD then
    let t ← tree.lastNode tree.numElements (← tree.getLink p .left)
    let tree ← tree.setLink t s .right
    tree.setTrailTag s .left TRB_CHILD
  else return tree

/--
A node is unlinked whose right child `r` has a child on the left: the first node below `r` takes its
place, and the entry `j` of the stack, which is left out until then.
-/
def unlinkFirst (maxHeight : Nat) (tree : Tree Key T) (p r : Pointer) (stack : Stack)
    : Except Fault (Tree Key T × Stack) := do
  let (r, s, pushed) ← tree.firstNode (maxHeight - (stack.length + 1)) r []
  let tree ← tree.leaveParent r s
  let tree ← tree.takeLeft p s
  let tree ← tree.setLink s (← tree.getLink p .right) .right
  let tree ← tree.setTrailTag s .right TRB_CHILD
  let tree ← tree.swapColors p s
  let (q, dir) ← stack.last
  let tree ← tree.setLink q s dir
  return (tree, pushed ++ (s, .right) :: stack)

def unlink (maxHeight : Nat) (tree : Tree Key T) (p : Pointer) (stack : Stack)
    : Except Fault (Tree Key T × Stack) := do
  if (← tree.getTrailTag p .right) = TRB_TRAIL then tree.unlinkLast p stack
  else
    let r ← tree.getLink p .right
    if (← tree.getTrailTag r .left) = TRB_TRAIL then unlinkChild maxHeight tree p r stack
    else unlinkFirst maxHeight tree p r stack

/--
A thread of `y` that has become a link to its child becomes a child, and the link of the child a thread.
Both halves look at the right link of `y`, which is on the other side in the first one only.
-/
def removeThread (tree : Tree Key T) (y : Pointer) (side : Side) : Except Fault (Tree Key T) := do
  if (← tree.getTrailTag y .right) = TRB_TRAIL then
    let tree ← tree.setTrailTag y side.other TRB_CHILD
    let tree ← tree.setTrailTag (← tree.getLink y side.other) side TRB_TRAIL
    tree.setLink (← tree.getLink y side.other) y side
  else return tree

/--
A red child of the sibling `w` on the inner side comes up, so that the sibling has one on the outer side.
-/
def removeTurn (tree : Tree Key T) (w q : Pointer) (side : Side) : Except Fault (Pointer × Tree Key T) := do
  if ← tree.redChild w side.other then return (w, tree)
  else
    let y ← tree.getLink w side
    let tree ← tree.setColor y .black
    let tree ← tree.setColor w .red
    let tree ← tree.rotate w y side q side.other
    let tree ← tree.removeThread y side
    return (y, tree)

/--
The sibling `w` has a red child: after the rotations all ways down have enough black nodes.
-/
def removeRotate (tree : Tree Key T) (w q : Pointer) (side : Side) (up : Pointer) (dirUp : Side)
    : Except Fault (Tree Key T) := do
  let (w, tree) ← tree.removeTurn w q side
  let tree ← tree.setColor w (← tree.getColor q)
  let tree ← tree.setColor q .black
  let tree ← tree.setColor (← tree.getLink w side.other) .black
  let tree ← tree.rotate q w side.other up dirUp
  tree.rethread q w side.other

/--
A sibling `w` that is red comes up, so that `q` gets a black one. `w` takes the place of `q` on the stack,
and `q` is pushed.
-/
def removeLift (maxHeight : Nat) (tree : Tree Key T) (w q : Pointer) (side : Side) (up : Pointer)
    (dirUp : Side) (stack : Stack) : Except Fault (Pointer × Tree Key T × Stack) := do
  let tree ← tree.setColor w .black
  let tree ← tree.setColor q .red
  let tree ← tree.rotate q w side.other up dirUp
  let stack ← Stack.push maxHeight ((w, side) :: (up, dirUp) :: stack) q side
  let w ← tree.getLink q side.other
  return (w, tree, stack)

def removeSibling (maxHeight : Nat) (tree : Tree Key T) (q : Pointer) (side : Side) (up : Pointer)
    (dirUp : Side) (stack : Stack) : Except Fault (Pointer × Tree Key T × Stack) := do
  let w ← tree.getLink q side.other
  if (← tree.getColor w) = .red then removeLift maxHeight tree w q side up dirUp stack
  else return (w, tree, (q, side) :: (up, dirUp) :: stack)

/--
The loop that rebalances the tree after a removal, of which the two halves are mirror images but for
one test.
-/
def removeRebalance (maxHeight : Nat) (tree : Tree Key T) : Nat → Stack → Except Fault (Tree Key T)
  | 0, _ => throw .endless
  | fuel + 1, (q, side) :: (up, dirUp) :: stack => do
    if ← tree.redChild q side then
      tree.setColor (← tree.getLink q side) .black
    else
      let (w, tree, stack) ← removeSibling maxHeight tree q side up dirUp stack
      if ← tree.anyRedChild w then
        let (up, dirUp) ← Stack.last stack.tail
        tree.removeRotate w q side up dirUp
      else
        let tree ← tree.setColor w .red
        removeRebalance maxHeight tree fuel stack.tail
  | _, _ => return tree

def tryRemove (maxHeight : Nat) (tree : Tree Key T) (key : Key) : Except Fault (Pointer × Tree Key T) := do
  if (← tree.pRoot) = 0#64 then return (.null, tree)
  else
    match ← removeDescent comparator tree key maxHeight tree.object [] with
    | none => return (.null, tree)
    | some (res, stack) =>
      let (tree, stack) ← tree.unlink maxHeight res stack
      let tree ←
        if (← tree.getColor res) = .black then do
          let tree ← tree.removeRebalance maxHeight (stack.length + 1) stack
          if (← tree.pRoot) ≠ 0#64 then tree.blackenRoot else pure tree
        else pure tree
      return (.null, { tree with
        cells := Function.update tree.cells res none
        numElements := tree.numElements - 1 })

end

end Tree

end TRBTree
