import Packwright.Shape

/-
  The traversal that all rewriting passes share: nodes in pre-order, fields in declaration order
  and skipped ones included, until a node asks to stop. A visitor may change a node's own data;
  the children it hands back are ignored in favour of the visited ones.
-/

namespace Packwright

namespace Field

/-- Fields with their shapes replaced, in order. -/
def withValues : List Field → List Shape → List Field
  | f :: fields, value :: values => mk f.info value :: withValues fields values
  | fields, _ => fields

end Field

namespace Shape

/-- The children of a node, in order. -/
def children : Shape → List Shape
  | struct _ fields => fields.map Field.value
  | map _ value => [value]
  | slice element => [element]
  | array _ element => [element]
  | ptr pointee => [pointee]
  | base _ => []

/-- A node with its children replaced, in order. -/
def withChildren : Shape → List Shape → Shape
  | struct info fields, values => struct info (Field.withValues fields values)
  | map key _, value :: _ => map key value
  | slice _, element :: _ => slice element
  | array info _, element :: _ => array info element
  | ptr _, pointee :: _ => ptr pointee
  | node, _ => node

/-- Visits a node and, if it asks to go on, its children. -/
def visitNode {σ : Type} (f : Shape → StateM σ (Shape × Bool)) (node : Shape)
    (below : StateM σ (List Shape × Bool)) : StateM σ (Shape × Bool) := do
  let (own, more) ← f node
  if more then
    let (visited, completed) ← below
    return (own.withChildren visited, completed)
  else
    return (own.withChildren node.children, false)

mutual

/-- Visits the nodes of a shape in pre-order until one asks to stop. The flag tells whether none
did. -/
def visit {σ : Type} (f : Shape → StateM σ (Shape × Bool)) : Shape → StateM σ (Shape × Bool)
  | struct info fields => visitNode f (struct info fields) (visitFields f fields)
  | map key value => visitNode f (map key value) do
    let (value, completed) ← visit f value
    return ([value], completed)
  | slice element => visitNode f (slice element) do
    let (element, completed) ← visit f element
    return ([element], completed)
  | array info element => visitNode f (array info element) do
    let (element, completed) ← visit f element
    return ([element], completed)
  | ptr pointee => visitNode f (ptr pointee) do
    let (pointee, completed) ← visit f pointee
    return ([pointee], completed)
  | base info => visitNode f (base info) (pure ([], true))

/-- Visits the shapes of fields in order; those after a stop are left as they are. -/
def visitFields {σ : Type} (f : Shape → StateM σ (Shape × Bool)) :
    List Field → StateM σ (List Shape × Bool)
  | [] => pure ([], true)
  | .mk _ value :: rest => do
    let (value, completed) ← visit f value
    if completed then
      let (values, completed) ← visitFields f rest
      return (value :: values, completed)
    else
      return (value :: rest.map Field.value, false)

end

/-- Changes every node's own data. -/
def mapNodes (f : Shape → Shape) (s : Shape) : Shape :=
  let step (node : Shape) : StateM Unit (Shape × Bool) := pure (f node, true)
  (Id.run ((visit step s).run ())).1.1

/-- Changes every node's own data, if it can be done at every node. -/
def mapNodes? (f : Shape → Option Shape) (s : Shape) : Option Shape :=
  let step (node : Shape) : StateM Unit (Shape × Bool) :=
    match f node with
    | some changed => pure (changed, true)
    | none => pure (node, false)
  match (Id.run ((visit step s).run ())).1 with
  | (changed, true) => some changed
  | (_, false) => none

end Shape

end Packwright
