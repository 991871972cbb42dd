import DocumentTree.Store.Mutation

/-!
# Containers

A container holds a store and the node at its top. The first node attached becomes the root; a
second one makes a synthetic root element that collects them. Unlike the operations on the store,
one of a container can be refused half way, and what was done before stays done.

## Main definitions

* `Container` — a store, its root, and the index of the nodes attached at the top level.
* `Index.set` — an entry of an index.
* `Act` — a sequence of steps on a container, which stops at the first refusal.
* `Container.link`, `Container.enter` — the two halves of an attachment at the top level.
* `Container.append`, `Container.insertBefore`, `Container.remove`, `Container.clear`.
-/

namespace DocumentTree

/-- Nodes under numbers. -/
abbrev Index := List (Nat × Handle)

/-- A node under a number: in place of the node there if there is one, at the end otherwise. -/
def Index.set (number : Nat) (node : Handle) : Index → Index
  | [] => [(number, node)]
  | (n, old) :: rest =>
    if n = number then (n, node) :: rest else (n, old) :: set number node rest

/-- A store with a root. -/
structure Container where
  /-- The arena of all nodes. -/
  store : Store := {}
  /-- The node at the top, if there is one. -/
  root : Option Handle := none
  /-- The nodes attached at the top level. Each is entered under the number of entries before it. -/
  nodes : Index := []

/-- The answer of steps on a container: the container afterwards, the reports, and the result. -/
structure Reply (α : Type) where
  /-- The container afterwards, also when the steps were refused. -/
  after : Container
  /-- The reports of the steps, in order. -/
  notices : List StoreNotice
  /-- The result, or the refusal. -/
  result : Except StoreError α

/-- Steps on a container. -/
def Act (α : Type) := Container → Reply α

namespace Act

/-- Steps that do nothing. -/
protected def pure {α : Type} (a : α) : Act α := fun c => ⟨c, [], .ok a⟩

/-- Steps after steps. A refusal ends the sequence and keeps what was done. -/
protected def bind {α β : Type} (x : Act α) (f : α → Act β) : Act β := fun c =>
  let first := x c
  match first.result with
  | .error e => ⟨first.after, first.notices, .error e⟩
  | .ok a =>
    let second := f a first.after
    ⟨second.after, first.notices ++ second.notices, second.result⟩

instance : Monad Act where
  pure := Act.pure
  bind := Act.bind

/-- A refusal. -/
def refuse {α : Type} (e : StoreError) : Act α := fun c => ⟨c, [], .error e⟩

/-- A report. -/
def report (notice : StoreNotice) : Act Unit := fun c => ⟨c, [notice], .ok ()⟩

/-- A change of the container that cannot be refused. -/
def change (f : Container → Container) : Act Unit := fun c => ⟨f c, [], .ok ()⟩

/-- A question to the store. -/
def ask {α : Type} (f : Store → Except StoreError α) : Act α := fun c => ⟨c, [], f c.store⟩

/-- An operation on the store that gives a result. -/
def onStore {α : Type} (f : Store → Except StoreError (α × Store)) : Act α := fun c =>
  match f c.store with
  | .ok (a, s) => ⟨{ c with store := s }, [], .ok a⟩
  | .error e => ⟨c, [], .error e⟩

/-- An operation on the store that only changes it. -/
def onStore_ (f : Store → Except StoreError Store) : Act Unit :=
  onStore fun s => (f s).map fun s => ((), s)

/-- An operation on the store that changes it and reports. -/
def onStoreReporting (f : Store → Except StoreError (Store × List StoreNotice)) : Act Unit :=
  fun c =>
    match f c.store with
    | .ok (s, notices) => ⟨{ c with store := s }, notices, .ok ()⟩
    | .error e => ⟨c, [], .error e⟩

end Act

namespace Container

/-- The root as it is shown; null when there is none. -/
def rootHandle (c : Container) : Value :=
  match c.root with
  | some root => root.given
  | none => .null

/-- Whether the root is an element of the root role, which collects top-level nodes. -/
def rootCollects (c : Container) : Bool :=
  match c.root with
  | none => false
  | some root => ((c.store.get? root.id).bind Record.role?) == some .root

/-- A new root element without children. -/
def newRoot : Act Handle := do
  let n ← Act.onStore fun s => s.createElement Role.root.toValue .null
  return .ofId n

/-- A node linked at the top level. It becomes the root if there is none; a root element gets it as
its last child; any other root is put under a new root element together with it. -/
def link (node : Value) : Act Unit := fun c =>
  match c.root with
  | none =>
    (do
      let (h, _) ← Act.ask fun s => s.find node
      Act.change fun c => { c with root := some h }) c
  | some root =>
    if c.rootCollects then Act.onStore_ (fun s => s.appendChild root.given node) c
    else
      (do
        let wrapper ← newRoot
        Act.onStore_ fun s => s.appendChild wrapper.given root.given
        Act.onStore_ fun s => s.appendChild wrapper.given node
        Act.change fun c => { c with root := some wrapper }
        Act.report (.wrapped wrapper.id)) c

/-- A node entered in the index. -/
def enter (node : Value) : Act Unit := do
  let (h, _) ← Act.ask fun s => s.find node
  Act.change fun c => { c with nodes := c.nodes.set c.nodes.length h }

/-- A node attached at the top level. -/
def append (node : Value) : Act Unit := do
  link node
  enter node

/-- A node inserted at the top level before another one. Only a root element that holds the
reference takes it; otherwise nothing happens. -/
def insertBefore (node reference : Value) : Act Unit := fun c =>
  match c.root with
  | some root =>
    if c.rootCollects then
      Act.onStoreReporting (fun s => s.insertBefore root.given node reference) c
    else Act.report .topInsertIgnored c
  | none => Act.report .topInsertIgnored c

/-- A fresh root element in place of the root, and an empty index. -/
def clear : Act Unit := do
  let root ← newRoot
  Act.change fun c => { c with root := some root, nodes := [] }

/-- The removal of a top-level node, which resets the container. -/
def remove (node : Value) : Act Unit := do
  Act.report (.topRemoved node)
  clear

end Container

end DocumentTree
