import BindLint.Syntax.Node

/-!
# Places in a tree

Two nodes that look alike may stand at different places of one tree, and what a
closure means depends on what stands around it.  A `Place` is a node together
with the path from it up to the root: one `Frame` for each ancestor, the parent
first, each holding the ancestor's label and the siblings on both sides.  A place
therefore determines its whole tree.

## Main definitions

* `Frame`, `Frame.fill`, `Node.holeAt` — an ancestor with a hole where one child was.
* `Place`, `Place.root` — a node in its tree.
* `Place.under` — a place of a tree that hangs in a hole.
* `Node.places` — all places of a tree in depth-first pre-order.

## Main results

* `Place.root_of_mem_places` — every place of a tree has that tree as its root.
* `Node.places_eq` — the order of the places: a node first, then child by child.
-/

namespace BindLint

/-- An ancestor with a hole where one child was. -/
structure Frame where
  /-- What the ancestor says about itself. -/
  label : Label
  /-- The children before the hole, the nearest first. -/
  before : List Node
  /-- The children after the hole, the nearest first. -/
  after : List Node
  deriving Repr, Inhabited

/-- The ancestor with a node put into the hole. -/
def Frame.fill (f : Frame) (n : Node) : Node :=
  .mk f.label (f.before.reverse ++ n :: f.after)

/-- A node together with everything around it. -/
structure Place where
  /-- The node. -/
  node : Node
  /-- Its ancestors, the parent first. -/
  above : List Frame
  deriving Repr, Inhabited

namespace Place

/-- The whole tree that a node and the frames above it belong to. -/
def rootOf : Node → List Frame → Node
  | n, [] => n
  | n, f :: fs => rootOf (f.fill n) fs

/-- The whole tree. -/
def root (p : Place) : Node := rootOf p.node p.above

/-- A place of a tree that hangs in a hole. -/
def under (f : Frame) (p : Place) : Place := ⟨p.node, p.above ++ [f]⟩

end Place

namespace Node

mutual

/-- The places of a node and of all nodes below it, in depth-first pre-order,
under given frames. -/
def placesUnder (above : List Frame) : Node → List Place
  | mk l cs => ⟨mk l cs, above⟩ :: placesAmong l above [] cs

/-- The places of the remaining children of a node, and of all nodes below them. -/
def placesAmong (l : Label) (above : List Frame) : List Node → List Node → List Place
  | _, [] => []
  | before, c :: after =>
      placesUnder (⟨l, before, after⟩ :: above) c ++ placesAmong l above (c :: before) after

end

/-- All places of a tree, in depth-first pre-order. -/
def places (root : Node) : List Place := root.placesUnder []

end Node

namespace Place

mutual

theorem rootOf_of_mem_placesUnder (above : List Frame) (n : Node) :
    ∀ p ∈ n.placesUnder above, p.root = rootOf n above := by
  cases n with
  | mk l cs =>
    intro p hp
    rw [Node.placesUnder, List.mem_cons] at hp
    rcases hp with rfl | hp
    · rfl
    · simpa using rootOf_of_mem_placesAmong l above [] cs p hp

theorem rootOf_of_mem_placesAmong (l : Label) (above : List Frame) (before cs : List Node) :
    ∀ p ∈ Node.placesAmong l above before cs,
      p.root = rootOf (.mk l (before.reverse ++ cs)) above := by
  cases cs with
  | nil => simp [Node.placesAmong]
  | cons c after =>
    intro p hp
    rw [Node.placesAmong, List.mem_append] at hp
    rcases hp with hp | hp
    · rw [rootOf_of_mem_placesUnder _ c p hp, rootOf, Frame.fill]
    · rw [rootOf_of_mem_placesAmong l above (c :: before) after p hp]
      simp

end

/-- Every place of a tree has that tree as its root. -/
theorem root_of_mem_places {root : Node} {p : Place} (h : p ∈ root.places) : p.root = root :=
  rootOf_of_mem_placesUnder [] root p h

end Place

/-! ### The order of the places -/

namespace Node

mutual

theorem placesUnder_append (f : Frame) (above : List Frame) (n : Node) :
    n.placesUnder (above ++ [f]) = (n.placesUnder above).map (Place.under f) := by
  cases n with
  | mk l cs =>
    rw [placesUnder, placesUnder, placesAmong_append f l above [] cs, List.map_cons]
    rfl

theorem placesAmong_append (f : Frame) (l : Label) (above : List Frame) (before cs : List Node) :
    placesAmong l (above ++ [f]) before cs =
      (placesAmong l above before cs).map (Place.under f) := by
  cases cs with
  | nil => rfl
  | cons c after =>
    rw [placesAmong, placesAmong, List.map_append, placesAmong_append f l above (c :: before) after,
      ← List.cons_append, placesUnder_append f _ c]

end

/-- A node with a hole where the child at an index was. -/
def holeAt (n : Node) (i : Nat) : Frame :=
  ⟨n.label, (n.children.take i).reverse, n.children.drop (i + 1)⟩

theorem holeAt_length (l : Label) (before : List Node) (c : Node) (after : List Node) :
    (mk l (before.reverse ++ c :: after)).holeAt before.length = ⟨l, before, after⟩ := by
  have htake : (before.reverse ++ c :: after).take before.length = before.reverse :=
    List.take_left' List.length_reverse
  have hdrop : (before.reverse ++ c :: after).drop (before.length + 1) = after := by
    rw [List.append_cons]
    exact List.drop_left' (by simp)
  rw [holeAt, children_mk, htake, hdrop, List.reverse_reverse, label_mk]

/-- The places of the remaining children come child by child, each child at its index among all
children. -/
theorem placesAmong_eq (l : Label) (before cs : List Node) :
    placesAmong l [] before cs = (cs.zipIdx before.length).flatMap fun (c, i) =>
      c.places.map (Place.under ((mk l (before.reverse ++ cs)).holeAt i)) := by
  induction cs generalizing before with
  | nil => rfl
  | cons c after ih =>
    have hchild : c.placesUnder [⟨l, before, after⟩] =
        c.places.map (Place.under ⟨l, before, after⟩) := placesUnder_append _ [] c
    have hrest := ih (c :: before)
    rw [List.reverse_cons, List.append_assoc, List.singleton_append] at hrest
    rw [placesAmong, hchild, hrest, List.zipIdx_cons, List.flatMap_cons]
    dsimp only
    rw [holeAt_length, List.length_cons]

/-- **The places of a tree are in depth-first pre-order**: first the root, then the children in
order, all places of a child before those of the next one. -/
theorem places_eq (n : Node) :
    n.places = ⟨n, []⟩ ::
      n.children.zipIdx.flatMap fun (c, i) => c.places.map (Place.under (n.holeAt i)) := by
  cases n with
  | mk l cs => exact congrArg (_ :: ·) (placesAmong_eq l [] cs)

/-- A place of a tree is its root, or a place of a child. -/
theorem mem_places_iff {n : Node} {p : Place} :
    p ∈ n.places ↔
      p = ⟨n, []⟩ ∨ ∃ (c : Node) (i : Nat), n.children[i]? = some c ∧
        ∃ q ∈ c.places, p = q.under (n.holeAt i) := by
  rw [places_eq, List.mem_cons, List.mem_flatMap]
  refine or_congr_right ?_
  simp only [Prod.exists, List.mk_mem_zipIdx_iff_getElem?, List.mem_map, eq_comm (b := p)]

theorem mem_places_self (n : Node) : ⟨n, []⟩ ∈ n.places :=
  mem_places_iff.2 (Or.inl rfl)

end Node
end BindLint
