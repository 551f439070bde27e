import PascalTree.Node.Build
import PascalTree.Node.Path

/-! # What an edit leaves alone

A slot of a node somewhere in a tree is given new content. The paths that lead through the slot read
the new content. All other paths read what they read before: the same subtree, or, on the way to the
slot, a node with the same outline. So an edit is undone by putting back what was taken out.
-/
namespace PascalTree.Node
set_option autoImplicit false

/-- What is seen of a node without looking into its children. -/
structure SameOutline (first second : Node) : Prop where
  kind : first.kind = second.kind
  payload : first.payload = second.payload
  arity : first.slots.length = second.slots.length
  items : first.items.length = second.items.length

theorem SameOutline.refl (node : Node) : SameOutline node node := ⟨rfl, rfl, rfl, rfl⟩

theorem sameOutline_assignSlot (node : Node) (index : Nat) (content : Option Node) :
    SameOutline (node.assignSlot index content) node where
  kind := congrArg Label.kind (node.label_assignSlot index content)
  payload := congrArg Label.payload (node.label_assignSlot index content)
  arity := by rw [slots_assignSlot, List.length_set]
  items := by rw [items_assignSlot]

theorem sameOutline_withItems {node : Node} {items : List Node} (hList : node.kind.isList)
    (hLength : items.length = node.items.length) : SameOutline (node.withItems items) node where
  kind := congrArg Label.kind (node.label_withItems items)
  payload := congrArg Label.payload (node.label_withItems items)
  arity := by rw [slots_withItems]
  items := by rw [items_withItems node items hList, hLength]

theorem rel_sameOutline_refl (found : Option Node) : Option.Rel SameOutline found found := by
  cases found with
  | none => exact .none
  | some node => exact .some (.refl node)

theorem not_isList_of_lt_arity {node : Node} {index : Nat} (h : index < node.kind.arity) :
    ¬ node.kind.isList := by
  intro hList
  rw [Kind.arity_eq_zero_of_isList hList] at h
  exact absurd h (Nat.not_lt_zero index)

theorem step?_eq_child {node : Node} {index : Nat} (h : index < node.kind.arity) :
    node.step? index = node.child index :=
  if_neg (not_isList_of_lt_arity h)

theorem step?_assignSlot_self {node : Node} {index : Nat} (h : index < node.kind.arity)
    (content : Option Node) : (node.assignSlot index content).step? index = content := by
  have hKind := (node.sameOutline_assignSlot index content).kind
  rw [step?_eq_child (hKind ▸ h)]
  exact node.child_assignSlot_self content (node.length_slots ▸ h)

theorem step?_assignSlot_ne (node : Node) {index other : Nat} (content : Option Node)
    (h : other ≠ index) : (node.assignSlot index content).step? other = node.step? other := by
  rw [step?, step?, (node.sameOutline_assignSlot index content).kind, items_assignSlot,
    node.child_assignSlot_ne content h]

theorem sameOutline_replaceStep (node : Node) (index : Nat) (child : Node) :
    SameOutline (node.replaceStep index child) node := by
  unfold replaceStep
  split
  · exact sameOutline_withItems ‹_› List.length_set
  · exact node.sameOutline_assignSlot index (some child)

theorem replaceStep_of_step? {node child : Node} {index : Nat} (h : node.step? index = some child) :
    node.replaceStep index child = node := by
  unfold step? at h
  unfold replaceStep
  split at h <;> rename_i hList
  · obtain ⟨hBound, rfl⟩ := List.getElem?_eq_some_iff.mp h
    rw [if_pos hList, List.set_getElem_self, withItems_items]
  · rw [if_neg hList, ← h, assignSlot_child]

theorem replaceStep_replaceStep (node : Node) (index : Nat) (first second : Node) :
    (node.replaceStep index first).replaceStep index second = node.replaceStep index second := by
  have hKind := (node.sameOutline_replaceStep index first).kind
  rw [replaceStep, hKind]
  by_cases hList : node.kind.isList
  · obtain ⟨kind, items, rfl⟩ := node.isList_kind.mp hList
    simp [replaceStep, hList, withItems, Node.items]
  · simp [replaceStep, hList]

theorem replaceAt_cons {node next : Node} {index : Nat} (h : node.step? index = some next)
    (rest : Path) (new : Node) :
    replaceAt (index :: rest) new node = node.replaceStep index (replaceAt rest new next) := by
  rw [replaceAt, h]

theorem replaceAt_of_get? {path : Path} {tree node : Node} (h : get? path tree = some node) :
    replaceAt path node tree = tree := by
  induction path generalizing tree with
  | nil => exact (Option.some.inj h).symm
  | cons index rest ih =>
    obtain ⟨next, hNext, hRest⟩ := Option.bind_eq_some_iff.mp h
    rw [replaceAt_cons hNext, ih hRest, replaceStep_of_step? hNext]

theorem replaceAt_replaceAt {path : Path} {tree node : Node} (h : get? path tree = some node)
    (first second : Node) :
    replaceAt path second (replaceAt path first tree) = replaceAt path second tree := by
  induction path generalizing tree with
  | nil => rfl
  | cons index rest ih =>
    obtain ⟨next, hNext, hRest⟩ := Option.bind_eq_some_iff.mp h
    have hFirst := tree.step?_replaceStep_self (replaceAt rest first next) hNext
    rw [replaceAt_cons hNext, replaceAt_cons hFirst, ih hRest, replaceStep_replaceStep,
      replaceAt_cons hNext]

theorem get?_append_replaceAt {path : Path} {tree node : Node} (h : get? path tree = some node)
    (new : Node) (rest : Path) : get? (path ++ rest) (replaceAt path new tree) = get? rest new := by
  rw [get?_append, get?_replaceAt_self path tree new h, Option.bind_some]

/-- A path that does not lead to the replaced node finds what it found before. If it ends on the way
there, only the outline of what it found is still the same. -/
theorem get?_replaceAt_of_not_prefix {path other : Path} {tree node : Node}
    (hNode : get? path tree = some node) (new : Node) (hOther : ¬ path <+: other) :
    Option.Rel SameOutline (get? other (replaceAt path new tree)) (get? other tree) ∧
      (¬ other <+: path → get? other (replaceAt path new tree) = get? other tree) := by
  induction path generalizing tree other with
  | nil => exact absurd List.nil_prefix hOther
  | cons index rest ih =>
    obtain ⟨next, hNext, hRest⟩ := Option.bind_eq_some_iff.mp hNode
    rw [replaceAt_cons hNext]
    cases other with
    | nil => exact ⟨.some (tree.sameOutline_replaceStep index _), fun h => absurd List.nil_prefix h⟩
    | cons step steps =>
      by_cases hStep : step = index
      · subst hStep
        rw [List.cons_prefix_cons, and_iff_right rfl] at hOther
        rw [get?_cons, get?_cons, step?_replaceStep_self tree _ hNext, hNext, Option.bind_some,
          Option.bind_some, List.cons_prefix_cons, and_iff_right rfl]
        exact ih hRest hOther
      · rw [get?_cons, step?_replaceStep_ne tree _ hStep, ← get?_cons]
        exact ⟨rel_sameOutline_refl _, fun _ => rfl⟩

/-- The second tree has the content in a slot of the node at the path, and is the first one
everywhere else. -/
structure SlotReplaced (path : Path) (index : Nat) (content : Option Node) (tree edited : Node) :
    Prop where
  inside : ∀ rest, get? (path ++ index :: rest) edited = content.bind (get? rest)
  outside : ∀ other, ¬ path ++ [index] <+: other →
    Option.Rel SameOutline (get? other edited) (get? other tree) ∧
      (¬ other <+: path → get? other edited = get? other tree)

theorem slotReplaced_assignSlot {path : Path} {tree node : Node} {index : Nat}
    (hNode : get? path tree = some node) (hIndex : index < node.kind.arity)
    (content : Option Node) :
    SlotReplaced path index content tree
      (replaceAt path (node.assignSlot index content) tree) where
  inside rest := by
    rw [get?_append_replaceAt hNode, get?_cons, step?_assignSlot_self hIndex]
  outside other hOther := by
    by_cases hPath : path <+: other
    · obtain ⟨rest, rfl⟩ := hPath
      rw [get?_append_replaceAt hNode, get?_append, hNode, Option.bind_some]
      cases rest with
      | nil =>
        have hSelf : path ++ [] <+: path := by simp
        exact ⟨.some (node.sameOutline_assignSlot index content), fun h => absurd hSelf h⟩
      | cons step steps =>
        have hStep : step ≠ index := by
          rintro rfl
          exact hOther ⟨steps, by simp⟩
        rw [get?_cons, step?_assignSlot_ne node content hStep, ← get?_cons]
        exact ⟨rel_sameOutline_refl _, fun _ => rfl⟩
    · exact get?_replaceAt_of_not_prefix hNode _ hPath

/-- Assigning a slot of a node in a tree changes the slot and nothing else. Taking the child out of
a slot empties it, and putting the child back restores the tree. There is nothing to take where
there is no slot. -/
theorem slotReplaced_takeChild {path : Path} {tree node emptied : Node} {index : Nat}
    {taken : Option Node} (hNode : get? path tree = some node)
    (hTaken : node.takeChild index = (taken, emptied)) :
    (index < node.kind.arity →
      (∀ content, SlotReplaced path index content tree
        (replaceAt path (node.assignSlot index content) tree)) ∧
      SlotReplaced path index none tree (replaceAt path emptied tree) ∧
      taken = get? (path ++ [index]) tree ∧
      get? path (replaceAt path emptied tree) = some emptied ∧
      emptied.takeChild index = (none, emptied) ∧
      replaceAt path (emptied.assignSlot index taken) (replaceAt path emptied tree) = tree) ∧
    (node.kind.arity ≤ index →
      taken = none ∧ emptied = node ∧ replaceAt path emptied tree = tree) := by
  obtain ⟨rfl, rfl⟩ := Prod.mk.inj hTaken
  constructor
  · intro hIndex
    have hSlot : index < node.slots.length := node.length_slots ▸ hIndex
    refine ⟨slotReplaced_assignSlot hNode hIndex, slotReplaced_assignSlot hNode hIndex none, ?_,
      get?_replaceAt_self path tree _ hNode, ?_, ?_⟩
    · rw [get?_append, hNode, Option.bind_some, get?_cons, step?_eq_child hIndex]
      cases node.child index <;> rfl
    · rw [takeChild, node.child_assignSlot_self none hSlot, assignSlot_assignSlot]
    · rw [assignSlot_assignSlot, assignSlot_child, replaceAt_replaceAt hNode,
        replaceAt_of_get? hNode]
  · intro hIndex
    have hSlot : node.slots.length ≤ index := node.length_slots ▸ hIndex
    rw [node.assignSlot_of_le none hSlot]
    exact ⟨node.child_eq_none hSlot, rfl, replaceAt_of_get? hNode⟩

/-- The value is taken out of an assignment and put back. An assignment has no fourth slot. -/
theorem slotReplaced_takeChild_assignment :
    let tree := Build.compound [Build.read (Build.identifier "y"),
      Build.assign (Build.identifier "x") none (Build.integer 1)]
    let node := Build.assign (Build.identifier "x") none (Build.integer 1)
    let emptied := Node.assign (some (Build.identifier "x")) none none
    get? [0, 1] tree = some node ∧
      node.takeChild 2 = (some (Build.integer 1), emptied) ∧
      SlotReplaced [0, 1] 2 none tree (replaceAt [0, 1] emptied tree) ∧
      replaceAt [0, 1] (emptied.assignSlot 2 (some (Build.integer 1)))
        (replaceAt [0, 1] emptied tree) = tree ∧
      node.takeChild 3 = (none, node) ∧ replaceAt [0, 1] node tree = tree := by
  intro tree node emptied
  have hNode : get? [0, 1] tree = some node := rfl
  have hTaken : node.takeChild 2 = (some (Build.integer 1), emptied) := rfl
  have hNone : node.takeChild 3 = (none, node) := rfl
  obtain ⟨-, hReplaced, -, -, -, hRestored⟩ := (slotReplaced_takeChild hNode hTaken).1 (by decide)
  obtain ⟨-, -, hSame⟩ := (slotReplaced_takeChild hNode hNone).2 (by decide)
  exact ⟨hNode, hTaken, hReplaced, hRestored, hNone, hSame⟩

end PascalTree.Node
