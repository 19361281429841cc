import Mathlib.Data.List.Chain
import Mathlib.Logic.Relation

/-!
# Trees given by parent pointers

A path runs from a node towards the root along the parent pointers.  Ranks grow
away from the root, so a path never meets a node twice and can be cut at a rank.
-/

/-- A forest in which every node knows its parent and ranks decrease towards the root. -/
structure ParentTree (α : Type*) where
  parent : α → Option α
  rank : α → Nat
  rank_lt : ∀ {child node}, parent child = some node → rank node < rank child

namespace ParentTree

variable {α : Type*} {tree : ParentTree α}

/-- The parent relation. -/
def ChildOf (tree : ParentTree α) (child node : α) : Prop :=
  tree.parent child = some node

/-- A node lies on the way from another one to the root. -/
def Ancestor (tree : ParentTree α) (node descendant : α) : Prop :=
  Relation.ReflTransGen (fun first second => tree.ChildOf second first) node descendant

/-- Consecutive nodes along parent pointers, the one farthest from the root first. -/
def Path (tree : ParentTree α) (path : List α) : Prop :=
  path.IsChain tree.ChildOf

/-- The part of a path up to a rank. -/
def upTo (tree : ParentTree α) (rank : Nat) (path : List α) : List α :=
  path.filter fun node => decide (tree.rank node ≤ rank)

theorem Path.ranks_decrease {path : List α} (isPath : tree.Path path) :
    path.Pairwise fun first second => tree.rank second < tree.rank first := by
  have transitive : IsTrans α fun first second => tree.rank second < tree.rank first :=
    ⟨fun _ _ _ first second => second.trans first⟩
  exact List.isChain_iff_pairwise.mp (List.IsChain.imp (fun _ _ child => tree.rank_lt child) isPath)

theorem Path.nodup {path : List α} (isPath : tree.Path path) : path.Nodup :=
  isPath.ranks_decrease.imp fun lower same => (same ▸ lower).ne rfl

theorem Path.cons {child node : α} {rest : List α} (isPath : tree.Path (node :: rest))
    (isChild : tree.ChildOf child node) : tree.Path (child :: node :: rest) :=
  List.IsChain.cons_cons isChild isPath

/-- A path cut at the rank of one of its nodes is the path from that node. -/
theorem Path.upTo_eq {path : List α} (isPath : tree.Path path) {node : α} (nodeMem : node ∈ path) :
    ∃ rest, tree.upTo (tree.rank node) path = node :: rest ∧ tree.Path (node :: rest) := by
  obtain ⟨before, rest, rfl⟩ := List.append_of_mem nodeMem
  obtain ⟨-, restDecreases, cross⟩ := List.pairwise_append.mp isPath.ranks_decrease
  refine ⟨rest, ?_, List.IsChain.right_of_append isPath⟩
  have above : (before.filter fun other => decide (tree.rank other ≤ tree.rank node)) = [] := by
    rw [List.filter_eq_nil_iff]
    intro other otherMem
    have higher := cross other otherMem node List.mem_cons_self
    simp only [decide_eq_true_eq]
    omega
  have below : (rest.filter fun other => decide (tree.rank other ≤ tree.rank node)) = rest := by
    rw [List.filter_eq_self]
    intro other otherMem
    have lower := List.rel_of_pairwise_cons restDecreases otherMem
    simp only [decide_eq_true_eq]
    omega
  unfold upTo
  rw [List.filter_append, above, List.nil_append, List.filter_cons_of_pos (by simp), below]

/-- Ranks decrease towards the root. -/
theorem Ancestor.rank_le {node descendant : α} (ancestor : tree.Ancestor node descendant) :
    tree.rank node ≤ tree.rank descendant := by
  induction ancestor with
  | refl => exact le_rfl
  | tail _ child ih => exact ih.trans (tree.rank_lt child).le

/-- An ancestor of the first node of a path lies on the path or above its last node. -/
theorem Path.mem_or_ancestor {first last : α} {path : List α}
    (isPath : tree.Path (path ++ [last])) (head : (path ++ [last]).head? = some first)
    {node : α} (ancestor : tree.Ancestor node first) :
    node ∈ path ++ [last] ∨ tree.rank node < tree.rank last := by
  induction path generalizing first with
  | nil =>
      have isLast : last = first := Option.some.inj head
      subst isLast
      rcases Relation.ReflTransGen.cases_tail ancestor with rfl | ⟨next, ancestor, child⟩
      · exact Or.inl (List.mem_singleton_self _)
      · have lower := tree.rank_lt child
        have bound := Ancestor.rank_le ancestor
        exact Or.inr (by omega)
  | cons top path ih =>
      have isTop : top = first := Option.some.inj head
      subst isTop
      rcases Relation.ReflTransGen.cases_tail ancestor with rfl | ⟨next, ancestor, child⟩
      · exact Or.inl List.mem_cons_self
      · have restPath : tree.Path (path ++ [last]) := List.IsChain.of_cons isPath
        cases restHead : (path ++ [last]).head? with
        | none => simp at restHead
        | some below =>
            obtain ⟨rest, restEq⟩ := List.head?_eq_some_iff.mp restHead
            have link : tree.ChildOf top below := by
              have whole : tree.Path (top :: (path ++ [last])) := isPath
              rw [restEq] at whole
              exact List.IsChain.rel whole
            have same : next = below := Option.some.inj (child.symm.trans link)
            exact (ih restPath restHead (same ▸ ancestor)).imp_left (List.mem_cons_of_mem top)

/-- Every node of a path is an ancestor of its first one. -/
theorem Path.ancestor_of_mem {first : α} {rest : List α} (isPath : tree.Path (first :: rest))
    {node : α} (nodeMem : node ∈ first :: rest) : tree.Ancestor node first := by
  induction rest generalizing first with
  | nil =>
      rw [List.mem_singleton.mp nodeMem]
      exact Relation.ReflTransGen.refl
  | cons second rest ih =>
      rcases List.mem_cons.mp nodeMem with rfl | later
      · exact Relation.ReflTransGen.refl
      · exact (ih isPath.of_cons later).tail (List.IsChain.rel isPath)

/-! ## Paths with a fixed end -/

theorem append_singleton_eq_cons (path : List α) (root : α) :
    ∃ rest, path ++ [root] = path.headD root :: rest := by
  cases path with
  | nil => exact ⟨[], rfl⟩
  | cons first rest => exact ⟨rest ++ [root], rfl⟩

/-- A child of the first node extends a path. -/
theorem Path.child {path : List α} {root child : α} (isPath : tree.Path (path ++ [root]))
    (isChild : tree.ChildOf child (path.headD root)) : tree.Path (child :: path ++ [root]) := by
  obtain ⟨rest, starts⟩ := append_singleton_eq_cons path root
  rw [List.cons_append, starts]
  exact (starts ▸ isPath : tree.Path (path.headD root :: rest)).cons isChild

/-- Every node of a path is an ancestor of its first one. -/
theorem Path.ancestor_headD {path : List α} {root node : α} (isPath : tree.Path (path ++ [root]))
    (nodeMem : node ∈ path ++ [root]) : tree.Ancestor node (path.headD root) := by
  obtain ⟨rest, starts⟩ := append_singleton_eq_cons path root
  rw [starts] at isPath nodeMem
  exact isPath.ancestor_of_mem nodeMem

/-- The first node of a path has the greatest rank. -/
theorem Path.rank_le_headD {path : List α} {root node : α} (isPath : tree.Path (path ++ [root]))
    (nodeMem : node ∈ path ++ [root]) : tree.rank node ≤ tree.rank (path.headD root) := by
  obtain ⟨rest, starts⟩ := append_singleton_eq_cons path root
  have decreasing := isPath.ranks_decrease
  rw [starts] at decreasing nodeMem
  rcases List.mem_cons.mp nodeMem with rfl | later
  · exact le_rfl
  · exact (List.rel_of_pairwise_cons decreasing later).le

/-- The last node of a path has the least rank. -/
theorem Path.root_rank_le {path : List α} {root node : α} (isPath : tree.Path (path ++ [root]))
    (nodeMem : node ∈ path ++ [root]) : tree.rank root ≤ tree.rank node := by
  rcases List.mem_append.mp nodeMem with above | isRoot
  · exact ((List.pairwise_append.mp isPath.ranks_decrease).2.2 node above root
      (List.mem_singleton_self _)).le
  · rw [List.mem_singleton.mp isRoot]

/-- Cut at one of its nodes, a path starts with that node and keeps its end. -/
theorem Path.cut {path : List α} {root node : α} (isPath : tree.Path (path ++ [root]))
    (nodeMem : node ∈ path ++ [root]) :
    tree.Path (tree.upTo (tree.rank node) path ++ [root]) ∧
      (tree.upTo (tree.rank node) path).headD root = node := by
  obtain ⟨rest, cut, linked⟩ := isPath.upTo_eq nodeMem
  have whole : tree.upTo (tree.rank node) path ++ [root] = node :: rest := by
    rw [← cut]
    simp only [upTo, List.filter_append]
    rw [List.filter_singleton, decide_eq_true (isPath.root_rank_le nodeMem), cond_true]
  obtain ⟨others, starts⟩ := append_singleton_eq_cons (tree.upTo (tree.rank node) path) root
  rw [whole] at starts ⊢
  exact ⟨linked, (List.cons.inj starts).1.symm⟩

end ParentTree
