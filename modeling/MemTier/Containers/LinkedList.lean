import Mathlib.Tactic

/-!
# Doubly linked lists with stable iterators

A node keeps its address for as long as it is in the list, and no address is used twice, so an
iterator denotes at most one node.  Erasing through an iterator removes that node and leaves every
other iterator valid.
-/

namespace Containers

/-- A linked list: its nodes from front to back, each with its address. -/
structure Linked (κ : Type) where
  /-- Address and value of every node, front first. -/
  nodes : List (Nat × κ)
  /-- Address of the next node to be allocated. -/
  fresh : Nat
  nodup : (nodes.map Prod.fst).Nodup
  below : ∀ node ∈ nodes, node.1 < fresh

namespace Linked

/-- The list without nodes. -/
def empty {κ : Type} : Linked κ where
  nodes := []
  fresh := 0
  nodup := by simp
  below := by simp

instance {κ : Type} : Inhabited (Linked κ) := ⟨empty⟩

/-- The values from front to back. -/
def values {κ : Type} (list : Linked κ) : List κ :=
  list.nodes.map Prod.snd

/-- The iterator denotes a node of the list that carries the value. -/
def Denotes {κ : Type} (list : Linked κ) (iterator : Nat) (value : κ) : Prop :=
  (iterator, value) ∈ list.nodes

/-- Allocate a node and link it in front. -/
def pushFront {κ : Type} (list : Linked κ) (value : κ) : Linked κ where
  nodes := (list.fresh, value) :: list.nodes
  fresh := list.fresh + 1
  nodup := by
    refine List.nodup_cons.mpr ⟨fun member => ?_, list.nodup⟩
    obtain ⟨node, node_mem, address⟩ := List.mem_map.mp member
    exact absurd address (list.below node node_mem).ne
  below := by
    intro node member
    rcases List.mem_cons.mp member with rfl | member
    · exact Nat.lt_succ_self _
    · exact Nat.lt_succ_of_lt (list.below node member)

/-- Iterator to the first node, past the end when there is none. -/
def begin {κ : Type} (list : Linked κ) : Nat :=
  match list.nodes with
  | [] => list.fresh
  | node :: _ => node.1

/-- Unlink the node an iterator denotes. -/
def erase {κ : Type} (list : Linked κ) (iterator : Nat) : Linked κ where
  nodes := list.nodes.filter fun node => node.1 != iterator
  fresh := list.fresh
  nodup := list.nodup.sublist (List.filter_sublist.map Prod.fst)
  below := fun node member => list.below node (List.mem_of_mem_filter member)

/-- Value of the last node. -/
def back? {κ : Type} (list : Linked κ) : Option κ :=
  list.values.getLast?

/-- Unlink the last node. -/
def popBack {κ : Type} (list : Linked κ) : Linked κ where
  nodes := list.nodes.dropLast
  fresh := list.fresh
  nodup := list.nodup.sublist ((List.dropLast_sublist _).map Prod.fst)
  below := fun node member => list.below node (List.mem_of_mem_dropLast member)

@[simp] theorem values_empty {κ : Type} : (empty : Linked κ).values = [] := rfl

@[simp] theorem values_pushFront {κ : Type} (list : Linked κ) (value : κ) :
    (list.pushFront value).values = value :: list.values := rfl

@[simp] theorem begin_pushFront {κ : Type} (list : Linked κ) (value : κ) :
    (list.pushFront value).begin = list.fresh := rfl

@[simp] theorem values_popBack {κ : Type} (list : Linked κ) :
    list.popBack.values = list.values.dropLast := by
  simp [values, popBack, List.map_dropLast]

/-- An iterator denotes at most one value. -/
theorem Denotes.value_unique {κ : Type} {list : Linked κ} {iterator : Nat} {value₁ value₂ : κ}
    (first : list.Denotes iterator value₁) (second : list.Denotes iterator value₂) :
    value₁ = value₂ := by
  have same := List.inj_on_of_nodup_map list.nodup first second rfl
  exact congrArg Prod.snd same

theorem denotes_pushFront_begin {κ : Type} (list : Linked κ) (value : κ) :
    (list.pushFront value).Denotes (list.pushFront value).begin value :=
  List.mem_cons_self

theorem Denotes.pushFront {κ : Type} {list : Linked κ} {iterator : Nat} {value : κ}
    (denotes : list.Denotes iterator value) (pushed : κ) :
    (list.pushFront pushed).Denotes iterator value :=
  List.mem_cons_of_mem _ denotes

theorem Denotes.erase {κ : Type} {list : Linked κ} {iterator erased : Nat} {value : κ}
    (denotes : list.Denotes iterator value) (other : iterator ≠ erased) :
    (list.erase erased).Denotes iterator value :=
  List.mem_filter.mpr ⟨denotes, by simpa using other⟩

/-- Popping the last node leaves every iterator valid whose value the last node does not carry. -/
theorem Denotes.popBack {κ : Type} {list : Linked κ} {iterator : Nat} {value last : κ}
    (denotes : list.Denotes iterator value) (popped : list.back? = some last)
    (other : value ≠ last) : list.popBack.Denotes iterator value := by
  have nonempty : list.nodes ≠ [] := List.ne_nil_of_mem denotes
  have split := List.dropLast_append_getLast nonempty
  have last_value : (list.nodes.getLast nonempty).2 = last := by
    rw [back?, values, List.getLast?_map, List.getLast?_eq_some_getLast nonempty] at popped
    simpa using popped
  have member : (iterator, value) ∈ list.nodes.dropLast ++ [list.nodes.getLast nonempty] := by
    rw [split]
    exact denotes
  rcases List.mem_append.mp member with kept | dropped
  · exact kept
  · rw [List.mem_singleton] at dropped
    rw [← dropped] at last_value
    exact absurd last_value other

/-- With distinct values, erasing through an iterator erases its value. -/
theorem values_erase {κ : Type} [DecidableEq κ] {list : Linked κ} {iterator : Nat} {value : κ}
    (distinct : list.values.Nodup) (denotes : list.Denotes iterator value) :
    (list.erase iterator).values = list.values.erase value := by
  rw [distinct.erase_eq_filter value]
  simp only [values, erase, List.filter_map]
  congr 1
  apply List.filter_congr
  intro node member
  have matching : node.1 = iterator ↔ node.2 = value := by
    constructor
    · intro address
      have here : list.Denotes iterator node.2 := by
        rw [← address]
        exact member
      exact here.value_unique denotes
    · intro same
      exact congrArg Prod.fst (List.inj_on_of_nodup_map distinct member denotes same)
  simp [bne, beq_eq_decide, matching]

end Linked
end Containers
